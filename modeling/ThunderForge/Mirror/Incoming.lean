import ThunderForge.Mirror.Document

/-! What a repository proposes to the world it mirrors (`lore_sync/incoming.rs`): the changes that are detected, and the
rows under which they wait to be decided. That incoming changes are enabled is what a caller has to show; the statements
that record them succeed. -/

namespace ThunderForge.Mirror

/-- A file as the polling pass found it. -/
structure RepositoryFile where
  path : Text
  contents : Text
  deriving DecidableEq

/-- What the world believes it exported for one entry, and what that entry says now. -/
structure ExportedEntry where
  loreEntryId : Uuid
  title : Text
  currentPath : Text
  exportedRevisionId : Option Uuid
  exportedBody : Text
  currentRevisionId : Option Uuid
  currentBody : Text
  deriving DecidableEq

/-- One thing the repository proposes. -/
inductive DetectedChange where
  | update (loreEntryId : Uuid) (repositoryPath incomingBody : Text) (baseRevisionId appRevisionId : Option Uuid)
    (alsoChangedInApp : Bool)
  | newEntry (repositoryPath proposedTitle incomingBody : Text)
  | deletion (loreEntryId : Uuid) (repositoryPath : Text)
  deriving DecidableEq

/-- The entry a proposal is about. -/
def DetectedChange.loreEntryId : DetectedChange → Option Uuid
  | .update id .. => some id
  | .newEntry .. => none
  | .deletion id _ => some id

/-- A readable name for a file that carries none. -/
def titleFromFilename (path : Text) : Text :=
  let leaf := (path.splitOn '/').getLast?.getD path
  let stem := (stripSuffix ".md".toList leaf).getD leaf
  if trimChars stem = [] then "Untitled".toList else stem

/-- Repository link form back to authored form. Of two entries at one destination the later one counts. -/
def restoreAuthoredLinks (body selfPath : Text) (exported : List ExportedEntry) : Text :=
  let byDestination := (exported.filter fun entry => entry.currentPath ≠ selfPath).map fun entry =>
    (relativeLink selfPath entry.currentPath, entry.title)
  restoreLinks body fun destination =>
    (byDestination.reverse.find? fun (link, _) => link = destination).map fun (_, title) => title

/-- What the files seen so far come to. -/
structure Detection where
  accountedFor : List Uuid
  changes : List DetectedChange

section detect

variable (readers : Readers) (exported : List ExportedEntry) (withheld : List Uuid)

/-- Of two entries with one identifier the later one counts. -/
def entryById (id : Uuid) : Option ExportedEntry := exported.reverse.find? fun entry => entry.loreEntryId = id

def detectFile (found : Detection) (file : RepositoryFile) : Detection :=
  match parse readers file.contents with
  | .error _ =>
    { found with changes := found.changes ++ [.newEntry file.path (titleFromFilename file.path) file.contents] }
  | .ok parsed =>
    if parsed.header.id ∈ withheld then found
    else
      match entryById exported parsed.header.id with
      | none =>
        let title := trimChars parsed.header.title
        let proposed := if title = [] then titleFromFilename file.path else title
        let incoming := restoreAuthoredLinks parsed.body file.path exported
        { found with changes := found.changes ++ [.newEntry file.path proposed incoming] }
      | some entry =>
        let found := { found with accountedFor := entry.loreEntryId :: found.accountedFor }
        let incoming := restoreAuthoredLinks parsed.body file.path exported
        if incoming = entry.exportedBody ∨ incoming = entry.currentBody then found
        else
          { found with
            changes := found.changes ++ [.update entry.loreEntryId file.path incoming entry.exportedRevisionId
              entry.currentRevisionId (entry.currentRevisionId ≠ entry.exportedRevisionId)] }

/-- Compares a repository against a world, and says what the repository proposes. -/
def detect (files : List RepositoryFile) : List DetectedChange :=
  let found := files.foldl (detectFile readers exported withheld) { accountedFor := [], changes := [] }
  let missing := exported.filter fun entry =>
    ¬ (entry.loreEntryId ∈ found.accountedFor ∨ entry.loreEntryId ∈ withheld)
  found.changes ++ missing.map fun entry => .deletion entry.loreEntryId entry.currentPath

end detect

/-! Pending rows. -/

inductive PendingKind where
  | update
  | newEntry
  | deletion
  deriving DecidableEq

inductive PendingStatus where
  | pending
  | accepted
  | declined
  deriving DecidableEq

/-- A row of `lore_pending_incoming_changes`. What is known once it is decided is left out. -/
structure PendingChange where
  id : Uuid
  connectionId : Uuid
  loreEntryId : Option Uuid
  kind : PendingKind
  repositoryPath : Text
  proposedTitle : Option Text
  incomingBody : Option Text
  baseRevisionId : Option Uuid
  appRevisionId : Option Uuid
  alsoChangedInApp : Bool
  status : PendingStatus
  detectedAt : Instant
  deriving DecidableEq

/-- Proof that a connection has enabled acceptance of incoming changes. -/
structure IncomingEnabled where
  connectionId : Uuid
  worldId : Uuid

def rowFor (gate : IncomingEnabled) (now : Instant) (id : Uuid) (change : DetectedChange) : PendingChange :=
  let base : PendingChange :=
    { id, connectionId := gate.connectionId, loreEntryId := none, kind := .update, repositoryPath := [],
      proposedTitle := none, incomingBody := none, baseRevisionId := none, appRevisionId := none,
      alsoChangedInApp := false, status := .pending, detectedAt := now }
  match change with
  | .update loreEntryId repositoryPath incomingBody baseRevisionId appRevisionId alsoChangedInApp =>
    { base with
      loreEntryId := some loreEntryId, kind := .update, repositoryPath, incomingBody := some incomingBody,
      baseRevisionId, appRevisionId, alsoChangedInApp }
  | .newEntry repositoryPath proposedTitle incomingBody =>
    { base with
      loreEntryId := none, kind := .newEntry, repositoryPath, proposedTitle := some proposedTitle,
      incomingBody := some incomingBody }
  | .deletion loreEntryId repositoryPath =>
    { base with loreEntryId := some loreEntryId, kind := .deletion, repositoryPath, incomingBody := none }

/-- Whether a row is the undecided one a proposal replaces: that of its entry or, where it names none, that of its
file. -/
def replaces (gate : IncomingEnabled) (row other : PendingChange) : Bool :=
  decide (other.connectionId = gate.connectionId ∧ other.status = .pending) &&
    match row.loreEntryId with
    | some entryId => other.loreEntryId = some entryId
    | none => other.loreEntryId = none ∧ other.repositoryPath = row.repositoryPath

/-- What a proposal changes in the row it replaces. -/
def PendingChange.overwrite (other row : PendingChange) (now : Instant) : PendingChange :=
  { other with
    kind := row.kind, repositoryPath := row.repositoryPath, proposedTitle := row.proposedTitle,
    incomingBody := row.incomingBody, baseRevisionId := row.baseRevisionId, appRevisionId := row.appRevisionId,
    alsoChangedInApp := row.alsoChangedInApp, detectedAt := now }

/-- Stores one proposal, with the identifier its row has if it is inserted. The identifiers of the rows are collected. -/
def recordChange (gate : IncomingEnabled) (now : Instant) (stored : List PendingChange × List Uuid)
    (change : DetectedChange × Uuid) : List PendingChange × List Uuid :=
  let row := rowFor gate now change.2 change.1
  match stored.1.find? (replaces gate row) with
  | some existing =>
    (stored.1.map fun other => if other.id = existing.id then other.overwrite row now else other,
      stored.2 ++ [existing.id])
  | none => (stored.1 ++ [row], stored.2 ++ [row.id])

/-- Persists detected proposals for review. -/
def record (gate : IncomingEnabled) (now : Instant) (newIds : List Uuid) (changes : List DetectedChange)
    (rows : List PendingChange) : List PendingChange × List Uuid :=
  (changes.zip newIds).foldl (recordChange gate now) (rows, [])

end ThunderForge.Mirror
