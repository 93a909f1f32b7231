import Mathlib.Data.Prod.Lex
import ThunderForge.Basic
import ThunderForge.Lib.SortBy
import ThunderForge.SheetImport.Character

/-! The mapping engine: a reading, planned onto an actor (`thunderforge-sheet-import/src/mapping.rs` and
`plan.rs`). Memory is not bounded, so a list can be padded to any index; the hash of content and Rust's Unicode
tables are parameters. -/

namespace ThunderForge.SheetImport

/-! A system's declaration. -/

/-- Where one neutral content kind lands. -/
inductive ContentTarget where
  | ability (vocabulary : String)
  | item
  | refine
  deriving DecidableEq

structure SheetMapping where
  /-- Neutral path to target; a path may name a whole part. -/
  fields : Std.ExtTreeMap String String
  content : Std.ExtTreeMap String ContentTarget
  /-- Globs over a reading's `derived` keys. -/
  derived : List String
  playState : List String
  ignore : List String
  notes : String

/-- Whether `declared` is `path` or a part holding it. -/
def covers (declared path : String) : Bool :=
  path = declared || (declared.toList ++ ['.']).isPrefixOf path.toList

/-- `str::split('.')`. -/
def segmentsOf (path : String) : List String := (path.toList.splitOn '.').map String.ofList

/-- The loop of `glob_matches`. -/
def globMatchesFrom : List String → List String → Bool
  | [], parts => parts = []
  | ["*"], parts => parts ≠ []
  | segment :: pattern, part :: parts => (segment = "*" || segment = part) && globMatchesFrom pattern parts
  | _ :: _, [] => false

/-- `*` matches one segment; a trailing `*` matches one or more. -/
def globMatches (glob key : String) : Bool := globMatchesFrom (segmentsOf glob) (segmentsOf key)

/-- The declared path that covers `path`: itself, or the nearest part holding it. -/
def SheetMapping.fieldFor (mapping : SheetMapping) (path : String) : Option (String × String) :=
  (mapping.fields.toList.filter fun field => covers field.1 path).foldl
    (fun best field =>
      if best.all fun held => held.1.utf8ByteSize ≤ field.1.utf8ByteSize then some field else best) none

def SheetMapping.isDerived (mapping : SheetMapping) (key : String) : Bool :=
  mapping.derived.any fun glob => globMatches glob key

def SheetMapping.isIgnored (mapping : SheetMapping) (path : String) : Bool :=
  mapping.ignore.any fun ignored => covers ignored path

/-- `str::parse::<usize>`. -/
def parseUsize (text : String) : Option Nat :=
  let digits := if text.toList.head? = some '+' then text.toList.drop 1 else text.toList
  if digits ≠ [] ∧ digits.all Char.isDigit ∧ Nat.ofDigitChars 10 digits 0 < 2 ^ 64 then
    some (Nat.ofDigitChars 10 digits 0)
  else none

def stripPrefix (front text : String) : Option String :=
  if front.toList.isPrefixOf text.toList then some (String.ofList (text.toList.drop front.toList.length)) else none

/-! The plan. -/

/-- The person's corrections, by neutral path. -/
abbrev Corrections := Std.ExtTreeMap String Json

inductive PlanCertainty where
  | read
  | uncertain
  | unread
  | corrected
  deriving DecidableEq

structure FieldChange where
  path : String
  target : String
  old : Option Json
  new : Option Json
  certainty : PlanCertainty
  reason : Option String
  source : Option Source
  playState : Bool

inductive Resolution where
  | world (id : String)
  | stagedExisting (id : String)
  | stagedNew
  | differs (id : String)
  deriving DecidableEq

structure ContentChange where
  kind : String
  name : String
  normalised : String
  target : ContentTarget
  resolution : Resolution
  fields : Json
  contentHash : String
  link : ContentLink
  certainty : PlanCertainty
  reason : Option String
  source : Option Source
  removed : Bool
  linked : Bool
  /-- The reading's `content.N` paths this change came from. -/
  from_ : List String

structure Unmapped where
  path : String
  label : String
  value : Json
  goesTo : String

structure CrossCheck where
  path : String
  sheet : Json
  derived : Json

structure KeptInPlay where
  target : String
  current : Option Json
  sheet : Option Json

structure ImportPlan where
  readerId : String
  readerVersion : String
  isReimport : Bool
  fields : List FieldChange
  content : List ContentChange
  unmapped : List Unmapped
  crossChecks : List CrossCheck
  keptInPlay : List KeptInPlay
  identical : List String
  checked : List String
  ignored : List String

/-- One piece of content the actor links now. -/
structure CurrentLink where
  kind : String
  name : String
  id : String
  staged : Bool

/-- The actor as it is before the import. -/
structure ActorSnapshot where
  isReimport : Bool
  values : Std.ExtTreeMap String Json
  links : List CurrentLink

/-- Where a world already holds a piece of content. -/
inductive Indexed where
  | world (id : String)
  | staged (id contentHash : String)

/-- The world's content by kind and name, with the hash of content and the tables of Unicode. -/
structure World where
  lookup : String → String → Option Indexed
  contentHash : String → Json → String
  isAlphanumeric : Char → Bool
  toLowercase : Char → List Char

/-- A path's segments, with numbers compared as numbers. -/
def natural (path : String) : List (Nat ×ₗ Nat ×ₗ String) :=
  (segmentsOf path).map fun segment =>
    match parseUsize segment with
    | some number => toLex (0, toLex (number, ""))
    | none => toLex (1, toLex (0, segment))

/-- `Vec::sort` and `Vec::dedup`. -/
def sortDedup (list : List String) : List String := SortBy.dedup (SortBy.sortBy id list)

def ImportPlan.sort (plan : ImportPlan) : ImportPlan :=
  { plan with
    fields := SortBy.sortBy FieldChange.path plan.fields
    content := SortBy.sortBy (fun change => toLex (change.removed, toLex (change.kind, change.normalised))) plan.content
    unmapped := SortBy.sortBy (fun entry => natural entry.path) plan.unmapped
    crossChecks := SortBy.sortBy CrossCheck.path plan.crossChecks
    keptInPlay := SortBy.sortBy KeptInPlay.target plan.keptInPlay
    identical := sortDedup plan.identical
    checked := sortDedup plan.checked
    ignored := sortDedup plan.ignored }

/-- A leaf, with the person's correction applied. -/
structure Planned where
  path : String
  value : Option Json
  certainty : PlanCertainty
  reason : Option String
  source : Option Source

def notNull (value : Json) : Option Json := if value = .null then none else some value

def planned (corrections : Corrections) (leaf : Leaf) : Planned :=
  match corrections[leaf.path]? with
  | some corrected =>
    { path := leaf.path, value := notNull corrected, certainty := .corrected, reason := none, source := leaf.source }
  | none =>
    match leaf.certainty with
    | .read => { path := leaf.path, value := leaf.value, certainty := .read, reason := none, source := leaf.source }
    | .uncertain reason =>
      { path := leaf.path, value := leaf.value, certainty := .uncertain, reason := some reason, source := leaf.source }
    | .unread =>
      { path := leaf.path, value := leaf.value, certainty := .unread, reason := none, source := leaf.source }

/-- The leaves with their corrections, and the corrections of what the sheet did not have at all. -/
def plannedLeaves (mapping : SheetMapping) (reading : ImportedCharacter) (corrections : Corrections) :
    List Planned :=
  let leaves := reading.leaves
  leaves.map (planned corrections) ++ corrections.toList.filterMap fun correction =>
    if correction.1 ∉ leaves.map Leaf.path ∧ (mapping.fieldFor correction.1).isSome then
      some
        { path := correction.1, value := notNull correction.2, certainty := .corrected, reason := none
          source := none }
    else none

/-- Where the planner sends a leaf. -/
inductive Place where
  | content (index : Option Nat)
  | checked
  | ignored
  | unmapped
  | field (declared : String)
  deriving DecidableEq

def placeOf (mapping : SheetMapping) (path : String) : Place :=
  match stripPrefix "content." path with
  | some index => .content (parseUsize index)
  | none =>
    if (stripPrefix "derived." path).any mapping.isDerived then .checked
    else if mapping.isIgnored path then .ignored
    else if "notes.".toList.isPrefixOf path.toList then .unmapped
    else
      match mapping.fieldFor path with
      | some (declared, _) => .field declared
      | none => .unmapped

def labelOf (reading : ImportedCharacter) (path : String) : String :=
  (((stripPrefix "notes." path).bind parseUsize).bind fun index => reading.notes.val[index]?).elim path Note.label

def unmappedLeaf (mapping : SheetMapping) (reading : ImportedCharacter) (leaf : Planned) : Option Unmapped :=
  leaf.value.map fun value => { path := leaf.path, label := labelOf reading leaf.path, value, goesTo := mapping.notes }

/-- The plan so far, the leaves grouped by the declared path they land on, and the pieces of content. -/
structure Routed where
  plan : ImportPlan
  groups : Std.ExtTreeMap String (List Planned)
  content : List Nat

def Routed.add (mapping : SheetMapping) (reading : ImportedCharacter) (routed : Routed) (leaf : Planned) : Routed :=
  match placeOf mapping leaf.path with
  | .content index => { routed with content := routed.content ++ index.toList }
  | .checked =>
    if leaf.value.isSome then
      { routed with plan := { routed.plan with checked := routed.plan.checked ++ [leaf.path] } }
    else routed
  | .ignored =>
    if leaf.value.isSome then
      { routed with plan := { routed.plan with ignored := routed.plan.ignored ++ [leaf.path] } }
    else routed
  | .unmapped =>
    { routed with
      plan := { routed.plan with unmapped := routed.plan.unmapped ++ (unmappedLeaf mapping reading leaf).toList } }
  | .field declared =>
    { routed with
      groups := routed.groups.insert declared ((routed.groups[declared]?).getD [] ++ [leaf]) }

/-- The segments of a path below a declared one. -/
def relative (declared path : String) : List String :=
  (((path.toList.drop declared.toList.length).dropWhile (· = '.')).splitOn '.').filterMap fun segment =>
    if segment = [] then none else some (String.ofList segment)

def setPath : List String → Json → Json → Json
  | [], _, value => value
  | first :: rest, node, value =>
    match parseUsize first with
    | some index =>
      let items :=
        match node with
        | .array items => items
        | _ => []
      let items := items ++ List.replicate (index + 1 - items.length) .null
      .array (items.set index (setPath rest (items[index]?.getD .null) value))
    | none =>
      let fields :=
        match node with
        | .object fields => fields
        | _ => []
      .object (Json.setField first (setPath rest (((Json.object fields).get? first).getD .null) value) fields)

structure Composed where
  value : Option Json
  certainty : PlanCertainty
  reason : Option String
  source : Option Source

/-- Several leaves landing as one value. -/
def compose (declared : String) (group : List Planned) (old : Option Json) : Composed :=
  let isList :=
    (group.head?.bind fun leaf => (relative declared leaf.path).head?).any fun first => (parseUsize first).isSome
  let start :=
    match isList, old with
    | false, some (.object fields) => .object fields
    | false, _ => .object []
    | true, _ => .array []
  let told := group.filter fun leaf => leaf.certainty ≠ .unread
  let value := told.foldl
    (fun value leaf => setPath (relative declared leaf.path) value (leaf.value.getD .null)) start
  let reasons := told.filterMap fun leaf => leaf.reason.map fun reason =>
    ".".intercalate (relative declared leaf.path) ++ ": " ++ reason
  let source := group.findSome? Planned.source
  if told = [] then { value := none, certainty := .unread, reason := none, source }
  else
    { value := some value
      certainty :=
        if reasons ≠ [] then .uncertain
        else if told.any fun leaf => leaf.certainty = .corrected then .corrected
        else .read
      reason := if reasons ≠ [] then some ("; ".intercalate reasons) else none
      source }

/-- The person's value for the whole of a declared path, or what its leaves make. -/
def wholeValue (corrections : Corrections) (declared : String) (old : Option Json) (group : List Planned) : Composed :=
  match corrections[declared]? with
  | some whole =>
    { value := notNull whole, certainty := .corrected, reason := none, source := group.findSome? Planned.source }
  | none => compose declared group old

/-- What a group of leaves says of its declared path. -/
def groupValue (corrections : Corrections) (declared : String) (old : Option Json) (group : List Planned) : Composed :=
  match group with
  | [only] =>
    if only.path = declared then
      { value := only.value, certainty := only.certainty, reason := only.reason, source := only.source }
    else wholeValue corrections declared old group
  | _ => wholeValue corrections declared old group

def fieldChange (mapping : SheetMapping) (current : ActorSnapshot) (corrections : Corrections) (plan : ImportPlan)
    (entry : String × List Planned) : ImportPlan :=
  let (declared, group) := entry
  let target := (mapping.fields[declared]?).getD ""
  let old := current.values[target]?
  let new := groupValue corrections declared old group
  if (new.certainty = .read ∨ new.certainty = .corrected) ∧ new.value = old then
    { plan with identical := plan.identical ++ [declared] }
  else
    let playState := current.isReimport && mapping.playState.contains target
    { plan with
      keptInPlay := plan.keptInPlay ++
        if playState = true ∧ new.certainty ≠ .unread then [{ target, current := old, sheet := new.value }] else []
      fields := plan.fields ++
        [{ path := declared, target, old
           new := if new.certainty = .unread then none else new.value
           certainty := new.certainty, reason := new.reason, source := new.source, playState }] }

/-- The name content is matched by. -/
def normaliseName (world : World) (name : String) : String :=
  let kept := (name.toList.foldl
    (fun (kept : List Char × Nat) c =>
      if c = '(' ∨ c = '[' then (kept.1, kept.2 + 1)
      else if c = ')' ∨ c = ']' then (kept.1, kept.2 - 1)
      else if kept.2 > 0 then kept
      else if c = '\'' ∨ c = '\u2019' ∨ c = '\u2018' then kept
      else if world.isAlphanumeric c then (kept.1 ++ world.toLowercase c, kept.2)
      else (kept.1 ++ [' '], kept.2))
    ([], 0)).1
  " ".intercalate (((kept.splitOnP isWhitespace).filter (· ≠ [])).map String.ofList)

/-- Where a piece of content stands in the world. -/
def resolve (world : World) (kind normalised hash : String) : Resolution :=
  match world.lookup kind normalised with
  | some (.world id) => .world id
  | some (.staged id contentHash) => if contentHash = hash then .stagedExisting id else .differs id
  | none => .stagedNew

/-- What grants a piece of content, in order and once each. -/
def mergeLink (into from_ : ContentLink) : ContentLink where
  grantedBy := sortDedup (into.grantedBy ++ from_.grantedBy)
  prepared := into.prepared.or from_.prepared
  uses := into.uses.or from_.uses
  recharge := into.recharge.or from_.recharge
  equipped := into.equipped.or from_.equipped
  attuned := into.attuned.or from_.attuned
  quantity := into.quantity.or from_.quantity

/-- The changes by kind and normalised name, and what is unmapped. -/
structure ContentPlan where
  byKey : List ContentChange
  unmapped : List Unmapped

def ContentChange.keyed (kind normalised : String) (change : ContentChange) : Bool :=
  change.kind = kind ∧ change.normalised = normalised

def asStr : Json → Option String
  | .string text => some text
  | .null | .bool _ | .integer _ | .float _ | .array _ | .object _ => none

/-- The name content is planned under, with the person's correction. -/
def renamed (corrections : Corrections) (index : Nat) : Option String :=
  (corrections[contentPath index ++ ".name"]?).bind asStr

def contentCertainty (corrections : Corrections) (index : Nat) (item : NamedContent) :
    PlanCertainty × Option String :=
  if (renamed corrections index).isSome then (.corrected, none)
  else
    match item.name.certainty with
    | .uncertain reason => (.uncertain, some reason)
    | .unread => (.unread, none)
    | .read => (.read, none)

def ContentPlan.add (mapping : SheetMapping) (reading : ImportedCharacter) (corrections : Corrections) (world : World)
    (plan : ContentPlan) (index : Nat) : ContentPlan :=
  match reading.content.val[index]? with
  | none => plan
  | some item =>
    let path := contentPath index
    match (renamed corrections index).or item.name.value, mapping.content[item.kind]? with
    | some name, some target =>
      let certainty := contentCertainty corrections index item
      let normalised := normaliseName world name
      if plan.byKey.any (ContentChange.keyed item.kind normalised) then
        { plan with
          byKey := plan.byKey.map fun change =>
            if change.keyed item.kind normalised then
              { change with link := mergeLink change.link item.link, from_ := change.from_ ++ [path] }
            else change }
      else
        let fields := Json.object item.fields.toList
        let hash := world.contentHash item.kind fields
        { plan with
          byKey := plan.byKey ++
            [{ kind := item.kind, name, normalised, target
               resolution := resolve world item.kind normalised hash
               fields, contentHash := hash
               link := { item.link with grantedBy := sortDedup item.link.grantedBy }
               certainty := certainty.1, reason := certainty.2, source := item.name.source
               removed := false, linked := false
               from_ := [path] }] }
    | _, _ =>
      { plan with
        unmapped := plan.unmapped ++
          [{ path, label := item.name.value.getD path, value := item.toValue, goesTo := mapping.notes }] }

/-- A link of the actor: on the sheet too, or removed from it. -/
def ContentPlan.addLink (mapping : SheetMapping) (world : World) (plan : ContentPlan × List ContentChange)
    (link : CurrentLink) : ContentPlan × List ContentChange :=
  let normalised := normaliseName world link.name
  if plan.1.byKey.any (ContentChange.keyed link.kind normalised) then
    ({ plan.1 with
        byKey := plan.1.byKey.map fun change =>
          if change.keyed link.kind normalised then { change with linked := true } else change },
      plan.2)
  else
    match mapping.content[link.kind]? with
    | none => plan
    | some target =>
      (plan.1, plan.2 ++
        [{ kind := link.kind, name := link.name, normalised, target
           resolution := if link.staged then .stagedExisting link.id else .world link.id
           fields := .null, contentHash := "", link := .default, certainty := .read, reason := none
           source := none, removed := true, linked := true, from_ := [] }])

def planContent (mapping : SheetMapping) (reading : ImportedCharacter) (corrections : Corrections)
    (current : ActorSnapshot) (world : World) (indices : List Nat) (plan : ImportPlan) : ImportPlan :=
  let content := indices.foldl (ContentPlan.add mapping reading corrections world) { byKey := [], unmapped := [] }
  let (content, removed) :=
    if current.isReimport then current.links.foldl (ContentPlan.addLink mapping world) (content, []) else (content, [])
  { plan with
    unmapped := plan.unmapped ++ content.unmapped
    content := plan.content ++ removed ++
      SortBy.sortBy (fun change => toLex (change.kind, change.normalised)) content.byKey }

/-- A pack's last word on a plan. -/
abbrev RefineHook := ImportedCharacter → ActorSnapshot → ImportPlan → ImportPlan

/-- After a hook, content it reshaped is hashed and looked up again. -/
def rehash (world : World) (change : ContentChange) : ContentChange :=
  if change.removed then change
  else
    let hash := world.contentHash change.kind change.fields
    if hash ≠ change.contentHash then
      { change with resolution := resolve world change.kind change.normalised hash, contentHash := hash }
    else change

/-- A kind the declaration hands to the pack, left undecided. -/
def ContentChange.undecided (change : ContentChange) : Bool := change.target = .refine && !change.removed

/-- What the pack left undecided is kept in the notes. -/
def keepUndecided (mapping : SheetMapping) (plan : ImportPlan) : ImportPlan :=
  { plan with
    content := plan.content.filter fun change => !change.undecided
    unmapped := plan.unmapped ++ (plan.content.filter ContentChange.undecided).flatMap fun change =>
      change.from_.map fun path =>
        { path, label := change.name
          value := .object [("fields", change.fields), ("kind", .string change.kind), ("name", .string change.name)]
          goesTo := mapping.notes } }

def emptyPlan (reading : ImportedCharacter) (current : ActorSnapshot) : ImportPlan where
  readerId := reading.reader.id
  readerVersion := reading.reader.version
  isReimport := current.isReimport
  fields := []
  content := []
  unmapped := []
  crossChecks := []
  keptInPlay := []
  identical := []
  checked := []
  ignored := []

def route (mapping : SheetMapping) (reading : ImportedCharacter) (corrections : Corrections)
    (current : ActorSnapshot) : Routed :=
  (plannedLeaves mapping reading corrections).foldl (Routed.add mapping reading)
    { plan := emptyPlan reading current, groups := ∅, content := [] }

/-- Plan `reading` onto `current`. -/
def planWith (mapping : SheetMapping) (refine : Option RefineHook) (reading : ImportedCharacter)
    (corrections : Corrections) (current : ActorSnapshot) (world : World) : ImportPlan :=
  let routed := route mapping reading corrections current
  let plan := routed.groups.toList.foldl (fieldChange mapping current corrections) routed.plan
  let plan := planContent mapping reading corrections current world routed.content plan
  let plan :=
    match refine with
    | some hook =>
      let plan := hook reading current plan
      { plan with content := plan.content.map (rehash world) }
    | none => plan
  (keepUndecided mapping plan).sort

end ThunderForge.SheetImport
