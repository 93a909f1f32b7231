import ThunderForge.Basic
import ThunderForge.Lib.Run
import ThunderForge.Lib.SortBy
import Mathlib.Data.Prod.Lex

/-! Where the lore mirror puts each entry (`lore_sync/paths.rs`): the parents that count, the depth of each
entry, and the allocator that gives every entry a name in the directory of its parent. Names and paths are
lists of characters; `slug::slugify` is a parameter. -/

namespace ThunderForge.Mirror

abbrev Name := List Char

/-- Directory levels permitted below the world's synchronisation directory. -/
def maxDepth : Nat := 8

/-- Bytes permitted in a single path component. -/
def maxComponentBytes : Nat := 64

/-- Bytes permitted in the whole path. -/
def maxPathBytes : Nat := 200

/-- The shortest file name the allocator will squeeze an entry into: `entry-0189a06d.md`. -/
def minFileBytes : Nat := 20

/-- Characters of the entry's identifier used as a disambiguating suffix. -/
def suffixHexChars : Nat := 8

/-- Names Windows refuses to create at any extension. -/
def reservedStems : List Name :=
  ["con", "prn", "aux", "nul", "com1", "com2", "com3", "com4", "com5", "com6", "com7", "com8", "com9",
   "lpt1", "lpt2", "lpt3", "lpt4", "lpt5", "lpt6", "lpt7", "lpt8", "lpt9"].map String.toList

/-- One lore entry, reduced to what a path is made of. -/
structure EntryNode where
  id : Uuid
  parentId : Option Uuid
  title : String
  deriving DecidableEq

/-- Why an entry did not get the path its title implies. -/
inductive DisambiguationReason where
  | titleNormalisedToNothing
  | siblingCollision
  | nameTooLong
  | depthExceeded
  | reservedName
  deriving DecidableEq

/-- Where one entry's file goes, and whether that answer needed forcing. -/
structure AssignedPath where
  path : Name
  directory : Name
  reasons : List DisambiguationReason
  deriving DecidableEq

/-- `str::len`. -/
def byteLen (text : Name) : Nat := text.foldr (fun c len => c.utf8Size + len) 0

/-- As many whole characters as fit in so many bytes. -/
def takeBytes : Nat → Name → Name
  | _, [] => []
  | room, c :: rest => if c.utf8Size ≤ room then c :: takeBytes (room - c.utf8Size) rest else []

/-- `trim_end_matches('-')`. -/
def trimDashes (text : Name) : Name := (text.reverse.dropWhile (· == '-')).reverse

def truncateSlug (slug : Name) (maxBytes : Nat) : Name :=
  if byteLen slug ≤ maxBytes then slug else trimDashes (takeBytes maxBytes slug)

def joinStem (base suffix : Name) : Name := if base = [] then suffix else base ++ '-' :: suffix

/-- One lowercase hex digit of an identifier, counted from the front. -/
def idDigit (id : Uuid) (i : Nat) : Char := Nat.digitChar ((id.toNat >>> (124 - 4 * i)) % 16)

def shortId (id : Uuid) : Name := (List.range suffixHexChars).map (idDigit id)

/-- `trim_end_matches(".md")`, on the reversed path. -/
def dropMd : Name → Name
  | 'd' :: 'm' :: '.' :: rest => dropMd rest
  | rest => rest

/-- The directory the children of the entry at this path go in. -/
def childDirectory (path : Name) : Name := (dropMd path.reverse).reverse

/-! Parents and depths. -/

/-- The entries with each id kept once, at its first occurrence. -/
def keepFirst : List EntryNode → List Uuid → List EntryNode
  | [], _ => []
  | entry :: entries, seen =>
    if seen.contains entry.id then keepFirst entries seen else entry :: keepFirst entries (entry.id :: seen)

def byId (nodes : List EntryNode) (id : Uuid) : Option EntryNode := nodes.find? (·.id = id)

/-- The loop of `resolve_parents`: whether walking up from `cursor` leaves the set, does not come back to
`id`, and takes at most `left` more steps. -/
def walkEnds (nodes : List EntryNode) (id : Uuid) : Nat → Uuid → Bool
  | left, cursor =>
    match (byId nodes cursor).bind EntryNode.parentId with
    | none => true
    | some next =>
      if next = id then false
      else if (byId nodes next).isSome then
        match left with
        | 0 => false
        | left + 1 => walkEnds nodes id left next
      else true

/-- Each entry's parent, or `none` where following it would leave the set or go round in a circle. -/
def resolveParents (nodes : List EntryNode) (id : Uuid) : Option Uuid :=
  (byId nodes id).bind fun node => node.parentId.filter fun parentId =>
    decide (parentId ≠ node.id) && (byId nodes parentId).isSome &&
      walkEnds nodes node.id nodes.length parentId

/-- The entries from `current` up to the first one whose depth is known, and that depth. -/
def chainTo (parents : Uuid → Option Uuid) (memo : Uuid → Option Nat) : Nat → Uuid → List Uuid × Nat
  | 0, _ => ([], 0)
  | left + 1, current =>
    match memo current with
    | some depth => ([], depth)
    | none =>
      match parents current with
      | none => ([current], 0)
      | some parent =>
        let (chain, base) := chainTo parents memo left parent
        (current :: chain, base)

/-- `depth_of`, which answers through its memo. The entries of a chain are numbered from the known depth
on, the first of them with that depth itself. -/
def depthOf (fuel : Nat) (parents : Uuid → Option Uuid) (memo : Uuid → Option Nat) (id : Uuid) :
    Uuid → Option Nat :=
  if (memo id).isSome then memo
  else
    let (chain, base) := chainTo parents memo fuel id
    chain.reverse.zipIdx.foldl (fun memo entry => Function.update memo entry.1 (some (base + entry.2))) memo

def depths (nodes : List EntryNode) : Uuid → Option Nat :=
  (nodes.map EntryNode.id).foldl (depthOf nodes.length (resolveParents nodes)) fun _ => none

/-- Shallowest first, then by id. -/
def orderKey (nodes : List EntryNode) (node : EntryNode) : Nat ×ₗ Nat :=
  toLex ((depths nodes node.id).getD 0, node.id.toNat)

def ordered (nodes : List EntryNode) : List EntryNode := SortBy.sortBy (orderKey nodes) nodes

/-! One entry's name. -/

def joinSegments (segments : List Name) : Name := List.intercalate ['/'] segments

def segments (directory : Name) : List Name := (directory.splitOn '/').filter (· ≠ [])

/-- Whether something nameable still fits in a directory of so many levels. -/
def fits (levels : Nat) (directory : Name) : Bool :=
  decide (levels ≤ maxDepth) && decide (byteLen directory + 1 + minFileBytes ≤ maxPathBytes)

/-- The loop of `climb_until_it_fits`, on the segments from the last to the first. -/
def climbSegments : List Name → Name
  | [] => []
  | last :: above =>
    let joined := joinSegments (last :: above).reverse
    if fits (above.length + 1) joined then joined else climbSegments above

def climbUntilItFits (directory : Name) : Name := climbSegments (segments directory).reverse

/-- Whether an entry may go into its parent's directory. -/
def descends (parentDirectory : Name) : Bool :=
  parentDirectory.isEmpty || fits (segments parentDirectory).length parentDirectory

/-- The directory an entry goes into. -/
def landing (parentDirectory : Name) : Name :=
  if descends parentDirectory then parentDirectory else climbUntilItFits parentDirectory

def stemBudget (directory : Name) : Nat :=
  maxPathBytes - ((if directory = [] then 0 else byteLen directory + 1) + 3)

/-- What the title alone makes of the name, within the budget. -/
def baseName (budget : Nat) (slug : Name) : Name :=
  truncateSlug (if slug = [] then "entry".toList else slug) (min maxComponentBytes budget)

/-- Why the title alone makes another name than it implies, in the order the allocator finds out. -/
def baseReasons (budget : Nat) (slug : Name) : List DisambiguationReason :=
  (if slug = [] then [.titleNormalisedToNothing] else []) ++
    (if byteLen (if slug = [] then "entry".toList else slug) > min maxComponentBytes budget then
      [.nameTooLong] else []) ++
    if baseName budget slug ∈ reservedStems then [.reservedName] else []

/-- The base as it is shortened to leave room for the suffix. -/
def trimmedBase (budget : Nat) (base suffix : Name) : Name := truncateSlug base (budget - (byteLen suffix + 1))

/-- The names with the suffix, in the order they are tried: bare, then counted from two. -/
def suffixed (budget : Nat) (base suffix : Name) : Nat → Name
  | 0 => joinStem (trimmedBase budget base suffix) suffix
  | k + 1 =>
    let counter := Nat.toDigits 10 (k + 2)
    let room := budget - (byteLen suffix + byteLen counter + 2)
    joinStem (truncateSlug (trimmedBase budget base suffix) room) suffix ++ '-' :: counter

/-- The loop that passes over taken names. -/
def firstUntaken (taken : List Name) (names : Nat → Name) : Nat → Nat → Name
  | 0, k => names k
  | fuel + 1, k => if names k ∈ taken then firstUntaken taken names fuel (k + 1) else names k

/-- The paths given out so far, and the names taken in each directory. -/
structure Allocator where
  assigned : Uuid → Option AssignedPath
  claims : Name → List Name

def Allocator.empty : Allocator := { assigned := fun _ => none, claims := fun _ => [] }

def filePath (directory stem : Name) : Name :=
  (if directory = [] then stem else directory ++ '/' :: stem) ++ ".md".toList

section

variable (slugify : String → Name)

/-- The stem an entry gets in a directory, and the reasons. -/
def chooseStem (taken : List Name) (budget : Nat) (reasons : List DisambiguationReason) (id : Uuid)
    (base : Name) : Name × List DisambiguationReason :=
  let forced := DisambiguationReason.titleNormalisedToNothing ∈ reasons ∨
    DisambiguationReason.reservedName ∈ reasons
  if ¬forced ∧ base ∉ taken then (base, reasons)
  else
    let suffix := shortId id
    let collided := if forced then reasons else reasons ++ [.siblingCollision]
    let tooLong := byteLen base > budget - (byteLen suffix + 1) ∧
      DisambiguationReason.nameTooLong ∉ collided
    (firstUntaken taken (suffixed budget base suffix) (taken.length + 1) 0,
      if tooLong then collided ++ [.nameTooLong] else collided)

/-- The turn of one entry. -/
def allocate (parents : Uuid → Option Uuid) (state : Allocator) (node : EntryNode) : Allocator :=
  let parentDirectory := (((parents node.id).bind state.assigned).map AssignedPath.directory).getD []
  let directory := landing parentDirectory
  let budget := stemBudget directory
  let slug := slugify node.title
  let reasons := (if descends parentDirectory then [] else [DisambiguationReason.depthExceeded]) ++
    baseReasons budget slug
  let (stem, reasons) := chooseStem (state.claims directory) budget reasons node.id (baseName budget slug)
  let path := filePath directory stem
  { assigned := Function.update state.assigned node.id
      (some { path, directory := childDirectory path, reasons })
    claims := Function.update state.claims directory (stem :: state.claims directory) }

/-- Maps every entry to exactly one path. -/
def mapEntryPaths (entries : List EntryNode) : Uuid → Option AssignedPath :=
  let nodes := keepFirst entries []
  (Run.run (allocate slugify (resolveParents nodes)) Allocator.empty (ordered nodes)).assigned

end

/-- A relative link from one file to another, both relative to the synchronisation directory. -/
def relativeLink (from' to' : Name) : Name :=
  let fromDirs := (from'.splitOn '/').dropLast
  let toParts := to'.splitOn '/'
  let shared := ((fromDirs.zip toParts).takeWhile fun (a, b) => a = b).length
  -- The shared prefix never swallows the target's own file name.
  let shared := min shared (toParts.length - 1)
  let out := (List.replicate (fromDirs.length - shared) "../".toList).flatten ++ joinSegments (toParts.drop shared)
  if out = [] then toParts.getLast?.getD [] else out

end ThunderForge.Mirror
