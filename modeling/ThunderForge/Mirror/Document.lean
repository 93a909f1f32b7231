import ThunderForge.Mirror.Paths

/-! The file of one lore entry, read back (`lore_sync/document.rs`). Texts are lists of characters; how an identifier and
a time are read is a parameter. -/

namespace ThunderForge.Mirror

abbrev Text := List Char

/-- An instant, in nanoseconds since the epoch. -/
abbrev Instant := Int

/-- `Uuid::parse_str` and `DateTime::parse_from_rfc3339`, with the texts of their errors. -/
structure Readers where
  uuid : Text → Except Text Uuid
  rfc3339 : Text → Except Text Instant

inductive UnresolvableKind where
  | actor
  | item
  | ability
  deriving DecidableEq

def UnresolvableKind.parse (token : Text) : Option UnresolvableKind :=
  if token = "actor".toList then some .actor
  else if token = "item".toList then some .item
  else if token = "ability".toList then some .ability
  else none

/-- One declared loss of fidelity. -/
structure UnresolvableLink where
  text : Text
  kind : UnresolvableKind
  deriving DecidableEq

/-- The file's front matter. -/
structure DocumentHeader where
  /-- The only field used for matching. -/
  id : Uuid
  title : Text
  tags : List Text
  updated : Instant
  unresolvableLinks : List UnresolvableLink
  deriving DecidableEq

structure ParsedDocument where
  header : DocumentHeader
  body : Text
  deriving DecidableEq

/-- Why a file could not be read as an exported document. -/
inductive DocumentError where
  | missingFrontMatter
  | unterminatedFrontMatter
  | missingField (field : String)
  | invalidField (field : String) (detail : Text)
  deriving DecidableEq

/-! Strings. -/

/-- `str::strip_prefix` -/
def stripPrefix (start text : Text) : Option Text := if start.isPrefixOf text then some (text.drop start.length) else none

/-- `str::strip_suffix` -/
def stripSuffix (last text : Text) : Option Text := (stripPrefix last.reverse text.reverse).map List.reverse

/-- `str::split_once` -/
def splitOnce (sep : Char) : Text → Option (Text × Text)
  | [] => none
  | c :: text => if c = sep then some ([], text) else (splitOnce sep text).map fun (front, back) => (c :: front, back)

/-- `str::split_inclusive` at line ends. -/
def splitInclusive : Text → List Text
  | [] => []
  | c :: text =>
    if c = '\n' then [c] :: splitInclusive text
    else
      match splitInclusive text with
      | [] => [[c]]
      | line :: lines => (c :: line) :: lines

/-- `str::trim_end_matches` of a character. -/
def trimEndMatches (c : Char) (text : Text) : Text := (text.reverse.dropWhile (· = c)).reverse

/-- A line without what ends it: a line feed, and the carriage returns before it. -/
def trimLine (raw : Text) : Text := trimEndMatches '\r' (trimEndMatches '\n' raw)

/-! Scalars. -/

def quotationMark : Char := Char.ofNat 0x22

def apostrophe : Char := Char.ofNat 0x27

def backslash : Char := Char.ofNat 0x5c

/-- What a character stands for after a backslash. -/
def escaped (c : Char) : Char :=
  if c = 'n' then '\n' else if c = 't' then '\t' else if c = 'r' then '\r' else c

/-- The text of a double-quoted scalar. -/
def unescape : Text → Text
  | [] => []
  | [c] => [c]
  | c :: next :: text => if c = backslash then escaped next :: unescape text else c :: unescape (next :: text)

/-- The text of a single-quoted scalar: an apostrophe is written twice. -/
def undouble : Text → Text
  | [] => []
  | [c] => [c]
  | c :: next :: text =>
    if c = apostrophe ∧ next = apostrophe then apostrophe :: undouble text else c :: undouble (next :: text)

/-- What stands between a pair of quotes. -/
def unquoted (quote : Char) (text : Text) : Option Text := (stripPrefix [quote] text).bind (stripSuffix [quote])

/-- Reads one scalar, honouring double and single quoting. -/
def readScalar (value : Text) : Text :=
  let trimmed := trimChars value
  match unquoted quotationMark trimmed with
  | some inner => unescape inner
  | none =>
    match unquoted apostrophe trimmed with
    | some inner => undouble inner
    | none => trimmed

/-- The members of a flow sequence up to the first that is unquoted, and what is left of the one that is open. -/
structure FlowState where
  items : List Text
  current : Text
  quote : Option Char
  escaped : Bool

def FlowState.step (state : FlowState) (c : Char) : FlowState :=
  match state.quote with
  | some quote =>
    let current := state.current ++ [c]
    if state.escaped then { state with current, escaped := false }
    else if c = backslash ∧ quote = quotationMark then { state with current, escaped := true }
    else if c = quote then { state with current, quote := none }
    else { state with current }
  | none =>
    if c = ',' then { state with items := state.items ++ [state.current], current := [] }
    else
      let quote := if c = quotationMark ∨ c = apostrophe then some c else none
      { state with quote, current := state.current ++ [c] }

/-- Reads one `[a, b, "c, d"]` flow sequence. -/
def parseFlowSequence (value : Text) : Except DocumentError (List Text) :=
  let trimmed := trimChars value
  match (stripPrefix ['['] trimmed).bind (stripSuffix [']']) with
  | none => .error (.invalidField "tags" ("expected a flow sequence, found `".toList ++ trimmed ++ "`".toList))
  | some inner =>
    let read := inner.foldl FlowState.step { items := [], current := [], quote := none, escaped := false }
    let items := if trimChars read.current ≠ [] ∨ read.items ≠ [] then read.items ++ [read.current] else read.items
    .ok ((items.filter fun item => trimChars item ≠ []).map readScalar)

/-! The header. -/

/-- What the lines of a header have given so far. -/
structure HeaderState where
  id : Option Text
  title : Option Text
  tags : Option (List Text)
  updated : Option Text
  linkItems : List (Text × Option UnresolvableKind)
  inLinks : Bool

def HeaderState.empty : HeaderState :=
  { id := none, title := none, tags := none, updated := none, linkItems := [], inLinks := false }

def unreadableLinks (detail : Text) : DocumentError := .invalidField "unresolvable_links" detail

/-- A line of the block sequence of unresolvable links. -/
def HeaderState.readLink (state : HeaderState) (item : Text) : Except DocumentError HeaderState :=
  match stripPrefix "- text:".toList item with
  | some value => .ok { state with linkItems := state.linkItems ++ [(readScalar value, none)] }
  | none =>
    match stripPrefix "kind:".toList item with
    | none => .error (unreadableLinks ("unreadable entry `".toList ++ item ++ "`".toList))
    | some value =>
      let token := readScalar value
      match UnresolvableKind.parse token with
      | none => .error (unreadableLinks ("unknown kind `".toList ++ token ++ "`".toList))
      | some kind =>
        match state.linkItems.getLast? with
        | none => .error (unreadableLinks "a `kind` with no `text` before it".toList)
        | some (text, _) => .ok { state with linkItems := state.linkItems.dropLast ++ [(text, some kind)] }

/-- A line that holds a field. -/
def HeaderState.readField (state : HeaderState) (key value : Text) : Except DocumentError HeaderState :=
  if key = "id".toList then .ok { state with id := some (readScalar value) }
  else if key = "title".toList then .ok { state with title := some (readScalar value) }
  else if key = "tags".toList then (parseFlowSequence value).map fun tags => { state with tags := some tags }
  else if key = "updated".toList then .ok { state with updated := some (readScalar value) }
  else if key = "unresolvable_links".toList then
    let inline' := readScalar value
    if inline' ≠ [] ∧ inline' ≠ "[]".toList then
      .error (unreadableLinks ("expected a block sequence or `[]`, found `".toList ++ inline' ++ "`".toList))
    else .ok { state with inLinks := inline' = [] }
  else .ok state

def HeaderState.readLine (state : HeaderState) (raw : Text) : Except DocumentError HeaderState :=
  let line := trimLine raw
  if trimChars line = [] then .ok state
  else if state.inLinks ∧ line.head? = some ' ' then state.readLink (line.dropWhile isWhitespace)
  else
    let state := { state with inLinks := false }
    match splitOnce ':' line with
    | none => .ok state
    | some (key, value) => state.readField (trimChars key) value

/-- An unresolvable link, once its kind has been read. -/
def completeLink : Text × Option UnresolvableKind → Except DocumentError UnresolvableLink
  | (text, some kind) => .ok { text, kind }
  | (text, none) => .error (unreadableLinks ("`".toList ++ text ++ "` has no `kind`".toList))

/-- A field that has to be there. -/
def required {α : Type} (field : String) : Option α → Except DocumentError α
  | some value => .ok value
  | none => .error (.missingField field)

/-- A field that another reader reads. -/
def readable {α : Type} (field : String) : Except Text α → Except DocumentError α
  | .ok value => .ok value
  | .error detail => .error (.invalidField field detail)

section parse

variable (readers : Readers)

def parseHeader (text : Text) : Except DocumentError DocumentHeader := do
  let state ← (splitInclusive text).foldlM HeaderState.readLine .empty
  let unresolvableLinks ← state.linkItems.mapM completeLink
  let id ← required "id" state.id
  let id ← readable "id" (readers.uuid id)
  let updated ← required "updated" state.updated
  let updated ← readable "updated" (readers.rfc3339 updated)
  let title ← required "title" state.title
  .ok { id, title, tags := state.tags.getD [], updated, unresolvableLinks }

/-- Splits a file into its header and its body. -/
def parse (file : Text) : Except DocumentError ParsedDocument := do
  let rest ←
    match (stripPrefix "---\n".toList file).or (stripPrefix "---\r\n".toList file) with
    | some rest => .ok rest
    | none => .error .missingFrontMatter
  let opens (line : Text) : Bool := trimLine line ≠ "---".toList
  match (splitInclusive rest).dropWhile opens with
  | [] => .error .unterminatedFrontMatter
  | _ :: later =>
    let header ← parseHeader readers ((splitInclusive rest).takeWhile opens).flatten
    let after := later.flatten
    let body := ((stripPrefix "\n".toList after).or (stripPrefix "\r\n".toList after)).getD after
    .ok { header, body }

end parse

/-! Links. -/

/-- A match of `INLINE_LINK` at the start of a text: what is displayed, the destination, and the text after it. -/
def inlineLink : Text → Option (Text × Text × Text)
  | '[' :: text =>
    let display := text.takeWhile fun c => c ≠ '[' ∧ c ≠ ']'
    match text.drop display.length with
    | ']' :: '(' :: text =>
      let destination := text.takeWhile fun c => c ≠ '(' ∧ c ≠ ')' ∧ ¬ isWhitespace c
      match text.drop destination.length with
      | ')' :: after => if destination = [] then none else some (display, destination, after)
      | _ => none
    | _ => none
  | _ => none

theorem inlineLink_length {text display destination after : Text}
    (h : inlineLink text = some (display, destination, after)) : after.length < text.length := by
  rw [inlineLink.eq_def] at h
  split at h
  · next text =>
    simp only at h
    split at h
    · next rest hrest =>
      split at h
      · next tail htail =>
        split at h
        · cases h
        · cases h
          have hfirst := congrArg List.length hrest
          have hsecond := congrArg List.length htail
          simp only [List.length_drop, List.length_cons] at hfirst hsecond ⊢
          omega
      · cases h
    · cases h
  · cases h

/-- A link's text with the entry's title in place of its destination. -/
def authoredLink (title display : Text) : Text :=
  if display = title then "[[".toList ++ title ++ "]]".toList
  else "[[".toList ++ title ++ "|".toList ++ display ++ "]]".toList

/-- Repository form back to authored form, after the character that precedes the text. -/
def restoreLinksAfter (resolveDestination : Text → Option Text) (previous : Option Char) (body : Text) : Text :=
  match body with
  | [] => []
  | c :: text =>
    match _h : inlineLink (c :: text) with
    | none => c :: restoreLinksAfter resolveDestination (some c) text
    | some (display, destination, after) =>
      let whole := "[".toList ++ display ++ "](".toList ++ destination ++ ")".toList
      let restored :=
        -- `![alt](dest)` is an image, not a link.
        if previous = some '!' then whole
        else
          match resolveDestination destination with
          | some title => authoredLink title display
          | none => whole
      restored ++ restoreLinksAfter resolveDestination (some ')') after
termination_by body.length
decreasing_by
  · simp
  · exact inlineLink_length _h

theorem restoreLinksAfter_of_notMem {resolveDestination : Text → Option Text} {body : Text} (h : '[' ∉ body)
    (previous : Option Char) : restoreLinksAfter resolveDestination previous body = body := by
  induction body generalizing previous with
  | nil => rw [restoreLinksAfter]
  | cons c body ih =>
    rw [List.mem_cons, not_or] at h
    have hnone : inlineLink (c :: body) = none := by
      rw [inlineLink.eq_def]
      split
      · next heq =>
        cases heq
        exact absurd rfl h.1
      · rfl
    rw [restoreLinksAfter, hnone]
    simp only
    rw [ih h.2]

def restoreLinks (body : Text) (resolveDestination : Text → Option Text) : Text :=
  restoreLinksAfter resolveDestination none body

end ThunderForge.Mirror
