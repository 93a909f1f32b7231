import Mathlib
import ThunderForge.Mirror.Document

/-! The file of one lore entry, written (`lore_sync/document.rs`), and that it reads back. How an identifier and a time
are written is a parameter, as how they are read. -/

namespace ThunderForge.Mirror

/-- The `Display` of a `Uuid`, and `to_rfc3339_opts` to the second. -/
structure Writers where
  uuid : Uuid → Text
  rfc3339 : Instant → Text

/-- An instant without its fraction of a second. -/
def wholeSeconds (time : Instant) : Instant := time / 1000000000 * 1000000000

def UnresolvableKind.asStr : UnresolvableKind → Text
  | .actor => "actor".toList
  | .item => "item".toList
  | .ability => "ability".toList

/-! Scalars. -/

/-- A number's sign, when it has one. -/
def withoutSign : Text → Text
  | [] => []
  | c :: text => if c = '+' ∨ c = '-' then text else c :: text

/-- What may follow the digits of a number. -/
def isExponent : Text → Bool
  | [] => true
  | c :: text => (c = 'e' || c = 'E') && withoutSign text ≠ [] && (withoutSign text).all Char.isDigit

def isDecimal (text : Text) : Bool :=
  let whole := text.takeWhile Char.isDigit
  match text.dropWhile Char.isDigit with
  | [] => whole ≠ []
  | c :: rest =>
    if c = '.' then
      (whole ≠ [] || rest.takeWhile Char.isDigit ≠ []) && isExponent (rest.dropWhile Char.isDigit)
    else whole ≠ [] && isExponent (c :: rest)

/-- That `str::parse` reads an `f64`. -/
def isFloat (text : Text) : Bool :=
  let unsigned := withoutSign text
  isDecimal unsigned ||
    ["inf".toList, "infinity".toList, "nan".toList].contains (unsigned.map Char.toLower)

/-- The characters that a scalar without quotes does not have. -/
def quotedCharacters : List Char :=
  [':', '#', ',', '[', ']', Char.ofNat 0x7b, Char.ofNat 0x7d, quotationMark, apostrophe, '\n', '\r', '\t']

/-- The characters that a scalar without quotes does not begin with. -/
def quotedInitials : List Char := ['-', '?', '&', '*', '!', '|', '>', '%', '@', Char.ofNat 0x60]

/-- Tokens that YAML reads as something other than a string. -/
def quotedWords : List Text :=
  ["true", "false", "null", "yes", "no", "on", "off", "~"].map String.toList

def needsQuoting (value : Text) : Bool :=
  value = [] || trimChars value ≠ value || value.any quotedCharacters.contains ||
    value.head?.any quotedInitials.contains || quotedWords.contains (value.map Char.toLower) || isFloat value

/-- A character between double quotes. -/
def quoteCharacter (c : Char) : Text :=
  if c = quotationMark then [backslash, quotationMark]
  else if c = backslash then [backslash, backslash]
  else if c = '\n' then [backslash, 'n']
  else if c = '\r' then [backslash, 'r']
  else if c = '\t' then [backslash, 't']
  else [c]

def quote (value : Text) : Text := quotationMark :: (value.flatMap quoteCharacter ++ [quotationMark])

/-- Emits a scalar, in quotes only where a reader would otherwise misread it. -/
def emitScalar (value : Text) : Text := if needsQuoting value then quote value else value

/-! The file. -/

/-- The two lines of an unresolvable link. -/
def renderLink (link : UnresolvableLink) : Text :=
  "  - text: ".toList ++ quote link.text ++ "\n".toList ++ "    kind: ".toList ++ link.kind.asStr ++ "\n".toList

def renderLinks (links : List UnresolvableLink) : Text :=
  if links = [] then "unresolvable_links: []\n".toList
  else "unresolvable_links:\n".toList ++ links.flatMap renderLink

section render

variable (writers : Writers)

/-- A header and a body that is already rewritten, as the text of the file. -/
def render (header : DocumentHeader) (body : Text) : Text :=
  "---\n".toList ++
    ("id: ".toList ++ writers.uuid header.id ++ "\n".toList) ++
    ("title: ".toList ++ emitScalar header.title ++ "\n".toList) ++
    ("tags: [".toList ++ List.intercalate ", ".toList (header.tags.map emitScalar) ++ "]\n".toList) ++
    ("updated: ".toList ++ writers.rfc3339 header.updated ++ "\n".toList) ++
    renderLinks header.unresolvableLinks ++
    "---\n\n".toList ++ body

end render

/-! Scalars read back. -/

@[simp] theorem stripPrefix_append (start text : Text) : stripPrefix start (start ++ text) = some text := by
  rw [stripPrefix, if_pos (List.isPrefixOf_iff_prefix.mpr (List.prefix_append start text)), List.drop_left]

@[simp] theorem stripSuffix_append (text last : Text) : stripSuffix last (text ++ last) = some text := by
  rw [stripSuffix, List.reverse_append, stripPrefix_append, Option.map_some, List.reverse_reverse]

/-- Text between two marks. -/
theorem stripped_between (start text last : Text) :
    (stripPrefix start (start ++ (text ++ last))).bind (stripSuffix last) = some text := by
  rw [stripPrefix_append, Option.bind_some, stripSuffix_append]

theorem trimChars_cons_of_whitespace {c : Char} (h : isWhitespace c = true) (text : Text) :
    trimChars (c :: text) = trimChars text := by
  rw [trimChars, List.dropWhile_cons_of_pos h, trimChars]

/-- A text whose ends are not blank is left as it is. -/
theorem trimChars_between {first last : Char} (hfirst : isWhitespace first = false) (hlast : isWhitespace last = false)
    (text : Text) : trimChars (first :: (text ++ [last])) = first :: (text ++ [last]) := by
  have hforward : (first :: (text ++ [last])).dropWhile isWhitespace = first :: (text ++ [last]) :=
    List.dropWhile_cons_of_neg (Bool.eq_false_iff.mp hfirst)
  have hbackward : (first :: (text ++ [last])).reverse.dropWhile isWhitespace = (first :: (text ++ [last])).reverse := by
    rw [← List.cons_append, List.reverse_append, List.reverse_singleton, List.singleton_append]
    exact List.dropWhile_cons_of_neg (Bool.eq_false_iff.mp hlast)
  rw [trimChars, hforward, hbackward, List.reverse_reverse]

theorem trimChars_of_forall {text : Text} (h : ∀ c ∈ text, isWhitespace c = false) : trimChars text = text := by
  have hkeep {text : Text} (h : ∀ c ∈ text, isWhitespace c = false) : text.dropWhile isWhitespace = text :=
    List.dropWhile_eq_self_iff.mpr fun hpos => Bool.eq_false_iff.mp (h _ (List.getElem_mem hpos))
  rw [trimChars, hkeep h, hkeep fun c hc => h c (List.mem_reverse.mp hc), List.reverse_reverse]

/-- A text of blanks only is what trims to nothing. -/
theorem trimChars_ne_nil {text : Text} {c : Char} (hmem : c ∈ text) (hc : isWhitespace c = false) :
    trimChars text ≠ [] := by
  intro hnil
  rw [trimChars, List.reverse_eq_nil_iff, List.dropWhile_eq_nil_iff] at hnil
  by_cases hall : ∀ d ∈ text, isWhitespace d = true
  · rw [hall c hmem] at hc
    cases hc
  · rw [← List.dropWhile_eq_nil_iff] at hall
    have hhead := List.head_dropWhile_not isWhitespace hall
    rw [hnil _ (List.mem_reverse.mpr (List.head_mem hall))] at hhead
    cases hhead

@[simp] theorem isWhitespace_quotationMark : isWhitespace quotationMark = false := by decide

@[simp] theorem isWhitespace_space : isWhitespace ' ' = true := by decide

theorem unescape_cons {c : Char} (hc : c ≠ backslash) (text : Text) : unescape (c :: text) = c :: unescape text := by
  cases text with
  | nil => rfl
  | cons next text => rw [unescape, if_neg hc]

/-- What stands for a character between double quotes. -/
theorem unescape_quoteCharacter (c : Char) (text : Text) :
    unescape (quoteCharacter c ++ text) = c :: unescape text := by
  unfold quoteCharacter
  split_ifs with hquote hslash hline hreturn htab
  · subst hquote
    exact congrArg (· :: unescape text) (by decide)
  · subst hslash
    exact congrArg (· :: unescape text) (by decide)
  · subst hline
    exact congrArg (· :: unescape text) (by decide)
  · subst hreturn
    exact congrArg (· :: unescape text) (by decide)
  · subst htab
    exact congrArg (· :: unescape text) (by decide)
  · exact unescape_cons hslash text

theorem unescape_flatMap (value : Text) : unescape (value.flatMap quoteCharacter) = value := by
  induction value with
  | nil => rfl
  | cons c value ih => rw [List.flatMap_cons, unescape_quoteCharacter, ih]

theorem trimChars_quote (value : Text) : trimChars (quote value) = quote value :=
  trimChars_between isWhitespace_quotationMark isWhitespace_quotationMark _

theorem readScalar_quote (value : Text) : readScalar (quote value) = value := by
  have hinner : unquoted quotationMark (quote value) = some (value.flatMap quoteCharacter) :=
    stripped_between [quotationMark] _ [quotationMark]
  rw [readScalar, trimChars_quote]
  simp only [hinner, unescape_flatMap]

theorem unquoted_of_notMem {mark : Char} {value : Text} (h : mark ∉ value) : unquoted mark value = none := by
  have hprefix : stripPrefix [mark] value = none := by
    rw [stripPrefix, if_neg]
    intro hstart
    obtain ⟨rest, rfl⟩ := List.isPrefixOf_iff_prefix.mp hstart
    exact h List.mem_cons_self
  rw [unquoted, hprefix, Option.bind_none]

/-- A scalar that has no quotes and no blanks at its ends is read as it stands. -/
theorem readScalar_bare {value : Text} (htrim : trimChars value = value) (hquote : quotationMark ∉ value)
    (hapostrophe : apostrophe ∉ value) : readScalar value = value := by
  rw [readScalar, htrim]
  simp only [unquoted_of_notMem hquote, unquoted_of_notMem hapostrophe]

/-- What a scalar has to be to stand without quotes. -/
theorem bare_of_not_needsQuoting {value : Text} (h : needsQuoting value = false) :
    value ≠ [] ∧ trimChars value = value ∧ ∀ c ∈ value, c ∉ quotedCharacters := by
  simp only [needsQuoting, Bool.or_eq_false_iff, decide_eq_false_iff_not, not_not, List.any_eq_false,
    List.contains_iff_mem] at h
  exact ⟨h.1.1.1.1.1, h.1.1.1.1.2, h.1.1.1.2⟩

theorem trimChars_emitScalar (value : Text) : trimChars (emitScalar value) = emitScalar value := by
  unfold emitScalar
  split_ifs with h
  · exact trimChars_quote value
  · exact (bare_of_not_needsQuoting (Bool.eq_false_iff.mpr h)).2.1

theorem emitScalar_ne_nil (value : Text) : emitScalar value ≠ [] := by
  unfold emitScalar
  split_ifs with h
  · exact List.cons_ne_nil _ _
  · exact (bare_of_not_needsQuoting (Bool.eq_false_iff.mpr h)).1

theorem readScalar_emitScalar (value : Text) : readScalar (emitScalar value) = value := by
  unfold emitScalar
  split_ifs with h
  · exact readScalar_quote value
  · obtain ⟨-, htrim, hbare⟩ := bare_of_not_needsQuoting (Bool.eq_false_iff.mpr h)
    exact readScalar_bare htrim (fun hmem => hbare _ hmem (by decide)) fun hmem => hbare _ hmem (by decide)

/-- The blank before a scalar is not read. -/
theorem readScalar_space (value : Text) : readScalar (' ' :: value) = readScalar value := by
  rw [readScalar, readScalar, trimChars_cons_of_whitespace isWhitespace_space]

/-! Flow sequences read back. -/

/-- Between two members, or in the middle of one that has no quotes. -/
def FlowState.open' (items : List Text) (current : Text) : FlowState :=
  { items, current, quote := none, escaped := false }

/-- Inside a member's double quotes. -/
def FlowState.quoted (items : List Text) (current : Text) : FlowState :=
  { items, current, quote := some quotationMark, escaped := false }

theorem step_bare {c : Char} (hc : c ∉ quotedCharacters) (items : List Text) (current : Text) :
    FlowState.step (.open' items current) c = .open' items (current ++ [c]) := by
  have hcomma : c ≠ ',' := fun heq => hc (heq ▸ by decide)
  have hquote : ¬(c = quotationMark ∨ c = apostrophe) := by
    rintro (rfl | rfl)
    · exact hc (by decide)
    · exact hc (by decide)
  simp only [FlowState.open', FlowState.step, if_neg hcomma, if_neg hquote]

theorem foldl_bare {value : Text} (h : ∀ c ∈ value, c ∉ quotedCharacters) (items : List Text) (current : Text) :
    value.foldl FlowState.step (.open' items current) = .open' items (current ++ value) := by
  induction value generalizing current with
  | nil => rw [List.foldl_nil, List.append_nil]
  | cons c value ih =>
      obtain ⟨hc, hvalue⟩ := List.forall_mem_cons.mp h
      rw [List.foldl_cons, step_bare hc, ih hvalue, List.append_assoc, List.singleton_append]

/-- A character between quotes leaves the reader between them. -/
theorem foldl_quoteCharacter (c : Char) (items : List Text) (current : Text) :
    (quoteCharacter c).foldl FlowState.step (.quoted items current) = .quoted items (current ++ quoteCharacter c) := by
  have hescape (next : Char) :
      [backslash, next].foldl FlowState.step (.quoted items current) = .quoted items (current ++ [backslash, next]) := by
    have hmark : backslash ≠ quotationMark := by decide
    simp [FlowState.quoted, FlowState.step, List.append_assoc]
  unfold quoteCharacter
  split_ifs with hquote hslash hline hreturn htab
  · exact hescape _
  · exact hescape _
  · exact hescape _
  · exact hescape _
  · exact hescape _
  · simp [FlowState.quoted, FlowState.step, hquote, hslash]

theorem foldl_flatMap_quoteCharacter (value : Text) (items : List Text) (current : Text) :
    (value.flatMap quoteCharacter).foldl FlowState.step (.quoted items current) =
      .quoted items (current ++ value.flatMap quoteCharacter) := by
  induction value generalizing current with
  | nil => rw [List.flatMap_nil, List.foldl_nil, List.append_nil]
  | cons c value ih => rw [List.flatMap_cons, List.foldl_append, foldl_quoteCharacter, ih, List.append_assoc]

theorem foldl_quote (value : Text) (items : List Text) (current : Text) :
    (quote value).foldl FlowState.step (.open' items current) = .open' items (current ++ quote value) := by
  have hopen : FlowState.step (.open' items current) quotationMark = .quoted items (current ++ [quotationMark]) := by
    have hcomma : quotationMark ≠ ',' := by decide
    simp [FlowState.open', FlowState.quoted, FlowState.step, hcomma]
  have hclose (current : Text) :
      FlowState.step (.quoted items current) quotationMark = .open' items (current ++ [quotationMark]) := by
    have hslash : quotationMark ≠ backslash := by decide
    simp [FlowState.open', FlowState.quoted, FlowState.step, hslash]
  rw [quote, List.foldl_cons, hopen, List.foldl_append, foldl_flatMap_quoteCharacter, List.foldl_cons, List.foldl_nil,
    hclose]
  simp only [List.append_assoc, List.cons_append, List.nil_append]

theorem foldl_emitScalar (value : Text) (items : List Text) (current : Text) :
    (emitScalar value).foldl FlowState.step (.open' items current) = .open' items (current ++ emitScalar value) := by
  unfold emitScalar
  split_ifs with h
  · exact foldl_quote value items current
  · exact foldl_bare (bare_of_not_needsQuoting (Bool.eq_false_iff.mpr h)).2.2 items current

/-- The separator ends a member, and leaves a blank before the next. -/
theorem foldl_separator (items : List Text) (current : Text) :
    ", ".toList.foldl FlowState.step (.open' items current) = .open' (items ++ [current]) " ".toList := by
  have hblank : ' ' ∉ quotedCharacters := by decide
  have hcomma : FlowState.step (.open' items current) ',' = .open' (items ++ [current]) [] := by
    simp [FlowState.open', FlowState.step]
  exact (congrArg (FlowState.step · ' ') hcomma).trans (step_bare hblank _ _)

/-- The members of a sequence as the reader meets them: a blank stands before every one but the first. -/
theorem foldl_members (tag : Text) (tags items : List Text) (current : Text) :
    let read := (List.intercalate ", ".toList ((tag :: tags).map emitScalar)).foldl FlowState.step (.open' items current)
    read.items ++ [read.current] =
      items ++ (current ++ emitScalar tag) :: tags.map fun tag => " ".toList ++ emitScalar tag := by
  induction tags generalizing tag items current with
  | nil =>
      rw [List.map_singleton, List.intercalate_singleton, foldl_emitScalar]
      rfl
  | cons next tags ih =>
      rw [List.map_cons, List.map_cons, List.intercalate_cons_cons, List.foldl_append, List.foldl_append,
        foldl_emitScalar, foldl_separator]
      exact (ih next (items ++ [current ++ emitScalar tag]) " ".toList).trans
        ((List.append_assoc _ _ _).trans (congrArg _ (List.singleton_append)))

/-- Whether a member that is blank is kept for a while makes no difference. -/
theorem filter_members (items : List Text) (current : Text) :
    (if trimChars current ≠ [] ∨ items ≠ [] then items ++ [current] else items).filter (trimChars · ≠ []) =
      (items ++ [current]).filter (trimChars · ≠ []) := by
  split_ifs with h
  · rfl
  · rw [not_or, not_not, not_not] at h
    obtain ⟨hblank, rfl⟩ := h
    rw [List.nil_append, List.filter_cons_of_neg (by simpa using hblank)]

/-- A sequence in brackets gives the members it was written with. -/
theorem parseFlowSequence_intercalate (tags : List Text) :
    parseFlowSequence (' ' :: '[' :: (List.intercalate ", ".toList (tags.map emitScalar) ++ [']'])) =
      .ok tags := by
  have htrim : trimChars (' ' :: '[' :: (List.intercalate ", ".toList (tags.map emitScalar) ++ [']'])) =
      ['['] ++ (List.intercalate ", ".toList (tags.map emitScalar) ++ [']']) := by
    rw [trimChars_cons_of_whitespace isWhitespace_space]
    exact trimChars_between (by decide) (by decide) _
  have hnonblank (tag : Text) : trimChars (emitScalar tag) ≠ [] := by
    rw [trimChars_emitScalar]
    exact emitScalar_ne_nil tag
  rw [parseFlowSequence, htrim]
  simp only
  rw [stripped_between]
  simp only
  rw [filter_members]
  cases tags with
  | nil => rfl
  | cons tag tags =>
      have hread := foldl_members tag tags [] []
      simp only [FlowState.open', List.nil_append] at hread
      have hkeep : ∀ item ∈ emitScalar tag :: tags.map fun tag => " ".toList ++ emitScalar tag,
          decide (trimChars item ≠ []) = true := by
        intro item hitem
        rw [decide_eq_true_iff]
        rcases List.mem_cons.mp hitem with rfl | hitem
        · exact hnonblank tag
        · obtain ⟨later, -, rfl⟩ := List.mem_map.mp hitem
          exact (trimChars_cons_of_whitespace isWhitespace_space _).trans_ne (hnonblank later)
      have hlater : (fun tag => readScalar (" ".toList ++ emitScalar tag)) = id :=
        funext fun tag => (readScalar_space _).trans (readScalar_emitScalar tag)
      rw [hread, List.filter_eq_self.mpr hkeep, List.map_cons, List.map_map, readScalar_emitScalar]
      exact congrArg (fun later => Except.ok (tag :: later)) ((congrArg (List.map · tags) hlater).trans (List.map_id tags))

/-! Lines. -/

theorem flatten_splitInclusive (text : Text) : (splitInclusive text).flatten = text := by
  fun_induction splitInclusive text with
  | case1 => rfl
  | case2 text ih => rw [List.flatten_cons, ih, List.singleton_append]
  | case3 c text hc hnone ih =>
      rw [hnone] at ih
      rw [← ih]
      rfl
  | case4 c text hc line lines hsome ih =>
      rw [hsome] at ih
      rw [← ih]
      rfl

/-- The first line, when it has no other line end. -/
theorem splitInclusive_line {line : Text} (h : '\n' ∉ line) (rest : Text) :
    splitInclusive (line ++ '\n' :: rest) = (line ++ ['\n']) :: splitInclusive rest := by
  induction line with
  | nil => rw [List.nil_append, splitInclusive, if_pos rfl, List.nil_append]
  | cons c line ih =>
      rw [List.mem_cons, not_or] at h
      rw [List.cons_append, splitInclusive, if_neg (Ne.symm h.1), ih h.2]
      rfl

/-- Lines with their ends. -/
def ended (lines : List Text) : Text := lines.flatMap (· ++ ['\n'])

theorem splitInclusive_ended {lines : List Text} (h : ∀ line ∈ lines, '\n' ∉ line) (rest : Text) :
    splitInclusive (ended lines ++ rest) = lines.map (· ++ ['\n']) ++ splitInclusive rest := by
  induction lines with
  | nil => rfl
  | cons line lines ih =>
      obtain ⟨hline, hlines⟩ := List.forall_mem_cons.mp h
      have hfirst : ended (line :: lines) ++ rest = line ++ '\n' :: (ended lines ++ rest) := by
        simp only [ended, List.flatMap_cons, List.append_assoc, List.cons_append, List.nil_append]
      rw [hfirst, splitInclusive_line hline, ih hlines, List.map_cons, List.cons_append]

theorem trimEndMatches_of_notMem {c : Char} {text : Text} (h : c ∉ text) : trimEndMatches c text = text := by
  have hkeep : text.reverse.dropWhile (· = c) = text.reverse := by
    refine List.dropWhile_eq_self_iff.mpr fun hpos => ?_
    rw [decide_eq_true_iff]
    exact fun heq => h (List.mem_reverse.mp (heq ▸ List.getElem_mem hpos))
  rw [trimEndMatches, hkeep, List.reverse_reverse]

/-- A line without its end. -/
theorem trimLine_ended {line : Text} (hline : '\n' ∉ line) (hreturn : '\r' ∉ line) : trimLine (line ++ ['\n']) = line := by
  have hend : trimEndMatches '\n' (line ++ ['\n']) = trimEndMatches '\n' line := by
    rw [trimEndMatches, trimEndMatches, List.reverse_append, List.reverse_singleton, List.singleton_append,
      List.dropWhile_cons_of_pos (by decide)]
  rw [trimLine, hend, trimEndMatches_of_notMem hline, trimEndMatches_of_notMem hreturn]

/-- A text on one line. -/
def SingleLine (text : Text) : Prop := '\n' ∉ text ∧ '\r' ∉ text

theorem singleLine_append {left right : Text} : SingleLine (left ++ right) ↔ SingleLine left ∧ SingleLine right := by
  simp only [SingleLine, List.mem_append, not_or]
  exact and_and_and_comm

theorem singleLine_cons {c : Char} {text : Text} (hline : c ≠ '\n') (hreturn : c ≠ '\r') (htext : SingleLine text) :
    SingleLine (c :: text) :=
  ⟨List.not_mem_cons_of_ne_of_not_mem hline.symm htext.1, List.not_mem_cons_of_ne_of_not_mem hreturn.symm htext.2⟩

theorem singleLine_quoteCharacter (c : Char) : SingleLine (quoteCharacter c) := by
  unfold quoteCharacter
  split_ifs with hquote hslash hline hreturn htab
  · exact ⟨by decide, by decide⟩
  · exact ⟨by decide, by decide⟩
  · exact ⟨by decide, by decide⟩
  · exact ⟨by decide, by decide⟩
  · exact ⟨by decide, by decide⟩
  · exact singleLine_cons hline hreturn ⟨List.not_mem_nil, List.not_mem_nil⟩

/-- No title, tag or link text can end its line: line ends are written as escapes. -/
theorem singleLine_quote (value : Text) : SingleLine (quote value) := by
  have hinner : SingleLine (value.flatMap quoteCharacter) := by
    constructor
    · intro hmem
      obtain ⟨c, -, hc⟩ := List.mem_flatMap.mp hmem
      exact (singleLine_quoteCharacter c).1 hc
    · intro hmem
      obtain ⟨c, -, hc⟩ := List.mem_flatMap.mp hmem
      exact (singleLine_quoteCharacter c).2 hc
  have hclose : SingleLine [quotationMark] := ⟨by decide, by decide⟩
  exact singleLine_cons (by decide) (by decide) (singleLine_append.mpr ⟨hinner, hclose⟩)

theorem singleLine_emitScalar (value : Text) : SingleLine (emitScalar value) := by
  unfold emitScalar
  split_ifs with h
  · exact singleLine_quote value
  · obtain ⟨-, -, hbare⟩ := bare_of_not_needsQuoting (Bool.eq_false_iff.mpr h)
    exact ⟨fun hmem => hbare _ hmem (by decide), fun hmem => hbare _ hmem (by decide)⟩

theorem singleLine_intercalate (tags : List Text) :
    SingleLine (List.intercalate ", ".toList (tags.map emitScalar)) := by
  have hseparator : SingleLine ", ".toList := ⟨by decide, by decide⟩
  induction tags with
  | nil => exact ⟨List.not_mem_nil, List.not_mem_nil⟩
  | cons tag tags ih =>
      cases tags with
      | nil =>
          rw [List.map_singleton, List.intercalate_singleton]
          exact singleLine_emitScalar tag
      | cons next tags =>
          rw [List.map_cons, List.map_cons, List.intercalate_cons_cons, singleLine_append, singleLine_append]
          exact ⟨⟨singleLine_emitScalar tag, hseparator⟩, ih⟩

/-! A header's lines. -/

/-- The characters of the identifiers and times that are written without quotes. -/
def PlainText (text : Text) : Prop := ∀ c ∈ text, c.isAlphanum = true ∨ c ∈ ['-', ':', '+', '.']

instance (text : Text) : Decidable (PlainText text) := List.decidableBAll _ text

theorem toNat_of_isAlphanum {c : Char} (h : c.isAlphanum = true) :
    (48 ≤ c.toNat ∧ c.toNat ≤ 57) ∨ (65 ≤ c.toNat ∧ c.toNat ≤ 90) ∨ (97 ≤ c.toNat ∧ c.toNat ≤ 122) := by
  simp only [Char.isAlphanum, Char.isAlpha, Char.isUpper, Char.isLower, Char.isDigit, Bool.or_eq_true,
    Bool.and_eq_true, decide_eq_true_iff, UInt32.le_iff_toNat_le, ge_iff_le, Char.toNat] at h ⊢
  change ((65 ≤ _ ∧ _ ≤ 90) ∨ (97 ≤ _ ∧ _ ≤ 122)) ∨ (48 ≤ _ ∧ _ ≤ 57) at h
  omega

theorem plain_char {c : Char} (h : c.isAlphanum = true ∨ c ∈ ['-', ':', '+', '.']) :
    isWhitespace c = false ∧ c ≠ quotationMark ∧ c ≠ apostrophe ∧ c ≠ '\n' ∧ c ≠ '\r' := by
  rcases h with h | h
  · have hblank : isWhitespace c = false := by
      have hrange := toNat_of_isAlphanum h
      simp only [isWhitespace, Bool.or_eq_false_iff, Bool.and_eq_false_iff, decide_eq_false_iff_not]
      omega
    refine ⟨hblank, ?_, ?_, ?_, ?_⟩ <;>
      · rintro rfl
        exact absurd h (by decide)
  · simp only [List.mem_cons, List.not_mem_nil, or_false] at h
    rcases h with rfl | rfl | rfl | rfl <;> decide

theorem readScalar_plain {text : Text} (h : PlainText text) : readScalar (' ' :: text) = text := by
  have htrim : trimChars text = text := trimChars_of_forall fun c hc => (plain_char (h c hc)).1
  rw [readScalar_space]
  exact readScalar_bare htrim (fun hmem => (plain_char (h _ hmem)).2.1 rfl) fun hmem => (plain_char (h _ hmem)).2.2.1 rfl

theorem singleLine_plain {text : Text} (h : PlainText text) : SingleLine text :=
  ⟨fun hmem => (plain_char (h _ hmem)).2.2.2.1 rfl, fun hmem => (plain_char (h _ hmem)).2.2.2.2 rfl⟩

def fieldNames : List Text := ["id", "title", "tags", "updated", "unresolvable_links"].map String.toList

theorem splitOnce_append {sep : Char} {front : Text} (h : sep ∉ front) (back : Text) :
    splitOnce sep (front ++ sep :: back) = some (front, back) := by
  induction front with
  | nil => rw [List.nil_append, splitOnce, if_pos rfl]
  | cons c front ih =>
      rw [List.mem_cons, not_or] at h
      rw [List.cons_append, splitOnce, if_neg (Ne.symm h.1), ih h.2]
      rfl

theorem fieldNames_spec {key : Text} (hkey : key ∈ fieldNames) :
    ':' ∉ key ∧ SingleLine key ∧ trimChars key = key ∧ key ≠ [] ∧ key.head? ≠ some ' ' := by
  have hnames : ∀ key ∈ fieldNames, ':' ∉ key ∧ ('\n' ∉ key ∧ '\r' ∉ key) ∧ trimChars key = key ∧ key ≠ [] ∧
      key.head? ≠ some ' ' := by decide
  exact hnames key hkey

theorem singleLine_field {key value : Text} (hkey : key ∈ fieldNames) (hvalue : SingleLine value) :
    SingleLine (key ++ ':' :: value) :=
  singleLine_append.mpr ⟨(fieldNames_spec hkey).2.1, singleLine_cons (by decide) (by decide) hvalue⟩

/-- A line that holds one of the fields. -/
theorem readLine_field (state : HeaderState) {key value : Text} (hkey : key ∈ fieldNames) (hvalue : SingleLine value) :
    state.readLine (key ++ ':' :: value ++ ['\n']) = ({ state with inLinks := false } : HeaderState).readField key value := by
  obtain ⟨hcolon, -, htrim, hne, hhead⟩ := fieldNames_spec hkey
  have hline := singleLine_field hkey hvalue
  have hnonblank : trimChars (key ++ ':' :: value) ≠ [] :=
    trimChars_ne_nil (List.mem_append_right key List.mem_cons_self) (by decide)
  have hfirst : (key ++ ':' :: value).head? ≠ some ' ' := by
    rw [List.head?_append_of_ne_nil _ hne]
    exact hhead
  rw [HeaderState.readLine, trimLine_ended hline.1 hline.2]
  simp only
  rw [if_neg hnonblank, if_neg (fun h => hfirst h.2), splitOnce_append hcolon]
  simp only
  rw [htrim]

/-- A line of the block of links. -/
theorem readLine_link (state : HeaderState) (hlinks : state.inLinks = true) {indent item : Text} {first : Char}
    (hindent : indent ∈ ["  ".toList, "    ".toList]) (hline : SingleLine (first :: item))
    (hfirst : isWhitespace first = false) :
    state.readLine (indent ++ first :: item ++ ['\n']) = state.readLink (first :: item) := by
  have hindents : ∀ indent ∈ ["  ".toList, "    ".toList],
      ('\n' ∉ indent ∧ '\r' ∉ indent) ∧ indent.head? = some ' ' ∧ indent.all isWhitespace = true := by decide
  obtain ⟨hsingle, hhead, hall⟩ := hindents indent hindent
  have hblank : ∀ c ∈ indent, isWhitespace c = true := List.all_eq_true.mp hall
  have hwhole : SingleLine (indent ++ first :: item) := singleLine_append.mpr ⟨hsingle, hline⟩
  have hnonblank : trimChars (indent ++ first :: item) ≠ [] :=
    trimChars_ne_nil (List.mem_append_right indent List.mem_cons_self) hfirst
  have hspace : (indent ++ first :: item).head? = some ' ' := by
    rw [List.head?_append, hhead, Option.some_or]
  have hitem : (indent ++ first :: item).dropWhile isWhitespace = first :: item := by
    rw [List.dropWhile_append_of_pos hblank, List.dropWhile_cons_of_neg (Bool.eq_false_iff.mp hfirst)]
  rw [HeaderState.readLine, trimLine_ended hwhole.1 hwhole.2]
  simp only
  rw [if_neg hnonblank, if_pos ⟨hlinks, hspace⟩, hitem]

theorem kind_asStr (kind : UnresolvableKind) :
    readScalar (' ' :: kind.asStr) = kind.asStr ∧ SingleLine kind.asStr ∧
      UnresolvableKind.parse kind.asStr = some kind := by
  cases kind with
  | actor => exact ⟨by decide, ⟨by decide, by decide⟩, by decide⟩
  | item => exact ⟨by decide, ⟨by decide, by decide⟩, by decide⟩
  | ability => exact ⟨by decide, ⟨by decide, by decide⟩, by decide⟩

/-- The two lines of a link, without their ends. -/
def linkLines (link : UnresolvableLink) : List Text :=
  ["  ".toList ++ ("- text:".toList ++ ' ' :: quote link.text), "    ".toList ++ ("kind:".toList ++ ' ' :: link.kind.asStr)]

theorem singleLine_text (text : Text) : SingleLine ("- text:".toList ++ ' ' :: quote text) :=
  singleLine_append.mpr ⟨⟨by decide, by decide⟩, singleLine_cons (by decide) (by decide) (singleLine_quote text)⟩

theorem singleLine_kind (kind : UnresolvableKind) : SingleLine ("kind:".toList ++ ' ' :: kind.asStr) :=
  singleLine_append.mpr ⟨⟨by decide, by decide⟩, singleLine_cons (by decide) (by decide) (kind_asStr kind).2.1⟩

/-- A line that neither breaks off nor is taken for the one that closes the header. -/
def HeaderLine (line : Text) : Prop := SingleLine line ∧ ':' ∈ line

theorem headerLine_linkLines {link : UnresolvableLink} : ∀ line ∈ linkLines link, HeaderLine line := by
  intro line hline
  rcases List.mem_cons.mp hline with rfl | hline
  · exact ⟨singleLine_append.mpr ⟨⟨by decide, by decide⟩, singleLine_text link.text⟩,
      List.mem_append_right _ (List.mem_append_left _ (by decide))⟩
  · obtain rfl := List.mem_singleton.mp hline
    exact ⟨singleLine_append.mpr ⟨⟨by decide, by decide⟩, singleLine_kind link.kind⟩,
      List.mem_append_right _ (List.mem_append_left _ (by decide))⟩

/-- What the reader has read once it has met the given links. -/
def HeaderState.withLinks (state : HeaderState) (links : List UnresolvableLink) : HeaderState :=
  { state with linkItems := state.linkItems ++ links.map fun link => (link.text, some link.kind) }

theorem ok_bind {ε α β : Type} (a : α) (f : α → Except ε β) : (Except.ok a >>= f) = f a := rfl

theorem readLink_text (state : HeaderState) (text : Text) :
    state.readLink ("- text:".toList ++ ' ' :: quote text) =
      .ok { state with linkItems := state.linkItems ++ [(text, none)] } := by
  have hprefix : stripPrefix "- text:".toList ("- text:".toList ++ ' ' :: quote text) = some (' ' :: quote text) :=
    stripPrefix_append _ _
  rw [HeaderState.readLink, hprefix]
  simp only
  rw [readScalar_space, readScalar_quote]

theorem readLink_kind {state : HeaderState} {items : List (Text × Option UnresolvableKind)} {text : Text}
    (hitems : state.linkItems = items ++ [(text, none)]) (kind : UnresolvableKind) :
    state.readLink ("kind:".toList ++ ' ' :: kind.asStr) =
      .ok { state with linkItems := items ++ [(text, some kind)] } := by
  have hno : stripPrefix "- text:".toList ("kind:".toList ++ ' ' :: kind.asStr) = none := rfl
  have hprefix : stripPrefix "kind:".toList ("kind:".toList ++ ' ' :: kind.asStr) = some (' ' :: kind.asStr) :=
    stripPrefix_append _ _
  obtain ⟨hread, -, hparse⟩ := kind_asStr kind
  rw [HeaderState.readLink, hno, hprefix]
  simp only
  rw [hread, hparse, hitems, List.getLast?_concat]
  simp only
  rw [List.dropLast_concat]

/-- The first line of a link opens it, the second completes it. -/
theorem readLine_linkLines {state : HeaderState} (hlinks : state.inLinks = true) (link : UnresolvableLink) :
    ((linkLines link).map (· ++ ['\n'])).foldlM HeaderState.readLine state = .ok (state.withLinks [link]) := by
  have hfirst : state.readLine ("  ".toList ++ ("- text:".toList ++ ' ' :: quote link.text) ++ ['\n']) =
      .ok { state with linkItems := state.linkItems ++ [(link.text, none)] } :=
    (readLine_link state hlinks (by decide) (singleLine_text link.text) (by decide)).trans
      (readLink_text state link.text)
  have hsecond : HeaderState.readLine { state with linkItems := state.linkItems ++ [(link.text, none)] }
      ("    ".toList ++ ("kind:".toList ++ ' ' :: link.kind.asStr) ++ ['\n']) = .ok (state.withLinks [link]) :=
    (readLine_link { state with linkItems := state.linkItems ++ [(link.text, none)] } hlinks (by decide)
      (singleLine_kind link.kind) (by decide)).trans (readLink_kind rfl link.kind)
  rw [linkLines, List.map_cons, List.map_singleton, List.foldlM_cons, hfirst, ok_bind, List.foldlM_cons, hsecond,
    ok_bind, List.foldlM_nil]
  rfl

theorem readLine_links (state : HeaderState) (hlinks : state.inLinks = true) (links : List UnresolvableLink) :
    ((links.flatMap linkLines).map (· ++ ['\n'])).foldlM HeaderState.readLine state = .ok (state.withLinks links) := by
  induction links generalizing state with
  | nil =>
      rw [HeaderState.withLinks, List.map_nil, List.append_nil]
      rfl
  | cons link links ih =>
      rw [List.flatMap_cons, List.map_append, List.foldlM_append, readLine_linkLines hlinks]
      refine (ih (state.withLinks [link]) hlinks).trans ?_
      simp only [HeaderState.withLinks, List.map_cons, List.map_nil, List.append_assoc, List.cons_append,
        List.nil_append]

/-- The lines of the links, the first of which is the field's own. -/
def linksLines (links : List UnresolvableLink) : List Text :=
  if links = [] then ["unresolvable_links".toList ++ ':' :: " []".toList]
  else ("unresolvable_links".toList ++ ':' :: []) :: links.flatMap linkLines

theorem ended_cons (line : Text) (lines : List Text) : ended (line :: lines) = line ++ '\n' :: ended lines := by
  rw [ended, List.flatMap_cons, List.append_assoc]
  rfl

theorem renderLink_eq (link : UnresolvableLink) : renderLink link = ended (linkLines link) := by
  have htext : "  - text: ".toList = "  ".toList ++ ("- text:".toList ++ [' ']) := by decide +kernel
  have hkind : "    kind: ".toList = "    ".toList ++ ("kind:".toList ++ [' ']) := by decide +kernel
  have hend : "\n".toList = ['\n'] := by decide +kernel
  have hnone : ended [] = [] := rfl
  unfold renderLink linkLines
  rewrite [htext, hkind, hend, ended_cons, ended_cons, hnone]
  generalize quote link.text = text, link.kind.asStr = kind
  simp only [List.append_assoc, List.cons_append, List.nil_append]

theorem renderLinks_eq (links : List UnresolvableLink) : renderLinks links = ended (linksLines links) := by
  have hinline : "unresolvable_links: []\n".toList = "unresolvable_links".toList ++ ':' :: " []".toList ++ ['\n'] := by
    decide +kernel
  have hblock : "unresolvable_links:\n".toList = "unresolvable_links".toList ++ [':', '\n'] := by decide +kernel
  have hlines : links.flatMap renderLink = ended (links.flatMap linkLines) := by
    simp only [ended, List.flatMap_assoc]
    exact List.flatMap_congr fun link _ => renderLink_eq link
  have hnone : ended [] = [] := rfl
  by_cases h : links = []
  · simp only [renderLinks, linksLines, if_pos h, hinline, ended_cons, hnone]
  · simp only [renderLinks, linksLines, if_neg h, hblock, hlines, ended_cons, List.append_assoc, List.cons_append,
      List.nil_append]

theorem readField_links (state : HeaderState) :
    state.readField "unresolvable_links".toList " []".toList = .ok { state with inLinks := false } ∧
      state.readField "unresolvable_links".toList [] = .ok { state with inLinks := true } := by
  have hread : readScalar " []".toList = "[]".toList := by decide +kernel
  have hempty : readScalar [] = [] := rfl
  constructor
  · rw [HeaderState.readField, if_neg (by decide), if_neg (by decide), if_neg (by decide), if_neg (by decide),
      if_pos rfl, hread]
    rfl
  · rw [HeaderState.readField, if_neg (by decide), if_neg (by decide), if_neg (by decide), if_neg (by decide),
      if_pos rfl, hempty]
    rfl

/-- The links of a file are read with it. -/
theorem readLine_linksLines {state : HeaderState} (hnone : state.linkItems = []) (links : List UnresolvableLink) :
    ∃ inLinks, ((linksLines links).map (· ++ ['\n'])).foldlM HeaderState.readLine state =
      .ok { state with inLinks, linkItems := links.map fun link => (link.text, some link.kind) } := by
  unfold linksLines
  split_ifs with h
  · subst h
    refine ⟨false, ?_⟩
    have hline : state.readLine ("unresolvable_links".toList ++ ':' :: " []".toList ++ ['\n']) =
        HeaderState.readField { state with inLinks := false } "unresolvable_links".toList " []".toList :=
      readLine_field state (by decide) ⟨by decide, by decide⟩
    rw [List.map_singleton, List.foldlM_cons, hline, (readField_links _).1, List.map_nil, ← hnone]
    rfl
  · refine ⟨true, ?_⟩
    have hline : state.readLine ("unresolvable_links".toList ++ ':' :: [] ++ ['\n']) =
        HeaderState.readField { state with inLinks := false } "unresolvable_links".toList [] :=
      readLine_field state (by decide) ⟨List.not_mem_nil, List.not_mem_nil⟩
    rw [List.map_cons, List.foldlM_cons, hline, (readField_links _).2]
    refine (readLine_links { state with inLinks := true } rfl links).trans ?_
    rw [HeaderState.withLinks, hnone, List.nil_append]

/-! The file. -/

section parse

variable {readers : Readers} {writers : Writers}

/-- The lines of a header, without their ends. -/
def headerLines (writers : Writers) (header : DocumentHeader) : List Text :=
  ["id".toList ++ ':' :: ' ' :: writers.uuid header.id, "title".toList ++ ':' :: ' ' :: emitScalar header.title,
    "tags".toList ++ ':' :: ' ' :: '[' :: (List.intercalate ", ".toList (header.tags.map emitScalar) ++ [']']),
    "updated".toList ++ ':' :: ' ' :: writers.rfc3339 header.updated] ++ linksLines header.unresolvableLinks

theorem render_eq (header : DocumentHeader) (body : Text) :
    render writers header body =
      "---\n".toList ++ (ended (headerLines writers header) ++ ("---".toList ++ '\n' :: '\n' :: body)) := by
  have hid : "id: ".toList = "id".toList ++ [':', ' '] := by decide +kernel
  have htitle : "title: ".toList = "title".toList ++ [':', ' '] := by decide +kernel
  have htags : "tags: [".toList = "tags".toList ++ [':', ' ', '['] := by decide +kernel
  have hclose : "]\n".toList = [']', '\n'] := by decide +kernel
  have hupdated : "updated: ".toList = "updated".toList ++ [':', ' '] := by decide +kernel
  have hend : "\n".toList = ['\n'] := by decide +kernel
  have hlast : "---\n\n".toList = "---".toList ++ ['\n', '\n'] := by decide +kernel
  have hlines (first second : List Text) : ended (first ++ second) = ended first ++ ended second := List.flatMap_append
  unfold render headerLines
  rewrite [hid, htitle, htags, hclose, hupdated, hend, hlast, renderLinks_eq, hlines]
  generalize ended (linksLines header.unresolvableLinks) = links, writers.uuid header.id = id,
    emitScalar header.title = title, List.intercalate ", ".toList (header.tags.map emitScalar) = tags,
    writers.rfc3339 header.updated = updated
  have hnone : ended [] = [] := rfl
  simp only [ended_cons, hnone, List.append_assoc, List.cons_append, List.nil_append]

variable {header : DocumentHeader} (hid : PlainText (writers.uuid header.id))
  (hupdated : PlainText (writers.rfc3339 header.updated))

include hid hupdated

/-- Every line of a header is one line, whatever the title, the tags and the links are. -/
theorem headerLine_headerLines : ∀ line ∈ headerLines writers header, HeaderLine line := by
  have hfield {key value : Text} (hkey : key ∈ fieldNames) (hvalue : SingleLine value) :
      HeaderLine (key ++ ':' :: value) :=
    ⟨singleLine_field hkey hvalue, List.mem_append_right key List.mem_cons_self⟩
  have hspace {value : Text} (hvalue : SingleLine value) : SingleLine (' ' :: value) :=
    singleLine_cons (by decide) (by decide) hvalue
  have htags : SingleLine ('[' :: (List.intercalate ", ".toList (header.tags.map emitScalar) ++ [']'])) :=
    singleLine_cons (by decide) (by decide)
      (singleLine_append.mpr ⟨singleLine_intercalate header.tags, ⟨by decide, by decide⟩⟩)
  intro line hline
  rcases List.mem_append.mp hline with hline | hline
  · simp only [List.mem_cons, List.not_mem_nil, or_false] at hline
    rcases hline with rfl | rfl | rfl | rfl
    · exact hfield (by decide) (hspace (singleLine_plain hid))
    · exact hfield (by decide) (hspace (singleLine_emitScalar header.title))
    · exact hfield (by decide) (hspace htags)
    · exact hfield (by decide) (hspace (singleLine_plain hupdated))
  · unfold linksLines at hline
    split_ifs at hline with hnone
    · obtain rfl := List.mem_singleton.mp hline
      exact hfield (by decide) ⟨by decide, by decide⟩
    · rcases List.mem_cons.mp hline with rfl | hline
      · exact hfield (by decide) ⟨List.not_mem_nil, List.not_mem_nil⟩
      · obtain ⟨link, -, hlink⟩ := List.mem_flatMap.mp hline
        exact headerLine_linkLines line hlink

/-- The reader has every field of the header once it has met its lines. -/
theorem readLine_headerLines :
    ∃ inLinks, ((headerLines writers header).map (· ++ ['\n'])).foldlM HeaderState.readLine .empty =
      .ok
        { id := some (writers.uuid header.id), title := some header.title, tags := some header.tags,
          updated := some (writers.rfc3339 header.updated), inLinks,
          linkItems := header.unresolvableLinks.map fun link => (link.text, some link.kind) } := by
  have hfield (state : HeaderState) {key value : Text} (hkey : key ∈ fieldNames) (hvalue : SingleLine value) :
      state.readLine (key ++ ':' :: ' ' :: value ++ ['\n']) =
        ({ state with inLinks := false } : HeaderState).readField key (' ' :: value) :=
    readLine_field state hkey (singleLine_cons (by decide) (by decide) hvalue)
  have htags : SingleLine ('[' :: (List.intercalate ", ".toList (header.tags.map emitScalar) ++ [']'])) :=
    singleLine_cons (by decide) (by decide)
      (singleLine_append.mpr ⟨singleLine_intercalate header.tags, ⟨by decide, by decide⟩⟩)
  have hidField (state : HeaderState) : state.readField "id".toList (' ' :: writers.uuid header.id) =
      .ok { state with id := some (writers.uuid header.id) } := by
    rw [HeaderState.readField, if_pos rfl, readScalar_plain hid]
  have htitleField (state : HeaderState) : state.readField "title".toList (' ' :: emitScalar header.title) =
      .ok { state with title := some header.title } := by
    rw [HeaderState.readField, if_neg (by decide), if_pos rfl, readScalar_space, readScalar_emitScalar]
  have htagsField (state : HeaderState) :
      state.readField "tags".toList
          (' ' :: '[' :: (List.intercalate ", ".toList (header.tags.map emitScalar) ++ [']'])) =
        .ok { state with tags := some header.tags } := by
    rw [HeaderState.readField, if_neg (by decide), if_neg (by decide), if_pos rfl, parseFlowSequence_intercalate]
    rfl
  have hupdatedField (state : HeaderState) :
      state.readField "updated".toList (' ' :: writers.rfc3339 header.updated) =
        .ok { state with updated := some (writers.rfc3339 header.updated) } := by
    rw [HeaderState.readField, if_neg (by decide), if_neg (by decide), if_neg (by decide), if_pos rfl,
      readScalar_plain hupdated]
  rw [headerLines, List.map_append, List.foldlM_append, List.map_cons, List.foldlM_cons,
    hfield _ (by decide) (singleLine_plain hid), hidField, ok_bind, List.map_cons, List.foldlM_cons,
    hfield _ (by decide) (singleLine_emitScalar header.title), htitleField, ok_bind, List.map_cons, List.foldlM_cons,
    hfield _ (by decide) htags, htagsField, ok_bind, List.map_singleton, List.foldlM_cons,
    hfield _ (by decide) (singleLine_plain hupdated), hupdatedField, ok_bind, List.foldlM_nil]
  exact readLine_linksLines rfl header.unresolvableLinks

/-- The header of a file that was rendered. -/
theorem parseHeader_headerLines (hreadId : readers.uuid (writers.uuid header.id) = .ok header.id)
    (hreadUpdated : readers.rfc3339 (writers.rfc3339 header.updated) = .ok (wholeSeconds header.updated)) :
    parseHeader readers (ended (headerLines writers header)) =
      .ok { header with updated := wholeSeconds header.updated } := by
  have hlines : splitInclusive (ended (headerLines writers header)) =
      (headerLines writers header).map (· ++ ['\n']) := by
    have hsplit := splitInclusive_ended (fun line hline => (headerLine_headerLines hid hupdated line hline).1.1) []
    rwa [List.append_nil, splitInclusive, List.append_nil] at hsplit
  have hlinks : (header.unresolvableLinks.map fun link => (link.text, some link.kind)).mapM completeLink =
      .ok header.unresolvableLinks := by
    induction header.unresolvableLinks with
    | nil => rfl
    | cons link links ih =>
        rw [List.map_cons, List.mapM_cons, ih]
        rfl
  obtain ⟨inLinks, hread⟩ := readLine_headerLines hid hupdated
  rw [parseHeader, hlines, hread, ok_bind, hlinks, ok_bind, required, ok_bind, hreadId, readable, ok_bind, required,
    ok_bind, hreadUpdated, readable, ok_bind]
  rfl

/-- A rendered file reads back, with its time truncated to the second. -/
theorem parse_render (hreadId : readers.uuid (writers.uuid header.id) = .ok header.id)
    (hreadUpdated : readers.rfc3339 (writers.rfc3339 header.updated) = .ok (wholeSeconds header.updated)) (body : Text) :
    parse readers (render writers header body) =
      .ok { header := { header with updated := wholeSeconds header.updated }, body } := by
  set opens : Text → Bool := fun line => trimLine line ≠ "---".toList with hopens
  have hinside : ∀ line ∈ (headerLines writers header).map (· ++ ['\n']), opens line = true := by
    intro raw hraw
    obtain ⟨line, hline, rfl⟩ := List.mem_map.mp hraw
    obtain ⟨⟨hfeed, hreturn⟩, hcolon⟩ := headerLine_headerLines hid hupdated line hline
    rw [hopens, decide_eq_true_iff, trimLine_ended hfeed hreturn]
    rintro rfl
    exact absurd hcolon (by decide)
  have hcloses : opens ("---".toList ++ ['\n']) = false := by decide
  have hlines : splitInclusive (ended (headerLines writers header) ++ ("---".toList ++ '\n' :: '\n' :: body)) =
      (headerLines writers header).map (· ++ ['\n']) ++ ("---".toList ++ ['\n']) :: splitInclusive ('\n' :: body) := by
    rw [splitInclusive_ended fun line hline => (headerLine_headerLines hid hupdated line hline).1.1,
      splitInclusive_line (by decide)]
  have hheader : (splitInclusive (ended (headerLines writers header) ++ ("---".toList ++ '\n' :: '\n' :: body))).takeWhile
      opens = (headerLines writers header).map (· ++ ['\n']) := by
    rw [hlines, List.takeWhile_append_of_pos hinside, List.takeWhile_cons_of_neg (Bool.eq_false_iff.mp hcloses),
      List.append_nil]
  have hrest : (splitInclusive (ended (headerLines writers header) ++ ("---".toList ++ '\n' :: '\n' :: body))).dropWhile
      opens = ("---".toList ++ ['\n']) :: splitInclusive ('\n' :: body) := by
    rw [hlines, List.dropWhile_append_of_pos hinside, List.dropWhile_cons_of_neg (Bool.eq_false_iff.mp hcloses)]
  have hbody : stripPrefix "\n".toList ('\n' :: body) = some body := stripPrefix_append ['\n'] body
  have hflat : ((headerLines writers header).map (· ++ ['\n'])).flatten = ended (headerLines writers header) :=
    List.flatMap_def.symm
  rw [parse, render_eq, stripPrefix_append, Option.some_or]
  simp only
  rw [ok_bind, hrest]
  simp only
  rw [hheader, hflat, parseHeader_headerLines hid hupdated hreadId hreadUpdated, ok_bind, flatten_splitInclusive, hbody]
  rfl

end parse

/-! A title, tags and a link that all have to be quoted. -/

def gateId : Text := "00000000-0000-0000-0000-000000000001".toList

def gateWriters : Writers where
  uuid id := if id = 1 then gateId else "00000000-0000-0000-0000-000000000000".toList
  rfc3339 time :=
    "1970-01-01T00:00:0".toList ++ Nat.toDigits 10 (time / 1000000000 % 10).toNat ++ "Z".toList

def gateReaders : Readers where
  uuid text := if text = gateId then .ok 1 else .error "invalid character".toList
  rfc3339 text :=
    if text = "1970-01-01T00:00:01Z".toList then .ok 1000000000 else .error "premature end of input".toList

/-- A title that would close the front matter, were it not quoted, a second and a half after the epoch. -/
def gateHeader : DocumentHeader where
  id := 1
  title := "Gate\n---\n".toList
  tags := [[], "a, b".toList, "true".toList, "north".toList]
  updated := 1500000000
  unresolvableLinks := [⟨"Ser \\".toList, .actor⟩]

theorem gate_reads_back :
    parse gateReaders (render gateWriters gateHeader "\n---\n".toList) =
      .ok { header := { gateHeader with updated := 1000000000 }, body := "\n---\n".toList } :=
  parse_render (by decide +kernel) (by decide +kernel) (by decide +kernel) (by decide +kernel) "\n---\n".toList

end ThunderForge.Mirror
