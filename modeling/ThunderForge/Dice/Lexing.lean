import Mathlib
import ThunderForge.Dice.Parser

/-! What the tokenizer makes of a text, token by token, and what its tokens are like. -/

namespace ThunderForge.Dice

variable {α : Type} [Double α]

/-! The tokens of a text. -/

/-- How a text is read: a number or a word ends where the next character cannot continue it. -/
inductive Lexed : List Char → List (Token α) → Prop where
  | eof : Lexed [] [.eof]
  | space {cs : List Char} {tokens : List (Token α)} (h : Lexed cs tokens) : Lexed (' ' :: cs) tokens
  | symbol {c : Char} {symbol : Symbol} {cs : List Char} {tokens : List (Token α)} (hsymbol : symbolOf c = some symbol)
      (h : Lexed cs tokens) : Lexed (c :: cs) (.symbol symbol :: tokens)
  | number {text : List Char} {n : α} {cs : List Char} {tokens : List (Token α)} (hnumeral : Double.IsNumeral text)
      (hparse : Double.parse (String.ofList text) = some n) (hends : ∀ c ∈ cs.head?, isNumberStart c = false)
      (h : Lexed cs tokens) : Lexed (text ++ cs) (.number n :: tokens)
  | word {name : List Char} {cs : List Char} {tokens : List (Token α)} (hne : name ≠ [])
      (hword : name.all isWordChar = true) (hends : ∀ c ∈ cs.head?, isWordChar c = false) (h : Lexed cs tokens) :
      Lexed (name ++ cs) (.ident (String.ofList name) :: tokens)

theorem isNumberStart_of_isDigit {c : Char} (h : c.isDigit = true) : isNumberStart c = true := by
  simp [isNumberStart, h]

theorem spanNumber_digits {seenDot : Bool} {digits cs : List Char} (h : digits.all Char.isDigit = true) :
    spanNumber seenDot (digits ++ cs) = (digits ++ (spanNumber seenDot cs).1, (spanNumber seenDot cs).2) := by
  induction digits with
  | nil => rfl
  | cons c digits ih =>
      rw [List.all_cons, Bool.and_eq_true] at h
      rw [List.cons_append, spanNumber, if_pos h.1, ih h.2]
      rfl

theorem spanNumber_ends {seenDot : Bool} {cs : List Char} (h : ∀ c ∈ cs.head?, isNumberStart c = false) :
    spanNumber seenDot cs = ([], cs) := by
  cases cs with
  | nil => rfl
  | cons c cs =>
      have hc := h c rfl
      simp only [isNumberStart, Bool.or_eq_false_iff, decide_eq_false_iff_not] at hc
      rw [spanNumber, if_neg (by simp [hc.1]), if_neg (by simp [hc.2])]

/-- A numeral is taken whole. -/
theorem spanNumber_numeral {text cs : List Char} (hnumeral : Double.IsNumeral text)
    (h : ∀ c ∈ cs.head?, isNumberStart c = false) : spanNumber false (text ++ cs) = (text, cs) := by
  cases hnumeral with
  | whole hdigits hne => rw [spanNumber_digits hdigits, spanNumber_ends h, List.append_nil]
  | @fraction digits places hdigits hplaces hne =>
      have hdot : spanNumber false ('.' :: (places ++ cs)) = ('.' :: places, cs) := by
        rw [spanNumber, if_neg (by decide), if_pos ⟨rfl, rfl⟩, spanNumber_digits hplaces, spanNumber_ends h,
          List.append_nil]
      rw [List.append_assoc, List.cons_append, spanNumber_digits hdigits, hdot]

theorem isNumberStart_of_numeral {text : List Char} (h : Double.IsNumeral text) :
    ∃ c cs, text = c :: cs ∧ isNumberStart c = true := by
  cases h with
  | whole hdigits hne =>
      obtain ⟨c, cs, rfl⟩ := List.exists_cons_of_ne_nil hne
      rw [List.all_cons, Bool.and_eq_true] at hdigits
      exact ⟨c, cs, rfl, isNumberStart_of_isDigit hdigits.1⟩
  | @fraction digits places hdigits hplaces hne =>
      cases digits with
      | nil => exact ⟨'.', places, rfl, rfl⟩
      | cons c digits =>
          rw [List.all_cons, Bool.and_eq_true] at hdigits
          exact ⟨c, _, rfl, isNumberStart_of_isDigit hdigits.1⟩

theorem isNumberStart_range {c : Char} (h : isNumberStart c = true) : (48 ≤ c.toNat ∧ c.toNat ≤ 57) ∨ c.toNat = 46 := by
  simp only [isNumberStart, Char.isDigit, Bool.or_eq_true, Bool.and_eq_true, decide_eq_true_eq] at h
  rcases h with h | rfl
  · exact Or.inl h
  · exact Or.inr rfl

theorem isWordChar_range {c : Char} (h : isWordChar c = true) :
    (65 ≤ c.toNat ∧ c.toNat ≤ 90) ∨ (97 ≤ c.toNat ∧ c.toNat ≤ 122) ∨ c.toNat = 95 := by
  simp only [isWordChar, Char.isAlpha, Char.isUpper, Char.isLower, Bool.or_eq_true, Bool.and_eq_true,
    decide_eq_true_eq] at h
  rcases h with (h | h) | rfl
  · exact Or.inl h
  · exact Or.inr (Or.inl h)
  · exact Or.inr (Or.inr rfl)

theorem not_isNumberStart_of_isWordChar {c : Char} (h : isWordChar c = true) : isNumberStart c = false := by
  rw [Bool.eq_false_iff]
  intro hnumber
  have hrange := isNumberStart_range hnumber
  have hrange' := isWordChar_range h
  omega

theorem isWhitespace_range {c : Char} (h : isWhitespace c = true) :
    (9 ≤ c.toNat ∧ c.toNat ≤ 13) ∨ c.toNat = 32 ∨ 128 ≤ c.toNat := by
  simp only [isWhitespace, Bool.or_eq_true, Bool.and_eq_true, decide_eq_true_eq] at h
  omega

theorem not_isWhitespace_of_isNumberStart {c : Char} (h : isNumberStart c = true) : isWhitespace c = false := by
  rw [Bool.eq_false_iff]
  intro hwhite
  have hrange := isNumberStart_range h
  have hrange' := isWhitespace_range hwhite
  omega

theorem not_isWhitespace_of_isWordChar {c : Char} (h : isWordChar c = true) : isWhitespace c = false := by
  rw [Bool.eq_false_iff]
  intro hwhite
  have hrange := isWordChar_range h
  have hrange' := isWhitespace_range hwhite
  omega

/-- A symbol is no part of another token. -/
theorem of_symbolOf {c : Char} {symbol : Symbol} (h : symbolOf c = some symbol) :
    isWhitespace c = false ∧ isNumberStart c = false ∧ isWordChar c = false := by
  unfold symbolOf at h
  split at h <;> first | decide | exact nomatch h

theorem takeWhile_word {name cs : List Char} (hword : name.all isWordChar = true)
    (hends : ∀ c ∈ cs.head?, isWordChar c = false) :
    (name ++ cs).takeWhile isWordChar = name ∧ (name ++ cs).dropWhile isWordChar = cs := by
  have hall := List.all_eq_true.mp hword
  have hstop : cs.takeWhile isWordChar = [] ∧ cs.dropWhile isWordChar = cs := by
    cases cs with
    | nil => exact ⟨rfl, rfl⟩
    | cons c cs =>
        have hc := hends c rfl
        exact ⟨List.takeWhile_cons_of_neg (by simp [hc]), List.dropWhile_cons_of_neg (by simp [hc])⟩
  exact ⟨by rw [List.takeWhile_append_of_pos hall, hstop.1, List.append_nil],
    by rw [List.dropWhile_append_of_pos hall, hstop.2]⟩

/-- The tokenizer finds the tokens of a text. -/
theorem Lexed.tokenizeFrom {text : List Char} {tokens : List (Token α)} (h : Lexed text tokens) (pos : Nat) :
    ∃ ts : Tokens α, Dice.tokenizeFrom pos text = .ok ts ∧ ts.map Prod.fst = tokens := by
  induction h generalizing pos with
  | eof =>
      rw [Dice.tokenizeFrom]
      exact ⟨_, rfl, rfl⟩
  | space _ ih =>
      rw [Dice.tokenizeFrom, if_pos (by decide)]
      exact ih _
  | @symbol c symbol cs tokens hsymbol _ ih =>
      obtain ⟨hwhite, hnumber, hword⟩ := of_symbolOf hsymbol
      obtain ⟨ts, hts, rfl⟩ := ih (pos + c.utf8Size)
      refine ⟨(.symbol symbol, pos) :: ts, ?_, rfl⟩
      rw [Dice.tokenizeFrom, if_neg (by simp [hwhite]), dif_neg (by simp [hnumber]), dif_neg (by simp [hword]), hsymbol]
      dsimp only
      rw [hts]
      rfl
  | @number text n cs tokens hnumeral hparse hends _ ih =>
      obtain ⟨c, rest, htext, hnumber⟩ := isNumberStart_of_numeral hnumeral
      have hspan : spanNumber false (c :: (rest ++ cs)) = (text, cs) := by
        rw [← List.cons_append, ← htext, spanNumber_numeral hnumeral hends]
      obtain ⟨ts, hts, rfl⟩ := ih (pos + (String.ofList text).utf8ByteSize)
      refine ⟨(.number n, pos) :: ts, ?_, rfl⟩
      rw [htext, List.cons_append, Dice.tokenizeFrom, if_neg (by simp [not_isWhitespace_of_isNumberStart hnumber]),
        dif_pos hnumber]
      simp only [hspan, hparse, hts]
      rfl
  | @word name cs tokens hne hword hends _ ih =>
      obtain ⟨htake, hdrop⟩ := takeWhile_word hword hends
      obtain ⟨c, rest, hname⟩ := List.exists_cons_of_ne_nil hne
      have hc : isWordChar c = true := by
        rw [hname, List.all_cons, Bool.and_eq_true] at hword
        exact hword.1
      obtain ⟨ts, hts, rfl⟩ := ih (pos + (String.ofList name).utf8ByteSize)
      refine ⟨(.ident (String.ofList name), pos) :: ts, ?_, rfl⟩
      rw [hname, List.cons_append] at htake hdrop
      rw [hname, List.cons_append, Dice.tokenizeFrom, if_neg (by simp [not_isWhitespace_of_isWordChar hc]),
        dif_neg (by simp [not_isNumberStart_of_isWordChar hc]), dif_pos hc]
      simp only [htake, hdrop, ← hname, hts]
      rfl

/-! Where a token may begin. -/

def Token.isNumber : Token α → Bool
  | .number _ => true
  | _ => false

def Token.isIdent : Token α → Bool
  | .ident _ => true
  | _ => false

/-- A text that is read as something other than a number does not go on with one. -/
theorem Lexed.not_isNumberStart {cs : List Char} {tokens : List (Token α)} (h : Lexed cs tokens)
    (hnumber : ∀ token ∈ tokens.head?, token.isNumber = false) : ∀ c ∈ cs.head?, isNumberStart c = false := by
  cases h with
  | eof => simp
  | space _ =>
      rintro c ⟨⟩
      decide
  | symbol hsymbol _ =>
      rintro c ⟨⟩
      exact (of_symbolOf hsymbol).2.1
  | number => exact absurd (hnumber _ rfl) (by simp [Token.isNumber])
  | word hne hword _ _ =>
      obtain ⟨c, rest, rfl⟩ := List.exists_cons_of_ne_nil hne
      rw [List.all_cons, Bool.and_eq_true] at hword
      rintro c ⟨⟩
      exact not_isNumberStart_of_isWordChar hword.1

/-- A text that is read as something other than a word does not go on with one. -/
theorem Lexed.not_isWordChar {cs : List Char} {tokens : List (Token α)} (h : Lexed cs tokens)
    (hident : ∀ token ∈ tokens.head?, token.isIdent = false) : ∀ c ∈ cs.head?, isWordChar c = false := by
  cases h with
  | eof => simp
  | space _ =>
      rintro c ⟨⟩
      decide
  | symbol hsymbol _ =>
      rintro c ⟨⟩
      exact (of_symbolOf hsymbol).2.2
  | number hnumeral _ _ _ =>
      obtain ⟨c, rest, rfl, hc⟩ := isNumberStart_of_numeral hnumeral
      rintro c ⟨⟩
      rw [Bool.eq_false_iff]
      intro hword
      rw [not_isNumberStart_of_isWordChar hword] at hc
      exact Bool.false_ne_true hc
  | word => exact absurd (hident _ rfl) (by simp [Token.isIdent])

/-! What tokens are. -/

/-- A number that a numeral is read as. -/
def IsLiteral (n : α) : Prop := ∃ text : String, Double.IsNumeral text.toList ∧ Double.parse text = some n

def IsName (name : String) : Prop := name.toList ≠ [] ∧ name.toList.all isWordChar = true

def Token.Lexical : Token α → Prop
  | .number n => IsLiteral n
  | .ident name => IsName name
  | .symbol _ | .eof => True

theorem spanNumber_seenDot (cs : List Char) : (spanNumber true cs).1.all Char.isDigit = true := by
  induction cs with
  | nil => rfl
  | cons c cs ih =>
      unfold spanNumber
      split_ifs with hdigit hdot
      · rw [List.all_cons, hdigit, ih]
        rfl
      · exact absurd hdot.2 (by decide)
      · rfl

/-- The number a token takes is digits, with one dot at most. -/
theorem spanNumber_digitsOrDot (cs : List Char) :
    (spanNumber false cs).1.all Char.isDigit = true ∨ ∃ digits places, (spanNumber false cs).1 = digits ++ '.' :: places ∧
      digits.all Char.isDigit = true ∧ places.all Char.isDigit = true := by
  induction cs with
  | nil => exact Or.inl rfl
  | cons c cs ih =>
      unfold spanNumber
      split_ifs with hdigit hdot
      · rcases ih with hall | ⟨digits, places, hspan, hdigits, hplaces⟩
        · refine Or.inl ?_
          rw [List.all_cons, hdigit, hall]
          rfl
        · refine Or.inr ⟨c :: digits, places, congrArg (c :: ·) hspan, ?_, hplaces⟩
          rw [List.all_cons, hdigit, hdigits]
          rfl
      · exact Or.inr ⟨[], _, by rw [hdot.1]; rfl, rfl, spanNumber_seenDot cs⟩
      · exact Or.inl rfl

/-- The text of a number token that is read as a number is a numeral. -/
theorem isNumeral_spanNumber {c : Char} {cs : List Char} {n : α} (hc : isNumberStart c = true)
    (hparse : Double.parse (String.ofList (spanNumber false (c :: cs)).1) = some n) :
    Double.IsNumeral (spanNumber false (c :: cs)).1 := by
  have hne : (spanNumber false (c :: cs)).1 ≠ [] := by
    unfold spanNumber
    split_ifs with hdigit hdot
    · exact List.cons_ne_nil _ _
    · exact List.cons_ne_nil _ _
    · simp_all [isNumberStart]
  rcases spanNumber_digitsOrDot (c :: cs) with hall | ⟨digits, places, hspan, hdigits, hplaces⟩
  · exact .whole hall hne
  · rw [hspan]
    refine .fraction hdigits hplaces fun hnil => ?_
    obtain ⟨rfl, rfl⟩ := List.append_eq_nil_iff.mp hnil
    rw [hspan, List.nil_append, show String.ofList ['.'] = "." from rfl, Double.parse_dot] at hparse
    cases hparse

theorem lexical_tokenizeFrom {pos : Nat} {text : List Char} {ts : Tokens α} (h : tokenizeFrom pos text = .ok ts) :
    ∀ token ∈ ts, token.1.Lexical := by
  have hcons : ∀ {token : Token α × Nat} {rest : Tokens α}, token.1.Lexical → (∀ t ∈ rest, t.1.Lexical) →
      ∀ t ∈ token :: rest, t.1.Lexical := fun htoken hrest => List.forall_mem_cons.mpr ⟨htoken, hrest⟩
  induction pos, text using tokenizeFrom.induct (α := α) generalizing ts with
  | case1 pos =>
      rw [tokenizeFrom] at h
      cases h
      exact List.forall_mem_singleton.mpr trivial
  | case2 pos c cs hwhite ih =>
      rw [tokenizeFrom, if_pos hwhite] at h
      exact ih h
  | case3 pos c cs hwhite hnumber digits =>
      rename_i hparse
      rw [tokenizeFrom, if_neg hwhite, dif_pos hnumber] at h
      simp only [digits] at hparse
      simp only [hparse, reduceCtorEq] at h
  | case4 pos c cs hwhite hnumber digits value hparse =>
      rename_i ih
      rw [tokenizeFrom, if_neg hwhite, dif_pos hnumber] at h
      simp only [digits] at hparse
      simp only [hparse] at h
      obtain ⟨rest, hrest, h⟩ := except_bind_eq_ok.mp h
      cases h
      have hnumeral := isNumeral_spanNumber hnumber hparse
      exact hcons ⟨_, by rwa [String.toList_ofList], hparse⟩ (ih hrest)
  | case5 pos c cs hwhite hnumber hword _ name =>
      rename_i ih
      rw [tokenizeFrom, if_neg hwhite, dif_neg hnumber, dif_pos hword] at h
      obtain ⟨rest, hrest, h⟩ := except_bind_eq_ok.mp h
      cases h
      refine hcons ⟨?_, ?_⟩ (ih hrest)
      · rw [String.toList_ofList, List.takeWhile_cons_of_pos hword]
        exact List.cons_ne_nil _ _
      · rw [String.toList_ofList]
        exact List.all_takeWhile
  | case6 pos c cs hwhite hnumber hword hnone =>
      rw [tokenizeFrom, if_neg hwhite, dif_neg hnumber, dif_neg hword, hnone] at h
      exact nomatch h
  | case7 pos c cs hwhite hnumber hword symbol hsymbol ih =>
      rw [tokenizeFrom, if_neg hwhite, dif_neg hnumber, dif_neg hword, hsymbol] at h
      obtain ⟨rest, hrest, h⟩ := except_bind_eq_ok.mp h
      cases h
      exact hcons trivial (ih hrest)

end ThunderForge.Dice
