import ThunderForge.Mirror.Exporting

/-! Where the way back finds an inline link, and what it leaves as it is. -/

namespace ThunderForge.Mirror

/-- The text up to a separator that it does not contain is found in one way. -/
theorem append_cons_inj_first {sep : Char} {left left' right right' : Text} (hleft : sep ∉ left) (hleft' : sep ∉ left')
    (h : left ++ sep :: right = left' ++ sep :: right') : left = left' ∧ right = right' := by
  induction left generalizing left' with
  | nil =>
      cases left' with
      | nil => exact ⟨rfl, (List.cons.inj h).2⟩
      | cons c left' => exact absurd (List.cons.inj h).1 fun heq => hleft' (heq ▸ List.mem_cons_self)
  | cons c left ih =>
      rw [List.mem_cons, not_or] at hleft
      cases left' with
      | nil => exact absurd (List.cons.inj h).1.symm hleft.1
      | cons c' left' =>
          obtain ⟨hc, hrest⟩ := List.cons.inj h
          rw [List.mem_cons, not_or] at hleft'
          obtain ⟨hsame, hright⟩ := ih hleft.2 hleft'.2 hrest
          exact ⟨by rw [hc, hsame], hright⟩

theorem takeWhile_append_cons {p : Char → Bool} {front : Text} {c : Char} (hfront : ∀ d ∈ front, p d = true)
    (hc : p c = false) (text : Text) : (front ++ c :: text).takeWhile p = front := by
  rw [List.takeWhile_append_of_pos hfront, List.takeWhile_cons_of_neg (by rw [hc]; decide), List.append_nil]

/-- A character of a destination. -/
def isDestination (c : Char) : Bool := c ≠ '(' ∧ c ≠ ')' ∧ ¬ isWhitespace c

theorem inlineLink_of_eq {display destination : Text} (hopen : '[' ∉ display) (hclose : ']' ∉ display)
    (hne : destination ≠ []) (hdestination : ∀ c ∈ destination, isDestination c = true) (after : Text) :
    inlineLink ('[' :: (display ++ ']' :: '(' :: (destination ++ ')' :: after))) = some (display, destination, after) := by
  have hdisplay : (display ++ ']' :: '(' :: (destination ++ ')' :: after)).takeWhile
      (fun c => decide (c ≠ '[' ∧ c ≠ ']')) = display := by
    refine takeWhile_append_cons (fun c hc => decide_eq_true ⟨?_, ?_⟩) (by decide) _
    · rintro rfl
      exact hopen hc
    · rintro rfl
      exact hclose hc
  have hdest : (destination ++ ')' :: after).takeWhile
      (fun c => decide (c ≠ '(' ∧ c ≠ ')' ∧ ¬ isWhitespace c = true)) = destination :=
    takeWhile_append_cons hdestination (by decide) _
  unfold inlineLink
  simp only [hdisplay, List.drop_left, hdest, hne, if_false]

theorem inlineLink_eq_some {text display destination after : Text}
    (h : inlineLink ('[' :: text) = some (display, destination, after)) :
    text = display ++ ']' :: '(' :: (destination ++ ')' :: after) ∧ '[' ∉ display ∧ ']' ∉ display ∧ destination ≠ [] ∧
      ∀ c ∈ destination, isDestination c = true := by
  have hdisplay {c : Char} (hc : c ∈ text.takeWhile fun c => decide (c ≠ '[' ∧ c ≠ ']')) : c ≠ '[' ∧ c ≠ ']' :=
    of_decide_eq_true (List.mem_takeWhile_imp (p := fun c => decide (c ≠ '[' ∧ c ≠ ']')) hc)
  unfold inlineLink at h
  simp only at h
  split at h
  · next rest hrest =>
    split at h
    · next tail htail =>
      split_ifs at h with hne
      cases h
      refine ⟨?_, ?_, ?_, hne, fun c hc => List.mem_takeWhile_imp hc⟩
      · have htext := drop_length_takeWhile (fun c => decide (c ≠ '[' ∧ c ≠ ']')) text
        have hinner := drop_length_takeWhile (fun c => decide (c ≠ '(' ∧ c ≠ ')' ∧ ¬ isWhitespace c = true)) rest
        rw [hrest] at htext
        rw [htail] at hinner
        rw [← hinner]
        exact htext
      · exact fun hmem => (hdisplay hmem).1 rfl
      · exact fun hmem => (hdisplay hmem).2 rfl
    · cases h
  · cases h

theorem inlineLink_of_ne {c : Char} (hc : c ≠ '[') (text : Text) : inlineLink (c :: text) = none := by
  rw [inlineLink.eq_def]
  split
  · next heq =>
    cases heq
    exact absurd rfl hc
  · rfl

/-- A bracket that is opened before one is closed is no beginning of a link. -/
theorem inlineLink_of_open {front : Text} (hfront : ']' ∉ front) (text : Text) :
    inlineLink ('[' :: (front ++ '[' :: text)) = none := by
  cases hlink : inlineLink ('[' :: (front ++ '[' :: text)) with
  | none => rfl
  | some found =>
      obtain ⟨display, destination, after⟩ := found
      obtain ⟨htext, hopen, -, -, -⟩ := inlineLink_eq_some hlink
      rcases List.append_eq_append_iff.mp htext with ⟨rest, hdisplay, hrest⟩ | ⟨rest, hfrontEq, hrest⟩
      · cases rest with
        | nil => cases hrest
        | cons c rest =>
            have hc : '[' = c := (List.cons.inj hrest).1
            exact absurd (by rw [hdisplay, hc]; simp) hopen
      · cases rest with
        | nil => cases hrest
        | cons c rest =>
            have hc : ']' = c := (List.cons.inj hrest).1
            exact absurd (by rw [hfrontEq, hc]; simp) hfront

section

variable {titleAt : Text → Option Text} {previous : Option Char}

/-- What a link that has been found is restored to. -/
def restoredLink (titleAt : Text → Option Text) (previous : Option Char) (display destination : Text) : Text :=
  let whole := "[".toList ++ display ++ "](".toList ++ destination ++ ")".toList
  if previous = some '!' then whole
  else
    match titleAt destination with
    | some title => authoredLink title display
    | none => whole

theorem restore_char {c : Char} {text : Text} (h : inlineLink (c :: text) = none) :
    restoreLinksAfter titleAt previous (c :: text) = c :: restoreLinksAfter titleAt (some c) text := by
  rw [restoreLinksAfter, h]

theorem restore_link {c : Char} {text display destination after : Text}
    (h : inlineLink (c :: text) = some (display, destination, after)) :
    restoreLinksAfter titleAt previous (c :: text) =
      restoredLink titleAt previous display destination ++ restoreLinksAfter titleAt (some ')') after := by
  rw [restoreLinksAfter, h]
  rfl

/-- The last character of a text, or the one before it. -/
def lastOr (previous : Option Char) (text : Text) : Option Char := text.getLast?.or previous

theorem lastOr_cons (previous : Option Char) (c : Char) (text : Text) :
    lastOr previous (c :: text) = lastOr (some c) text := by
  unfold lastOr
  cases text with
  | nil => rfl
  | cons d text => rw [List.getLast?_cons_cons, List.getLast?_cons, Option.some_or, Option.some_or]

/-- Text without an opening bracket is left as it is. -/
theorem restore_append_of_notMem {front : Text} (h : '[' ∉ front) (text : Text) :
    restoreLinksAfter titleAt previous (front ++ text) =
      front ++ restoreLinksAfter titleAt (lastOr previous front) text := by
  induction front generalizing previous with
  | nil => rfl
  | cons c front ih =>
      rw [List.mem_cons, not_or] at h
      rw [List.cons_append, restore_char (inlineLink_of_ne (Ne.symm h.1) _), ih h.2, lastOr_cons]
      rfl

/-- Of brackets that are opened one after the other, the last begins the link. -/
theorem restore_last_open {front display destination : Text} (hfront : ']' ∉ front) (hopen : '[' ∉ display)
    (hclose : ']' ∉ display) (hne : destination ≠ []) (hdestination : ∀ c ∈ destination, isDestination c = true)
    (after : Text) :
    restoreLinksAfter titleAt previous (front ++ '[' :: (display ++ ']' :: '(' :: (destination ++ ')' :: after))) =
      front ++ (restoredLink titleAt (lastOr previous front) display destination ++
        restoreLinksAfter titleAt (some ')') after) := by
  induction front generalizing previous with
  | nil => exact restore_link (inlineLink_of_eq hopen hclose hne hdestination after)
  | cons c front ih =>
      rw [List.mem_cons, not_or] at hfront
      have hnone : inlineLink (c :: (front ++ '[' :: (display ++ ']' :: '(' :: (destination ++ ')' :: after)))) =
          none := by
        by_cases hc : c = '['
        · rw [hc]
          exact inlineLink_of_open hfront.2 _
        · exact inlineLink_of_ne hc _
      rw [List.cons_append, restore_char hnone, ih hfront.2, lastOr_cons]
      rfl

end

end ThunderForge.Mirror
