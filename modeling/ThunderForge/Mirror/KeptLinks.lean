import ThunderForge.Mirror.InlineLinks
import ThunderForge.Mirror.RoundTrip

/-! Which bodies come back from a repository as they were written. The exported body is read from the front: every
piece of it either comes back, or leaves a first difference behind that nothing after it can mend. -/

namespace ThunderForge.Mirror

/-! Lore links, as they are written and as they are shown. -/

theorem trimChars_between_spaces (text : Text) : ∃ before after, text = before ++ (trimChars text ++ after) := by
  set front := text.dropWhile isWhitespace with hfront
  refine ⟨text.takeWhile isWhitespace, (front.reverse.takeWhile isWhitespace).reverse, ?_⟩
  have hback := congrArg List.reverse (List.takeWhile_append_dropWhile (p := isWhitespace) (l := front.reverse))
  rw [List.reverse_append, List.reverse_reverse] at hback
  rw [trimChars, ← hfront, hback, hfront, List.takeWhile_append_dropWhile]

theorem mem_of_mem_trimChars {c : Char} {text : Text} (h : c ∈ trimChars text) : c ∈ text := by
  obtain ⟨before, after, htext⟩ := trimChars_between_spaces text
  rw [htext]
  exact List.mem_append_right before (List.mem_append_left after h)

theorem length_trimChars_le (text : Text) : (trimChars text).length ≤ text.length := by
  obtain ⟨before, after, htext⟩ := trimChars_between_spaces text
  have hlength := congrArg List.length htext
  rw [List.length_append, List.length_append] at hlength
  omega

/-- The last of the characters that are there. -/
theorem exists_last_of_mem {c : Char} {text : Text} (h : c ∈ text) :
    ∃ front back, text = front ++ c :: back ∧ c ∉ back := by
  obtain ⟨back, front, htext, hback⟩ := List.eq_append_cons_of_mem (List.mem_reverse.mpr h)
  refine ⟨front.reverse, back.reverse, ?_, fun hmem => hback (List.mem_reverse.mp hmem)⟩
  rw [← List.reverse_reverse text, htext, List.reverse_append, List.reverse_cons, List.append_assoc]
  rfl

/-- What stands between the brackets of a lore link. -/
def WikiLink.inner (link : WikiLink) : Text := link.title ++ (link.display.map ('|' :: ·)).getD []

/-- What the way back writes between the brackets. -/
def restoredInner (title display : Text) : Text := if display = title then title else title ++ '|' :: display

section

variable {wiki : WikiLink} {title display : Text}

theorem WikiLink.whole_append (link : WikiLink) (text : Text) :
    link.whole ++ text = '[' :: '[' :: (link.inner ++ ']' :: ']' :: text) := by
  rw [whole, inner, List.append_assoc, List.append_assoc, List.append_assoc, List.append_assoc]
  rfl

theorem authoredLink_append (title display text : Text) :
    authoredLink title display ++ text = '[' :: '[' :: (restoredInner title display ++ ']' :: ']' :: text) := by
  unfold authoredLink restoredInner
  split_ifs
  · rw [List.append_assoc, List.append_assoc]
    rfl
  · rw [List.append_assoc, List.append_assoc, List.append_assoc, List.append_assoc, List.append_assoc]
    rfl

theorem WikiLink.Plain.no_close_inner (h : wiki.Plain) : ']' ∉ wiki.inner := by
  unfold inner
  cases hdisplay : wiki.display with
  | none => exact fun hmem => h.title_close ((List.append_nil wiki.title).subst hmem)
  | some display =>
      intro hmem
      rcases List.mem_append.mp hmem with hmem | hmem
      · exact h.title_close hmem
      · rcases List.mem_cons.mp hmem with heq | hmem
        · exact absurd heq (by decide)
        · exact h.display display hdisplay hmem

theorem WikiLink.Plain.no_close_shown (h : wiki.Plain) : ']' ∉ wiki.shown := by
  unfold shown
  cases hdisplay : wiki.display with
  | none => exact fun hmem => h.title_close (mem_of_mem_trimChars hmem)
  | some display => exact fun hmem => h.display display hdisplay (mem_of_mem_trimChars hmem)

theorem no_close_restoredInner (htitle : ']' ∉ title) (hdisplay : ']' ∉ display) :
    ']' ∉ restoredInner title display := by
  unfold restoredInner
  split_ifs
  · exact htitle
  · rw [List.mem_append, List.mem_cons, not_or, not_or]
    exact ⟨htitle, by decide, hdisplay⟩

/-- A lore link that comes back from the end of its own text is too short, or has a bar in place of a bracket. -/
theorem inner_ne_of_open (hplain : wiki.Plain) (hlength : title.length = wiki.target.length) {front last : Text}
    (hshown : wiki.shown = front ++ '[' :: last) :
    front ++ '[' :: '[' :: restoredInner title last ≠ '[' :: wiki.inner := by
  intro heq
  have htarget : title.length ≤ wiki.title.length := hlength ▸ length_trimChars_le wiki.title
  unfold restoredInner WikiLink.inner at heq
  unfold WikiLink.shown at hshown
  cases hdisplay : wiki.display with
  | none =>
      rw [hdisplay] at heq hshown
      have hshort : last.length < title.length := by
        rw [hlength]
        change wiki.target = front ++ '[' :: last at hshown
        rw [hshown, List.length_append, List.length_cons]
        omega
      rw [if_neg fun hsame => by rw [hsame] at hshort; omega] at heq
      change front ++ '[' :: '[' :: (title ++ '|' :: last) = '[' :: (wiki.title ++ []) at heq
      have hbar : '|' ∈ '[' :: (wiki.title ++ []) := by
        rw [← heq]
        simp
      rw [List.append_nil] at hbar
      rcases List.mem_cons.mp hbar with hbar | hbar
      · exact absurd hbar (by decide)
      · exact hplain.title_bar hbar
  | some display =>
      rw [hdisplay] at heq hshown
      change trimChars display = front ++ '[' :: last at hshown
      obtain ⟨before, after, hspaces⟩ := trimChars_between_spaces display
      rw [hshown] at hspaces
      change front ++ '[' :: '[' :: (if last = title then title else title ++ '|' :: last) =
        '[' :: (wiki.title ++ '|' :: display) at heq
      have hsizes := congrArg List.length heq
      have hwidth := congrArg List.length hspaces
      simp only [List.length_append, List.length_cons] at hsizes hwidth
      split_ifs at heq hsizes with hsame
      · omega
      · rw [List.length_append, List.length_cons] at hsizes
        have hafter : after = [] := List.eq_nil_of_length_eq_zero (by omega)
        rw [hafter, List.append_nil] at hspaces
        -- both sides end with the same text, after a bar and after a bracket
        rw [hspaces] at heq
        have hbar : (front ++ '[' :: '[' :: title) ++ '|' :: last =
            ('[' :: wiki.title ++ '|' :: (before ++ front)) ++ '[' :: last := by
          simpa using heq
        exact absurd (List.cons.inj (List.append_inj' hbar rfl).2).1 (by decide)

end

/-! The text of a lore link on the way back. -/

/-- What an exported lore link leads to, and the title that is found there. -/
structure Leads (titleAt : Text → Option Text) (wiki : WikiLink) (destination : Text) : Prop where
  plain : wiki.Plain
  nonempty : destination ≠ []
  allowed : ∀ c ∈ destination, isDestination c = true
  no_open : '[' ∉ destination
  title : ∀ title ∈ titleAt destination, title.length = wiki.target.length ∧ ']' ∉ title

section

variable {titleAt : Text → Option Text} {previous : Option Char} {wiki : WikiLink} {destination : Text}

theorem ne_of_paren {left right : Text} (hleft : ']' ∉ left) (hright : ']' ∉ right) (text text' : Text) :
    left ++ ']' :: '(' :: text ≠ right ++ ']' :: ']' :: text' := by
  intro heq
  have hnext := (append_cons_inj_first hleft hright heq).2
  exact absurd (List.cons.inj hnext).1 (by decide)

/-- From inside the text of a lore link no way leads back to the link. -/
theorem restore_inside_ne (h : Leads titleAt wiki destination) {front back : Text} (hshown : wiki.shown = front ++ back)
    (text text' : Text) :
    front ++ restoreLinksAfter titleAt previous (back ++ ']' :: '(' :: (destination ++ ')' :: text)) ≠
      '[' :: (wiki.inner ++ ']' :: ']' :: text') := by
  have hinner : ']' ∉ '[' :: wiki.inner := by
    rw [List.mem_cons, not_or]
    exact ⟨by decide, h.plain.no_close_inner⟩
  have hclose : ']' ∉ front ++ back := hshown ▸ h.plain.no_close_shown
  by_cases hopen : '[' ∈ back
  · obtain ⟨between, last, rfl, hlast⟩ := exists_last_of_mem hopen
    have hnone : ']' ∉ front ++ between ∧ ']' ∉ last := by
      simpa [not_or, and_assoc] using hclose
    have hbetween : ']' ∉ between := fun hmem => hnone.1 (List.mem_append_right front hmem)
    rw [List.append_assoc, List.cons_append, restore_last_open hbetween hlast hnone.2 h.nonempty h.allowed]
    generalize restoreLinksAfter titleAt (some ')') text = rest
    have hwhole : front ++ (between ++ ("[".toList ++ last ++ "](".toList ++ destination ++ ")".toList ++ rest)) ≠
        '[' :: (wiki.inner ++ ']' :: ']' :: text') := by
      have hparen := ne_of_paren hclose hinner (destination ++ ')' :: rest) text'
      simpa using hparen
    unfold restoredLink
    simp only
    split_ifs
    · exact hwhole
    · cases htitle : titleAt destination with
      | none => exact hwhole
      | some title =>
          obtain ⟨hlength, htitleClose⟩ := h.title title htitle
          simp only
          rw [authoredLink_append, ← List.append_assoc]
          intro heq
          have hleft : ']' ∉ (front ++ between) ++ '[' :: '[' :: restoredInner title last := by
            rw [List.mem_append, List.mem_cons, List.mem_cons, not_or, not_or, not_or]
            exact ⟨hnone.1, by decide, by decide, no_close_restoredInner htitleClose hnone.2⟩
          have hcut : ((front ++ between) ++ '[' :: '[' :: restoredInner title last) ++ ']' :: ']' :: rest =
              ('[' :: wiki.inner) ++ ']' :: ']' :: text' := by
            simpa using heq
          refine inner_ne_of_open h.plain hlength ?_ (append_cons_inj_first hleft hinner hcut).1
          rw [hshown, List.append_assoc]
  · have hpass : '[' ∉ back ++ ']' :: '(' :: destination := by
      rw [List.mem_append, List.mem_cons, List.mem_cons, not_or, not_or, not_or]
      exact ⟨hopen, by decide, by decide, h.no_open⟩
    have hsplit : back ++ ']' :: '(' :: (destination ++ ')' :: text) =
        (back ++ ']' :: '(' :: destination) ++ ')' :: text := by simp
    rw [hsplit, restore_append_of_notMem hpass]
    generalize restoreLinksAfter titleAt _ (')' :: text) = rest
    have hparen := ne_of_paren hclose hinner (destination ++ rest) text'
    simpa using hparen

end

/-! Links written by hand. -/

/-- An opening bracket before these pieces begins an inline link written by hand. -/
structure HandLink (parts : List Piece) (display destination : Text) (after : List Piece) : Prop where
  display_open : '[' ∉ display
  display_close : ']' ∉ display
  nonempty : destination ≠ []
  allowed : ∀ c ∈ destination, isDestination c = true
  parts_eq : parts = (display ++ ']' :: '(' :: (destination ++ [')'])).map .char ++ after

/-- An opening bracket before these pieces begins an inline link whose destination ends inside the text of a lore link,
after `inside`. -/
structure RunsInto (parts : List Piece) (display front inside outside : Text) (wiki : WikiLink) (destination : Text)
    (after : List Piece) : Prop where
  display_open : '[' ∉ display
  display_close : ']' ∉ display
  allowed : ∀ c ∈ front ++ '[' :: inside, isDestination c = true
  shown : wiki.shown = inside ++ ')' :: outside
  parts_eq : parts = (display ++ ']' :: '(' :: front).map .char ++ .link wiki destination :: after

/-- An opening bracket before these pieces begins an inline link. -/
def Begins (parts : List Piece) : Prop :=
  (∃ display destination after, HandLink parts display destination after) ∨
    ∃ display front inside outside wiki destination after,
      RunsInto parts display front inside outside wiki destination after

section

variable {parts after : List Piece} {display destination front inside outside : Text} {wiki : WikiLink}

theorem exported_link (wiki : WikiLink) (destination : Text) (after : List Piece) :
    exported (.link wiki destination :: after) =
      '[' :: (wiki.shown ++ ']' :: '(' :: (destination ++ ')' :: exported after)) := by
  rw [exported_cons, Piece.exported, inlineForm]
  simp

/-- Exported text is that of single characters as far as no lore link begins in it. -/
theorem exported_cut {parts : List Piece} {text rest : Text} (h : exported parts = text ++ rest) :
    (∃ after, parts = text.map .char ++ after ∧ exported after = rest) ∨
      ∃ front back wiki destination after, text = front ++ '[' :: back ∧
        parts = front.map .char ++ .link wiki destination :: after ∧
        wiki.shown ++ ']' :: '(' :: (destination ++ ')' :: exported after) = back ++ rest := by
  induction text generalizing parts with
  | nil => exact .inl ⟨parts, rfl, h⟩
  | cons c text ih =>
      cases parts with
      | nil => cases h
      | cons part parts =>
          cases part with
          | char d =>
              obtain ⟨hc, hrest⟩ := List.cons.inj h
              subst hc
              rcases ih hrest with ⟨after, hparts, hafter⟩ |
                ⟨front, back, wiki, destination, after, htext, hparts, hback⟩
              · exact .inl ⟨after, by rw [hparts]; rfl, hafter⟩
              · exact .inr ⟨d :: front, back, wiki, destination, after, by rw [htext]; rfl, by rw [hparts]; rfl, hback⟩
          | link wiki destination =>
              rw [exported_link] at h
              obtain ⟨hc, hrest⟩ := List.cons.inj h
              exact .inr ⟨[], text, wiki, destination, parts, by rw [← hc]; rfl, rfl, hrest⟩

theorem HandLink.exported_eq (h : HandLink parts display destination after) :
    exported parts = display ++ ']' :: '(' :: (destination ++ ')' :: exported after) := by
  rw [h.parts_eq, exported_map_char]
  simp

theorem HandLink.authored_eq (h : HandLink parts display destination after) :
    authored parts = display ++ ']' :: '(' :: (destination ++ ')' :: authored after) := by
  rw [h.parts_eq, authored_map_char]
  simp

theorem HandLink.inlineLink (h : HandLink parts display destination after) :
    inlineLink ('[' :: exported parts) = some (display, destination, exported after) := by
  rw [h.exported_eq]
  exact inlineLink_of_eq h.display_open h.display_close h.nonempty h.allowed _

theorem RunsInto.exported_eq (h : RunsInto parts display front inside outside wiki destination after) :
    exported parts = display ++ ']' :: '(' :: ((front ++ '[' :: inside) ++
      ')' :: (outside ++ ']' :: '(' :: (destination ++ ')' :: exported after))) := by
  rw [h.parts_eq, exported_map_char, exported_link, h.shown]
  simp

theorem RunsInto.authored_eq (h : RunsInto parts display front inside outside wiki destination after) :
    authored parts = display ++ ']' :: '(' :: (front ++ (wiki.whole ++ authored after)) := by
  rw [h.parts_eq, authored_map_char, authored_cons, Piece.authored]
  simp

theorem RunsInto.inlineLink (h : RunsInto parts display front inside outside wiki destination after) :
    inlineLink ('[' :: exported parts) = some (display, front ++ '[' :: inside,
      outside ++ ']' :: '(' :: (destination ++ ')' :: exported after)) := by
  rw [h.exported_eq]
  have hne : front ++ '[' :: inside ≠ [] := List.append_ne_nil_of_right_ne_nil front (List.cons_ne_nil _ _)
  exact inlineLink_of_eq h.display_open h.display_close hne h.allowed _

/-- An inline link that begins outside a lore link was written by hand, or runs into a lore link. -/
theorem begins_of_inlineLink {found : Text × Text × Text} (h : inlineLink ('[' :: exported parts) = some found) :
    Begins parts := by
  obtain ⟨display, destination, rest⟩ := found
  obtain ⟨htext, hopen, hclose, hne, hallowed⟩ := inlineLink_eq_some h
  have hfirst : exported parts = (display ++ [']', '(']) ++ (destination ++ ')' :: rest) := by
    rw [htext]
    simp
  rcases exported_cut hfirst with ⟨parts', rfl, hparts'⟩ | ⟨front, back, wiki, target, after, hmem, -, -⟩
  · have hsecond : exported parts' = (destination ++ [')']) ++ rest := by
      rw [hparts']
      simp
    rcases exported_cut hsecond with ⟨after, rfl, -⟩ | ⟨front, back, wiki, target, after, hfront, rfl, hback⟩
    · refine .inl ⟨display, destination, after, hopen, hclose, hne, hallowed, ?_⟩
      simp
    · -- the link that was found ends in the text of this one
      obtain ⟨inside, rfl⟩ : ∃ inside, back = inside ++ [')'] := by
        rcases List.eq_nil_or_concat' back with rfl | ⟨inside, last, rfl⟩
        · exact absurd (List.append_inj' hfront rfl).2 (by decide)
        · rw [← List.cons_append, ← List.append_assoc] at hfront
          exact ⟨inside, by rw [(List.append_inj' hfront rfl).2]⟩
      have hdestination : destination = front ++ '[' :: inside := by
        rw [← List.cons_append, ← List.append_assoc] at hfront
        exact (List.append_inj' hfront rfl).1
      have hinside : '(' ∉ inside := fun hmem =>
        absurd (hallowed '(' (by rw [hdestination]; simp [hmem])) (by decide)
      rw [List.append_assoc] at hback
      right
      rcases List.append_eq_append_iff.mp hback with ⟨more, hinsideEq, hmore⟩ | ⟨more, hshown, hmore⟩
      · exfalso
        rcases more with _ | ⟨c, _ | ⟨d, more⟩⟩
        · exact absurd (List.cons.inj hmore).1 (by decide)
        · exact absurd (List.cons.inj (List.cons.inj hmore).2).1 (by decide)
        · have hd : '(' = d := (List.cons.inj (List.cons.inj hmore).2).1
          exact hinside (by rw [hinsideEq, ← hd]; simp)
      · cases more with
        | nil => exact absurd (List.cons.inj hmore).1 (by decide)
        | cons c outside =>
            have hc : ')' = c := (List.cons.inj hmore).1
            refine ⟨display, front, inside, outside, wiki, target, after, hopen, hclose, ?_, ?_, ?_⟩
            · exact hdestination ▸ hallowed
            · rw [hshown, hc]
            · simp
  · exfalso
    have hin : '[' ∈ display ++ [']', '('] := by
      rw [hmem]
      simp
    rcases List.mem_append.mp hin with hin | hin
    · exact hopen hin
    · exact absurd hin (by decide)

end

/-! What is kept. -/

/-- The pieces that come back as they were written, after this character: the lore links that are no images, open no
bracket in their text and are written as the titles behind them are, the links written by hand that are images or lead
to no entry, and the characters that begin no link. -/
inductive Kept (titleAt : Text → Option Text) : Option Char → List Piece → Prop
  | nil (previous : Option Char) : Kept titleAt previous []
  | link {previous : Option Char} {wiki : WikiLink} {destination title : Text} {after : List Piece}
      (himage : previous ≠ some '!') (hopen : '[' ∉ wiki.shown) (htitle : titleAt destination = some title)
      (hwritten : authoredLink title wiki.shown = wiki.whole) (hafter : Kept titleAt (some ')') after) :
      Kept titleAt previous (.link wiki destination :: after)
  | hand {previous : Option Char} {parts after : List Piece} {display destination : Text}
      (hhand : HandLink parts display destination after) (hleads : previous = some '!' ∨ titleAt destination = none)
      (hafter : Kept titleAt (some ')') after) : Kept titleAt previous (.char '[' :: parts)
  | char {previous : Option Char} {c : Char} {parts : List Piece} (hbegins : c = '[' → ¬ Begins parts)
      (hafter : Kept titleAt (some c) parts) : Kept titleAt previous (.char c :: parts)

section

variable {titleAt : Text → Option Text} {previous : Option Char} {parts : List Piece}

theorem inlineLink_of_not_begins {c : Char} (h : c = '[' → ¬ Begins parts) :
    inlineLink (c :: exported parts) = none := by
  by_cases hc : c = '['
  · subst hc
    rw [Option.eq_none_iff_forall_ne_some]
    exact fun found hfound => h rfl (begins_of_inlineLink hfound)
  · exact inlineLink_of_ne hc _

theorem restoredLink_of_leads {display destination : Text} (h : previous = some '!' ∨ titleAt destination = none)
    (text : Text) :
    restoredLink titleAt previous display destination ++ text =
      '[' :: (display ++ ']' :: '(' :: (destination ++ ')' :: text)) := by
  have hwhole : "[".toList ++ display ++ "](".toList ++ destination ++ ")".toList ++ text =
      '[' :: (display ++ ']' :: '(' :: (destination ++ ')' :: text)) := by
    simp
  unfold restoredLink
  simp only
  split_ifs with himage
  · exact hwhole
  · rw [h.resolve_left himage]
    exact hwhole

theorem Kept.restore (h : Kept titleAt previous parts)
    (hleads : ∀ wiki destination, .link wiki destination ∈ parts → Leads titleAt wiki destination) :
    restoreLinksAfter titleAt previous (exported parts) = authored parts := by
  induction h with
  | nil => rw [exported_nil, restoreLinksAfter, authored_nil]
  | @link previous wiki destination title after himage hopen htitle hwritten _ ih =>
      have hlead := hleads wiki destination List.mem_cons_self
      have hrest := ih fun wiki destination hmem => hleads wiki destination (List.mem_cons_of_mem _ hmem)
      have hrestored : restoredLink titleAt previous wiki.shown destination = wiki.whole := by
        unfold restoredLink
        simp only
        rw [if_neg himage, htitle]
        exact hwritten
      have hfound := inlineLink_of_eq hopen hlead.plain.no_close_shown hlead.nonempty hlead.allowed (exported after)
      rw [exported_link, restore_link hfound, hrestored, hrest]
      rfl
  | @hand previous parts after display destination hhand hleadsOff _ ih =>
      have hrest := ih fun wiki destination hmem => by
        refine hleads wiki destination (List.mem_cons_of_mem _ ?_)
        rw [hhand.parts_eq]
        exact List.mem_append_right _ hmem
      have hlink : restoreLinksAfter titleAt previous ('[' :: exported parts) =
          '[' :: (display ++ ']' :: '(' :: (destination ++ ')' :: authored after)) := by
        rw [restore_link hhand.inlineLink, restoredLink_of_leads hleadsOff, hrest]
      exact hlink.trans (congrArg ('[' :: ·) hhand.authored_eq.symm)
  | @char previous c parts hbegins _ ih =>
      have hrest := ih fun wiki destination hmem => hleads wiki destination (List.mem_cons_of_mem _ hmem)
      exact (restore_char (inlineLink_of_not_begins hbegins)).trans (congrArg (c :: ·) hrest)

/-- The link comes back with the right text only if it is kept. -/
theorem kept_link_of_restore {wiki : WikiLink} {destination : Text} {after : List Piece}
    (hleads : Leads titleAt wiki destination)
    (h : restoreLinksAfter titleAt previous (exported (.link wiki destination :: after)) =
      authored (.link wiki destination :: after)) :
    previous ≠ some '!' ∧ '[' ∉ wiki.shown ∧
      (∃ title, titleAt destination = some title ∧ authoredLink title wiki.shown = wiki.whole) ∧
      restoreLinksAfter titleAt (some ')') (exported after) = authored after := by
  have hclose := hleads.plain.no_close_shown
  have hwhole : authored (.link wiki destination :: after) =
      '[' :: '[' :: (wiki.inner ++ ']' :: ']' :: authored after) := wiki.whole_append (authored after)
  rw [exported_link, hwhole] at h
  by_cases hopen : '[' ∈ wiki.shown
  · obtain ⟨front, back, hshown, -⟩ := exists_last_of_mem hopen
    have hfront : ']' ∉ front := fun hmem => hclose (by rw [hshown]; exact List.mem_append_left _ hmem)
    have hnone : inlineLink ('[' :: (wiki.shown ++ ']' :: '(' :: (destination ++ ')' :: exported after))) = none := by
      rw [hshown, List.append_assoc]
      exact inlineLink_of_open hfront _
    rw [restore_char hnone] at h
    exact absurd (List.cons.inj h).2 (restore_inside_ne hleads (List.nil_append wiki.shown).symm _ _)
  · rw [restore_link (inlineLink_of_eq hopen hclose hleads.nonempty hleads.allowed _)] at h
    have hhand (hoff : previous = some '!' ∨ titleAt destination = none) : False := by
      rw [restoredLink_of_leads hoff] at h
      have hnext := (List.cons.inj h).2
      cases hshown : wiki.shown with
      | nil =>
          rw [hshown] at hnext
          exact absurd (List.cons.inj hnext).1 (by decide)
      | cons c text =>
          rw [hshown] at hnext hopen
          exact hopen (by rw [(List.cons.inj hnext).1]; exact List.mem_cons_self)
    rcases htitle : titleAt destination with _ | title
    · exact (hhand (.inr htitle)).elim
    · have himage : previous ≠ some '!' := fun himage => hhand (.inl himage)
      have hrestored : restoredLink titleAt previous wiki.shown destination = authoredLink title wiki.shown := by
        unfold restoredLink
        simp only
        rw [if_neg himage, htitle]
      rw [hrestored, authoredLink_append] at h
      obtain ⟨hinner, hrest⟩ := append_cons_inj_first
        (no_close_restoredInner (hleads.title title htitle).2 hclose) hleads.plain.no_close_inner
        (List.cons.inj (List.cons.inj h).2).2
      refine ⟨himage, hopen, ⟨title, rfl, ?_⟩, (List.cons.inj hrest).2⟩
      have hsame := authoredLink_append title wiki.shown []
      rw [hinner, ← wiki.whole_append [], List.append_nil, List.append_nil] at hsame
      exact hsame

/-- A link written by hand is left alone only if it leads to no entry. -/
theorem HandLink.off_of_restore {after : List Piece} {display destination : Text}
    (hhand : HandLink parts display destination after)
    (h : restoreLinksAfter titleAt previous ('[' :: exported parts) = '[' :: authored parts) :
    (previous = some '!' ∨ titleAt destination = none) ∧
      restoreLinksAfter titleAt (some ')') (exported after) = authored after := by
  rw [restore_link hhand.inlineLink, hhand.authored_eq] at h
  have hoff : previous = some '!' ∨ titleAt destination = none := by
    by_contra hon
    obtain ⟨himage, htitle⟩ := not_or.mp hon
    obtain ⟨title, htitle⟩ := Option.ne_none_iff_exists'.mp htitle
    unfold restoredLink at h
    simp only [if_neg himage, htitle] at h
    rw [authoredLink_append] at h
    -- what is shown opens no bracket, but a restored link would have two
    have hnext := (List.cons.inj h).2
    cases display with
    | nil => exact absurd (List.cons.inj hnext).1 (by decide)
    | cons c display => exact hhand.display_open (by rw [← (List.cons.inj hnext).1]; exact List.mem_cons_self)
  rw [restoredLink_of_leads hoff] at h
  exact ⟨hoff, by simpa using h⟩

/-- A link that ends inside a lore link never comes back. -/
theorem RunsInto.restore_ne {after : List Piece} {display front inside outside destination : Text} {wiki : WikiLink}
    (hinto : RunsInto parts display front inside outside wiki destination after)
    (hleads : Leads titleAt wiki destination) (hoff : titleAt (front ++ '[' :: inside) = none) :
    restoreLinksAfter titleAt previous ('[' :: exported parts) ≠ '[' :: authored parts := by
  intro h
  rw [restore_link hinto.inlineLink, restoredLink_of_leads (.inr hoff), hinto.authored_eq, wiki.whole_append] at h
  have hshown : wiki.shown = (inside ++ [')']) ++ outside := by
    rw [hinto.shown]
    simp
  have hsame : (inside ++ [')']) ++ restoreLinksAfter titleAt (some ')')
      (outside ++ ']' :: '(' :: (destination ++ ')' :: exported after)) =
        '[' :: (wiki.inner ++ ']' :: ']' :: authored after) := by
    simpa using h
  exact restore_inside_ne hleads hshown (exported after) (authored after) hsame

/-- Pieces come back as they were written exactly when they are kept. -/
theorem restore_eq_iff (hleads : ∀ wiki destination, .link wiki destination ∈ parts → Leads titleAt wiki destination)
    (hopen : ∀ destination, '[' ∈ destination → titleAt destination = none) :
    restoreLinksAfter titleAt previous (exported parts) = authored parts ↔ Kept titleAt previous parts := by
  refine ⟨fun h => ?_, fun h => h.restore hleads⟩
  induction hn : parts.length using Nat.strong_induction_on generalizing parts previous with
  | _ n ih =>
      cases parts with
      | nil => exact .nil previous
      | cons part parts =>
          have hlater := fun wiki destination hmem => hleads wiki destination (List.mem_cons_of_mem part hmem)
          have hshorter : parts.length < n := by
            rw [← hn, List.length_cons]
            omega
          cases part with
          | link wiki destination =>
              obtain ⟨himage, hshown, ⟨title, htitle, hwritten⟩, hrest⟩ :=
                kept_link_of_restore (hleads wiki destination List.mem_cons_self) h
              exact .link himage hshown htitle hwritten (ih _ hshorter hlater hrest rfl)
          | char c =>
              change restoreLinksAfter titleAt previous (c :: exported parts) = c :: authored parts at h
              by_cases hnot : c = '[' → ¬ Begins parts
              · rw [restore_char (inlineLink_of_not_begins hnot)] at h
                exact .char hnot (ih _ hshorter hlater (List.cons.inj h).2 rfl)
              · obtain ⟨rfl, hbegins⟩ := Classical.not_imp.mp hnot
                rcases not_not.mp hbegins with ⟨display, destination, after, hhand⟩ |
                  ⟨display, front, inside, outside, wiki, destination, after, hinto⟩
                · obtain ⟨hoff, hrest⟩ := hhand.off_of_restore h
                  have hparts := hhand.parts_eq
                  have hafter : after.length < n := by
                    rw [hparts, List.length_append] at hshorter
                    omega
                  have hlast := fun wiki destination hmem =>
                    hlater wiki destination (hparts ▸ List.mem_append_right _ hmem)
                  exact .hand hhand hoff (ih _ hafter hlast hrest rfl)
                · have hmem : .link wiki destination ∈ parts := by
                    rw [hinto.parts_eq]
                    exact List.mem_append_right _ List.mem_cons_self
                  have hoff := hopen (front ++ '[' :: inside) (List.mem_append_right front List.mem_cons_self)
                  exact absurd h (hinto.restore_ne (hlater wiki destination hmem) hoff)

end

end ThunderForge.Mirror
