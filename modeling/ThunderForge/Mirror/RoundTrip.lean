import ThunderForge.Mirror.Exporting

/-! The links of a body to a repository and back. An authored body is cut into the lore links that are exported
and the characters between them; the way back finds the links it wrote, and perhaps others, and brings the body
back exactly when every lore link is written as it writes one and every other inline link leads elsewhere. -/

namespace ThunderForge.Mirror

/-- A piece of an authored body: a character, or a lore link and the destination it is exported with. -/
inductive Piece where
  | char (c : Char)
  | link (wiki : WikiLink) (destination : Text)

/-- The piece as its author wrote it. -/
def Piece.authored : Piece → Text
  | char c => [c]
  | link wiki _ => wiki.whole

/-- The piece as it is exported. -/
def Piece.exported : Piece → Text
  | char c => [c]
  | link wiki destination => inlineForm wiki.shown destination

/-- A body cut into pieces. -/
def pieces (destinationOf : Text → Option Text) (body : Text) : List Piece :=
  match body with
  | [] => []
  | c :: text =>
    match _h : wikiLink (c :: text) with
    | none => .char c :: pieces destinationOf text
    | some (link, after) =>
      match destinationOf link.target with
      | some destination => .link link destination :: pieces destinationOf after
      | none => link.whole.map .char ++ pieces destinationOf after
termination_by body.length
decreasing_by
  all_goals first
    | exact wikiLink_length _h
    | simp

/-- What the author wrote and what is exported, of pieces. -/
def authored (parts : List Piece) : Text := parts.flatMap Piece.authored

def exported (parts : List Piece) : Text := parts.flatMap Piece.exported

@[simp] theorem authored_nil : authored [] = [] := rfl

@[simp] theorem exported_nil : exported [] = [] := rfl

@[simp] theorem authored_cons (part : Piece) (parts : List Piece) :
    authored (part :: parts) = part.authored ++ authored parts := rfl

@[simp] theorem exported_cons (part : Piece) (parts : List Piece) :
    exported (part :: parts) = part.exported ++ exported parts := rfl

theorem authored_map_char (text : Text) (parts : List Piece) :
    authored (text.map .char ++ parts) = text ++ authored parts := by
  induction text with
  | nil => rfl
  | cons c text ih => rw [List.map_cons, List.cons_append, authored_cons, ih, List.cons_append]; rfl

theorem exported_map_char (text : Text) (parts : List Piece) :
    exported (text.map .char ++ parts) = text ++ exported parts := by
  induction text with
  | nil => rfl
  | cons c text ih => rw [List.map_cons, List.cons_append, exported_cons, ih, List.cons_append]; rfl

section

variable {destinationOf : Text → Option Text} {c : Char} {text after : Text} {wiki : WikiLink}

theorem pieces_char (h : wikiLink (c :: text) = none) :
    pieces destinationOf (c :: text) = .char c :: pieces destinationOf text := by
  rw [pieces, h]

theorem pieces_lore (h : wikiLink (c :: text) = some (wiki, after)) {destination : Text}
    (hdestination : destinationOf wiki.target = some destination) :
    pieces destinationOf (c :: text) = .link wiki destination :: pieces destinationOf after := by
  rw [pieces, h]
  simp only [hdestination]

theorem pieces_other (h : wikiLink (c :: text) = some (wiki, after)) (hdestination : destinationOf wiki.target = none) :
    pieces destinationOf (c :: text) = wiki.whole.map .char ++ pieces destinationOf after := by
  rw [pieces, h]
  simp only [hdestination]

/-- The pieces of a body make it up. -/
theorem authored_pieces (destinationOf : Text → Option Text) (body : Text) :
    authored (pieces destinationOf body) = body := by
  induction body using pieces.induct destinationOf with
  | case1 => rw [pieces]; rfl
  | case2 c text hnone ih =>
      rw [pieces_char hnone]
      exact congrArg (c :: ·) ih
  | case3 c text wiki after hwiki destination hdestination ih =>
      rw [pieces_lore hwiki hdestination, (wikiLink_eq_some hwiki).1]
      exact congrArg (wiki.whole ++ ·) ih
  | case4 c text wiki after hwiki hdestination ih =>
      rw [pieces_other hwiki hdestination, authored_map_char, ih, (wikiLink_eq_some hwiki).1]

end

/-- The destination a lore link is exported with. -/
def loreDestination (selfPath : Text) (resolve : Text → Option LinkTarget) (target : Text) : Option Text :=
  match resolve target with
  | some (.lore path) => some (relativeLink selfPath path)
  | _ => none

/-- The pieces are exported as the links of the body are rewritten. -/
theorem rewriteLinks_eq (selfPath : Text) (resolve : Text → Option LinkTarget) (found : List UnresolvableLink)
    (body : Text) :
    (rewriteLinks selfPath resolve found body).1 = exported (pieces (loreDestination selfPath resolve) body) := by
  induction found, body using rewriteLinks.induct selfPath resolve with
  | case1 found => rw [rewriteLinks, pieces]; rfl
  | case2 found c text hnone _ _ _ ih =>
      rw [rewriteLinks, pieces_char hnone, hnone]
      exact congrArg (c :: ·) ih
  | case3 found c text wiki after hwiki path hresolve _ _ _ ih =>
      have hdestination : loreDestination selfPath resolve wiki.target = some (relativeLink selfPath path) := by
        rw [loreDestination, hresolve]
      rw [rewriteLinks, pieces_lore hwiki hdestination, hwiki]
      simp only [hresolve]
      exact congrArg (inlineForm wiki.shown (relativeLink selfPath path) ++ ·) ih
  | case4 found c text wiki after hwiki kind hresolve lost _ _ _ ih =>
      have hdestination : loreDestination selfPath resolve wiki.target = none := by rw [loreDestination, hresolve]
      rw [rewriteLinks, pieces_other hwiki hdestination, hwiki, exported_map_char]
      simp only [hresolve]
      exact congrArg (wiki.whole ++ ·) ih
  | case5 found c text wiki after hwiki hresolve _ _ _ ih =>
      have hdestination : loreDestination selfPath resolve wiki.target = none := by rw [loreDestination, hresolve]
      rw [rewriteLinks, pieces_other hwiki hdestination, hwiki, exported_map_char]
      simp only [hresolve]
      exact congrArg (wiki.whole ++ ·) ih

end ThunderForge.Mirror
