import ThunderForge.Mirror.Incoming
import ThunderForge.Mirror.Links
import ThunderForge.Mirror.Rendering

/-! The files of an export (`lore_sync/plan.rs` and `rewrite_links_for_export` in `lore_sync/document.rs`): what a
title between double brackets leads to, and the body of each entry with the links that lead to lore as relative
links. `str::to_lowercase` and the names of what is not lore are parameters. -/

namespace ThunderForge.Mirror

/-- What a title in an entry's body turns out to point at. -/
inductive LinkTarget where
  | lore (path : Text)
  | unresolvable (kind : UnresolvableKind)
  deriving DecidableEq

/-- A match of `WIKI_LINK`: the two groups as they are written. -/
structure WikiLink where
  title : Text
  display : Option Text
  deriving DecidableEq

namespace WikiLink

/-- The whole match. -/
def whole (link : WikiLink) : Text :=
  "[[".toList ++ link.title ++ (link.display.map ('|' :: ·)).getD [] ++ "]]".toList

/-- The title that is looked up. -/
def target (link : WikiLink) : Text := trimChars link.title

/-- The text that is shown. -/
def shown (link : WikiLink) : Text := (link.display.map trimChars).getD link.target

end WikiLink

/-- A match of `WIKI_LINK` at the start of a text, and the text after it. -/
def wikiLink : Text → Option (WikiLink × Text)
  | '[' :: '[' :: text =>
    let title := text.takeWhile fun c => c ≠ ']' ∧ c ≠ '|'
    if title = [] then none
    else
      match text.drop title.length with
      | ']' :: ']' :: after => some ({ title, display := none }, after)
      | '|' :: text =>
        let display := text.takeWhile (· ≠ ']')
        if display = [] then none
        else
          match text.drop display.length with
          | ']' :: ']' :: after => some ({ title, display := some display }, after)
          | _ => none
      | _ => none
  | _ => none

/-- What a match is made of. -/
structure WikiLink.Plain (link : WikiLink) : Prop where
  title_close : ']' ∉ link.title
  title_bar : '|' ∉ link.title
  display : ∀ display ∈ link.display, ']' ∉ display

theorem drop_length_takeWhile (p : Char → Bool) (text : Text) :
    text = text.takeWhile p ++ text.drop (text.takeWhile p).length := by
  induction text with
  | nil => rfl
  | cons c text ih =>
      rw [List.takeWhile_cons]
      split_ifs
      · rw [List.length_cons, List.drop_succ_cons, List.cons_append, ← ih]
      · rfl

theorem wikiLink_eq_some {text after : Text} {link : WikiLink} (h : wikiLink text = some (link, after)) :
    text = link.whole ++ after ∧ link.Plain := by
  have hall (p : Char → Bool) (text : Text) {c : Char} (hc : c ∈ text.takeWhile p) : p c = true :=
    List.mem_takeWhile_imp hc
  unfold wikiLink at h
  split at h
  · next text =>
    have htext := drop_length_takeWhile (fun c => decide (c ≠ ']' ∧ c ≠ '|')) text
    have htitle {c : Char} (hc : c ∈ text.takeWhile fun c => decide (c ≠ ']' ∧ c ≠ '|')) : c ≠ ']' ∧ c ≠ '|' :=
      of_decide_eq_true (hall _ text hc)
    simp only at h
    split_ifs at h
    split at h
    · next rest hrest =>
      cases h
      refine ⟨?_, fun hmem => (htitle hmem).1 rfl, fun hmem => (htitle hmem).2 rfl, fun display hnone => nomatch hnone⟩
      rw [hrest] at htext
      refine (congrArg ("[[".toList ++ ·) htext).trans ?_
      simp [WikiLink.whole]
    · next rest hrest =>
      have hdisplay := drop_length_takeWhile (fun c => decide (c ≠ ']')) rest
      split_ifs at h
      split at h
      · next after hafter =>
        cases h
        refine ⟨?_, fun hmem => (htitle hmem).1 rfl, fun hmem => (htitle hmem).2 rfl, fun display hsome => ?_⟩
        · rw [hafter] at hdisplay
          rw [hrest, congrArg ('|' :: ·) hdisplay] at htext
          refine (congrArg ("[[".toList ++ ·) htext).trans ?_
          simp [WikiLink.whole]
        · rw [Option.mem_some_iff] at hsome
          subst hsome
          exact fun hmem => of_decide_eq_true (hall _ rest hmem) rfl
      · cases h
    · cases h
  · cases h

theorem wikiLink_length {text after : Text} {link : WikiLink} (h : wikiLink text = some (link, after)) :
    after.length < text.length := by
  have htext := congrArg List.length (wikiLink_eq_some h).1
  rw [List.length_append, WikiLink.whole, List.length_append] at htext
  have hclose : "]]".toList.length = 2 := rfl
  omega

/-- A lore link as a repository holds it. -/
def inlineForm (shown destination : Text) : Text :=
  "[".toList ++ shown ++ "](".toList ++ destination ++ ")".toList

/-- `rewrite_links_for_export`, with the losses found so far. -/
def rewriteLinks (selfPath : Text) (resolve : Text → Option LinkTarget) (found : List UnresolvableLink)
    (markdown : Text) : Text × List UnresolvableLink :=
  match markdown with
  | [] => ([], found)
  | c :: text =>
    match _h : wikiLink (c :: text) with
    | none =>
      let (body, found) := rewriteLinks selfPath resolve found text
      (c :: body, found)
    | some (link, after) =>
      match resolve link.target with
      | some (.lore path) =>
        let (body, found) := rewriteLinks selfPath resolve found after
        (inlineForm link.shown (relativeLink selfPath path) ++ body, found)
      | some (.unresolvable kind) =>
        let lost : UnresolvableLink := { text := link.target, kind }
        let (body, found) := rewriteLinks selfPath resolve (if lost ∈ found then found else found ++ [lost]) after
        (link.whole ++ body, found)
      | none =>
        let (body, found) := rewriteLinks selfPath resolve found after
        (link.whole ++ body, found)
termination_by markdown.length
decreasing_by
  all_goals first
    | exact wikiLink_length _h
    | simp

def rewriteLinksForExport (markdown selfPath : Text) (resolve : Text → Option LinkTarget) :
    Text × List UnresolvableLink := rewriteLinks selfPath resolve [] markdown

/-- `str::eq_ignore_ascii_case` -/
def eqIgnoreAsciiCase (left right : Text) : Bool := left.map Char.toLower = right.map Char.toLower

/-- How a title between double brackets resolves for export. -/
def resolveLink (assigned : Uuid → Option AssignedPath) (nodes : List EntryNode) (lowercase : Text → Text)
    (nonLore : Text → Option UnresolvableKind) (target : Text) : Option LinkTarget :=
  let needle := trimChars target
  match (nodes.find? fun node => eqIgnoreAsciiCase node.title.toList needle).bind fun node => assigned node.id with
  | some place => some (.lore place.path)
  | none => (nonLore (lowercase needle)).map .unresolvable

/-- A lore entry of a world. -/
structure LoreEntry where
  id : Uuid
  parentId : Option Uuid
  title : String
  content : Text
  updatedAt : Instant
  tags : List Text

def LoreEntry.node (entry : LoreEntry) : EntryNode := { id := entry.id, parentId := entry.parentId, title := entry.title }

/-- What an export rests on that is not here. -/
structure Surroundings where
  slugify : String → Name
  lowercase : Text → Text
  nonLore : Text → Option UnresolvableKind
  writers : Writers

section

variable (around : Surroundings) (entries : List LoreEntry)

/-- The places of the entries. -/
def places : Uuid → Option AssignedPath := mapEntryPaths around.slugify (entries.map LoreEntry.node)

/-- The path of an entry's file. -/
def filePathOf (entry : LoreEntry) : Text := ((places around entries entry.id).map AssignedPath.path).getD []

def exportedLinks (entry : LoreEntry) : Text × List UnresolvableLink :=
  rewriteLinksForExport entry.content (filePathOf around entries entry)
    (resolveLink (places around entries) (entries.map LoreEntry.node) around.lowercase around.nonLore)

/-- The file of an entry, which has a path. -/
def plannedFile (entry : LoreEntry) : RepositoryFile where
  path := filePathOf around entries entry
  contents :=
    let (body, unresolvable) := exportedLinks around entries entry
    render around.writers
      { id := entry.id, title := entry.title.toList, tags := entry.tags, updated := entry.updatedAt,
        unresolvableLinks := unresolvable } body

end

end ThunderForge.Mirror
