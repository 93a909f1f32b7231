import ThunderForge.Mirror.KeptLinks
import ThunderForge.Mirror.PathText
import ThunderForge.Mirror.Proposals
import Mathlib.Data.List.DropRight

/-! An export that nobody has touched, and what is read back from it. -/

namespace ThunderForge.Mirror

/-! Titles. -/

theorem trimChars_trimChars (text : Text) : trimChars (trimChars text) = trimChars text := by
  have htrim (text : Text) : trimChars text = (text.dropWhile isWhitespace).rdropWhile isWhitespace := rfl
  have hfront : (trimChars text).dropWhile isWhitespace = trimChars text := by
    obtain ⟨rest, hrest⟩ : trimChars text <+: text.dropWhile isWhitespace := List.rdropWhile_prefix isWhitespace _
    cases htrimmed : trimChars text with
    | nil => rfl
    | cons c back =>
        rw [htrimmed, List.cons_append] at hrest
        have hsame : (text.dropWhile isWhitespace).dropWhile isWhitespace = text.dropWhile isWhitespace :=
          List.dropWhile_idempotent _ _
        rw [← hrest, List.dropWhile_cons] at hsame
        split_ifs at hsame with hc
        · have hlength := congrArg List.length hsame
          have hle := (List.dropWhile_sublist isWhitespace (l := back ++ rest)).length_le
          rw [List.length_cons] at hlength
          omega
        · exact List.dropWhile_cons_of_neg hc
  rw [htrim (trimChars text), hfront, htrim text, List.rdropWhile_idempotent]

theorem toLower_eq_close {c : Char} (h : c.toLower = ']') : c = ']' := by
  unfold Char.toLower at h
  split at h
  · next hupper =>
    have hval := congrArg (fun c => c.val.toNat) h
    have hlow := UInt32.le_iff_toNat_le.mp hupper.1
    have hhigh := UInt32.le_iff_toNat_le.mp hupper.2
    simp at hval hlow hhigh
    omega
  · exact h

/-- Titles that are the same but for the case of ASCII letters. -/
theorem eqIgnoreAsciiCase_spec {left right : Text} (h : eqIgnoreAsciiCase left right = true) (hright : ']' ∉ right) :
    left.length = right.length ∧ ']' ∉ left := by
  have hlower : left.map Char.toLower = right.map Char.toLower := of_decide_eq_true h
  refine ⟨by simpa using congrArg List.length hlower, fun hmem => ?_⟩
  have hclose : ']' ∈ left.map Char.toLower := List.mem_map.mpr ⟨']', hmem, by decide⟩
  rw [hlower] at hclose
  obtain ⟨c, hc, heq⟩ := List.mem_map.mp hclose
  exact hright (toLower_eq_close heq ▸ hc)

theorem mem_pieces {destinationOf : Text → Option Text} {body : Text} {wiki : WikiLink} {destination : Text}
    (h : .link wiki destination ∈ pieces destinationOf body) :
    wiki.Plain ∧ destinationOf wiki.target = some destination := by
  induction body using pieces.induct destinationOf with
  | case1 =>
      rw [pieces] at h
      cases h
  | case2 c text hnone ih =>
      rw [pieces_char hnone] at h
      rcases List.mem_cons.mp h with heq | h
      · cases heq
      · exact ih h
  | case3 c text wiki' after hwiki destination' hdestination ih =>
      rw [pieces_lore hwiki hdestination] at h
      rcases List.mem_cons.mp h with heq | h
      · cases heq
        exact ⟨(wikiLink_eq_some hwiki).2, hdestination⟩
      · exact ih h
  | case4 c text wiki' after hwiki hdestination ih =>
      rw [pieces_other hwiki hdestination] at h
      rcases List.mem_append.mp h with hchar | h
      · obtain ⟨c, -, heq⟩ := List.mem_map.mp hchar
        cases heq
      · exact ih h

theorem loreDestination_eq_some {assigned : Uuid → Option AssignedPath} {nodes : List EntryNode}
    {lowercase : Text → Text} {nonLore : Text → Option UnresolvableKind} {selfPath target destination : Text}
    (h : loreDestination selfPath (resolveLink assigned nodes lowercase nonLore) target = some destination) :
    ∃ node ∈ nodes, ∃ place, assigned node.id = some place ∧
      eqIgnoreAsciiCase node.title.toList (trimChars target) = true ∧
        relativeLink selfPath place.path = destination := by
  unfold loreDestination resolveLink at h
  simp only at h
  cases hplace : (nodes.find? fun node => eqIgnoreAsciiCase node.title.toList (trimChars target)).bind fun node =>
      assigned node.id with
  | some place =>
      rw [hplace] at h
      obtain ⟨node, hnode, hassigned⟩ := Option.bind_eq_some_iff.mp hplace
      have hmatch := List.find?_some hnode
      exact ⟨node, List.mem_of_find?_eq_some hnode, place, hassigned, hmatch, Option.some.inj h⟩
  | none =>
      rw [hplace] at h
      cases hkind : nonLore (lowercase (trimChars target)) with
      | none =>
          rw [hkind] at h
          cases h
      | some kind =>
          rw [hkind] at h
          cases h

/-- What is looked up in a list where all that is found says the same. -/
theorem find?_map_eq_some {α β : Type} {p : α → Bool} {f : α → β} {items : List α} {value : β}
    (hsame : ∀ a ∈ items, ∀ b ∈ items, p a = true → p b = true → f a = f b) :
    (items.find? p).map f = some value ↔ ∃ a ∈ items, p a = true ∧ f a = value := by
  constructor
  · intro h
    obtain ⟨a, ha, hvalue⟩ := Option.map_eq_some_iff.mp h
    exact ⟨a, List.mem_of_find?_eq_some ha, List.find?_some ha, hvalue⟩
  · rintro ⟨a, ha, hp, rfl⟩
    cases hfound : items.find? p with
    | none => exact absurd hp (List.find?_eq_none.mp hfound a ha)
    | some b =>
        rw [Option.map_some, hsame b (List.mem_of_find?_eq_some hfound) a ha (List.find?_some hfound) hp]

/-! The entries of a world, and the links between their files. -/

section

variable {around : Surroundings} {entries : List LoreEntry} {entry other : LoreEntry}

theorem nodup_nodes (hids : (entries.map LoreEntry.id).Nodup) :
    ((entries.map LoreEntry.node).map EntryNode.id).Nodup := by
  rw [List.map_map]
  exact hids

theorem places_eq (hslug : Slugs around.slugify) (hids : (entries.map LoreEntry.id).Nodup) (hentry : entry ∈ entries) :
    ∃ place, places around entries entry.id = some place ∧ place.path = filePathOf around entries entry := by
  have hmem : entry.id ∈ (entries.map LoreEntry.node).map EntryNode.id :=
    List.mem_map_of_mem (f := EntryNode.id) (List.mem_map_of_mem (f := LoreEntry.node) hentry)
  exact Option.map_eq_some_iff.mp (mapEntryPaths_isSome hslug.text (nodup_nodes hids) hmem)

theorem filePathOf_plain (hslug : Slugs around.slugify) (hids : (entries.map LoreEntry.id).Nodup)
    (hentry : entry ∈ entries) :
    PathText (filePathOf around entries entry) ∧ PlainPath (filePathOf around entries entry) := by
  obtain ⟨place, hplace, hpath⟩ := places_eq hslug hids hentry
  rw [← hpath]
  exact mapEntryPaths_plain hslug hplace

/-- No two entries have one file. -/
theorem filePathOf_inj (hslug : Slugs around.slugify) (hids : (entries.map LoreEntry.id).Nodup)
    (hentry : entry ∈ entries) (hother : other ∈ entries)
    (h : filePathOf around entries entry = filePathOf around entries other) : entry = other := by
  have hin {entry : LoreEntry} (hentry : entry ∈ entries) : entry.id ∈ orderIds (entries.map LoreEntry.node) :=
    mem_orderIds.mpr (List.mem_map_of_mem (f := EntryNode.id) (List.mem_map_of_mem (f := LoreEntry.node) hentry))
  have hid : entry.id = other.id :=
    (allocation_paths hslug.text (nodup_nodes hids)).injective (hin hentry) (hin hother) h
  exact List.inj_on_of_nodup_map hids hentry hother hid

/-- No two files are led to by one link. -/
theorem links_inj (hslug : Slugs around.slugify) (hids : (entries.map LoreEntry.id).Nodup) (hentry : entry ∈ entries)
    (hother : other ∈ entries) {selfPath : Text}
    (h : relativeLink selfPath (filePathOf around entries entry) =
      relativeLink selfPath (filePathOf around entries other)) : entry = other :=
  filePathOf_inj hslug hids hentry hother ((relativeLinks_lead selfPath).2 _ _ (filePathOf_plain hslug hids hentry).2
    (filePathOf_plain hslug hids hother).2 h)

/-- The title of the other entry whose file a link in this entry's file leads to. -/
def titleBehind (around : Surroundings) (entries : List LoreEntry) (entry : LoreEntry) (destination : Text) :
    Option Text :=
  let leads (other : LoreEntry) : Bool :=
    other.id ≠ entry.id ∧
      relativeLink (filePathOf around entries entry) (filePathOf around entries other) = destination
  (entries.find? leads).map fun other => other.title.toList

theorem titleBehind_eq_some (hslug : Slugs around.slugify) (hids : (entries.map LoreEntry.id).Nodup)
    {destination title : Text} :
    titleBehind around entries entry destination = some title ↔
      ∃ other ∈ entries, other.id ≠ entry.id ∧
        relativeLink (filePathOf around entries entry) (filePathOf around entries other) = destination ∧
        other.title.toList = title := by
  unfold titleBehind
  simp only
  rw [find?_map_eq_some]
  · simp only [decide_eq_true_iff, and_assoc]
  · intro left hleft right hright hl hr
    rw [decide_eq_true_iff] at hl hr
    rw [links_inj hslug hids hleft hright (hl.2.trans hr.2.symm)]

/-- The pieces of an entry's body. -/
def bodyPieces (around : Surroundings) (entries : List LoreEntry) (entry : LoreEntry) : List Piece :=
  pieces (loreDestination (filePathOf around entries entry) (resolveLink (places around entries)
    (entries.map LoreEntry.node) around.lowercase around.nonLore)) entry.content

theorem leads_bodyPieces (hslug : Slugs around.slugify) (hids : (entries.map LoreEntry.id).Nodup)
    {wiki : WikiLink} {destination : Text} (h : .link wiki destination ∈ bodyPieces around entries entry) :
    Leads (titleBehind around entries entry) wiki destination := by
  obtain ⟨hplain, hdestination⟩ := mem_pieces h
  obtain ⟨node, hnode, place, hplace, hmatch, rfl⟩ := loreDestination_eq_some hdestination
  obtain ⟨target, htarget, rfl⟩ := List.mem_map.mp hnode
  obtain ⟨place', hplace', hpath⟩ := places_eq hslug hids htarget
  have hsame : place.path = filePathOf around entries target := by
    have heq : place = place' := Option.some.inj (hplace.symm.trans hplace')
    rw [heq, hpath]
  rw [hsame]
  obtain ⟨htext, hplainPath⟩ := filePathOf_plain hslug hids htarget
  obtain ⟨hlinkText, hne⟩ := relativeLink_text (filePathOf around entries entry) htext hplainPath
  refine ⟨hplain, hne, fun c hc => (hlinkText.allowed c hc).1, fun hmem => (hlinkText.allowed _ hmem).2 rfl, ?_⟩
  intro title htitle
  obtain ⟨other, hother, -, hlink, rfl⟩ := (titleBehind_eq_some hslug hids).mp htitle
  rw [links_inj hslug hids hother htarget hlink]
  have htrim : trimChars wiki.target = wiki.target := trimChars_trimChars wiki.title
  rw [htrim] at hmatch
  exact eqIgnoreAsciiCase_spec hmatch fun hmem => hplain.title_close (mem_of_mem_trimChars hmem)

theorem titleBehind_of_open (hslug : Slugs around.slugify) (hids : (entries.map LoreEntry.id).Nodup)
    {destination : Text} (hopen : '[' ∈ destination) : titleBehind around entries entry destination = none := by
  rw [Option.eq_none_iff_forall_ne_some]
  intro title htitle
  obtain ⟨other, hother, -, rfl, -⟩ := (titleBehind_eq_some hslug hids).mp htitle
  obtain ⟨htext, hplain⟩ := filePathOf_plain hslug hids hother
  exact ((relativeLink_text _ htext hplain).1.allowed _ hopen).2 rfl

/-- A body that comes back: its pieces are kept, for the titles behind the links of the entry's file. -/
def BodyKept (around : Surroundings) (entries : List LoreEntry) (entry : LoreEntry) : Prop :=
  Kept (titleBehind around entries entry) none (bodyPieces around entries entry)

theorem restoreLinks_iff (hslug : Slugs around.slugify) (hids : (entries.map LoreEntry.id).Nodup) :
    restoreLinks (exportedLinks around entries entry).1 (titleBehind around entries entry) = entry.content ↔
      BodyKept around entries entry := by
  have hexported : (exportedLinks around entries entry).1 = exported (bodyPieces around entries entry) :=
    rewriteLinks_eq _ _ _ _
  have hauthored : authored (bodyPieces around entries entry) = entry.content := authored_pieces _ _
  rw [restoreLinks, hexported]
  conv_lhs => rw [← hauthored]
  exact restore_eq_iff (fun _ _ h => leads_bodyPieces hslug hids h) fun _ h => titleBehind_of_open hslug hids h

/-! What is read back. -/

/-- What the world says of an entry that has been exported. -/
structure Standing where
  exportedRevisionId : Option Uuid
  currentRevisionId : Option Uuid
  currentBody : Text

/-- What is known of an entry that was exported with the body it was written with. -/
def exportedEntry (around : Surroundings) (entries : List LoreEntry) (standing : Uuid → Standing) (entry : LoreEntry) :
    ExportedEntry where
  loreEntryId := entry.id
  title := entry.title.toList
  currentPath := filePathOf around entries entry
  exportedRevisionId := (standing entry.id).exportedRevisionId
  exportedBody := entry.content
  currentRevisionId := (standing entry.id).currentRevisionId
  currentBody := (standing entry.id).currentBody

variable {standing : Uuid → Standing} {exported : List ExportedEntry}

/-- The links and titles that the way back knows of. -/
theorem mem_destinations (hslug : Slugs around.slugify) (hids : (entries.map LoreEntry.id).Nodup)
    (hexported : exported.Perm (entries.map (exportedEntry around entries standing))) (hentry : entry ∈ entries)
    {pair : Text × Text} :
    (pair ∈ (exported.filter fun row => row.currentPath ≠ filePathOf around entries entry).map fun row =>
      (relativeLink (filePathOf around entries entry) row.currentPath, row.title)) ↔
      ∃ other ∈ entries, other.id ≠ entry.id ∧
        pair =
          (relativeLink (filePathOf around entries entry) (filePathOf around entries other), other.title.toList) := by
  rw [List.mem_map]
  constructor
  · rintro ⟨row, hrow, rfl⟩
    obtain ⟨hin, hpath⟩ := List.mem_filter.mp hrow
    obtain ⟨other, hother, rfl⟩ := List.mem_map.mp (hexported.mem_iff.mp hin)
    refine ⟨other, hother, fun hid => of_decide_eq_true hpath ?_, rfl⟩
    rw [List.inj_on_of_nodup_map hids hother hentry hid]
    rfl
  · rintro ⟨other, hother, hid, rfl⟩
    refine ⟨exportedEntry around entries standing other, List.mem_filter.mpr ⟨?_, ?_⟩, rfl⟩
    · exact hexported.mem_iff.mpr (List.mem_map_of_mem hother)
    · exact decide_eq_true fun hpath => hid (congrArg LoreEntry.id (filePathOf_inj hslug hids hother hentry hpath))

/-- The links are restored by the titles behind them. -/
theorem restoreAuthoredLinks_eq (hslug : Slugs around.slugify) (hids : (entries.map LoreEntry.id).Nodup)
    (hexported : exported.Perm (entries.map (exportedEntry around entries standing))) (hentry : entry ∈ entries)
    (body : Text) :
    restoreAuthoredLinks body (filePathOf around entries entry) exported =
      restoreLinks body (titleBehind around entries entry) := by
  unfold restoreAuthoredLinks
  simp only
  congr 1
  funext destination
  ext title
  rw [find?_map_eq_some, titleBehind_eq_some hslug hids]
  · constructor
    · rintro ⟨pair, hpair, hlink, htitle⟩
      obtain ⟨other, hother, hid, hpairEq⟩ :=
        (mem_destinations hslug hids hexported hentry).mp (List.mem_reverse.mp hpair)
      rw [hpairEq] at hlink htitle
      exact ⟨other, hother, hid, decide_eq_true_iff.mp hlink, htitle⟩
    · rintro ⟨other, hother, hid, hlink, htitle⟩
      have hpair := (mem_destinations hslug hids hexported hentry).mpr ⟨other, hother, hid, rfl⟩
      exact ⟨_, List.mem_reverse.mpr hpair, decide_eq_true_iff.mpr hlink, htitle⟩
  · intro left hleft right hright hl hr
    obtain ⟨first, hfirst, -, hleftEq⟩ :=
      (mem_destinations hslug hids hexported hentry).mp (List.mem_reverse.mp hleft)
    obtain ⟨second, hsecond, -, hrightEq⟩ :=
      (mem_destinations hslug hids hexported hentry).mp (List.mem_reverse.mp hright)
    rw [hleftEq] at hl ⊢
    rw [hrightEq] at hr ⊢
    simp only [decide_eq_true_iff] at hl hr
    have hsame : first = second := links_inj hslug hids hfirst hsecond (hl.trans hr.symm)
    rw [hsame]

/-- An entry's identifier and time are written as plain text and read back. -/
structure ReadsBack (readers : Readers) (writers : Writers) (entry : LoreEntry) : Prop where
  id_plain : PlainText (writers.uuid entry.id)
  id_back : readers.uuid (writers.uuid entry.id) = .ok entry.id
  updated_plain : PlainText (writers.rfc3339 entry.updatedAt)
  updated_back : readers.rfc3339 (writers.rfc3339 entry.updatedAt) = .ok (wholeSeconds entry.updatedAt)

variable {readers : Readers} {withheld : List Uuid}

/-- The file of an entry carries its identifier and its body. -/
theorem parse_plannedFile (entries : List LoreEntry) (hreads : ReadsBack readers around.writers entry) :
    ∃ header, header.id = entry.id ∧ parse readers (plannedFile around entries entry).contents =
      .ok { header, body := (exportedLinks around entries entry).1 } :=
  ⟨_, rfl, parse_render hreads.id_plain hreads.updated_plain hreads.id_back hreads.updated_back _⟩

theorem nodup_exported (hids : (entries.map LoreEntry.id).Nodup)
    (hexported : exported.Perm (entries.map (exportedEntry around entries standing))) :
    (exported.map ExportedEntry.loreEntryId).Nodup := by
  rw [(hexported.map ExportedEntry.loreEntryId).nodup_iff, List.map_map]
  exact hids

/-- The file of an entry proposes nothing exactly when the entry is withheld, or what is restored is a body it has. -/
theorem changeOf_plannedFile (hslug : Slugs around.slugify) (hids : (entries.map LoreEntry.id).Nodup)
    (hexported : exported.Perm (entries.map (exportedEntry around entries standing))) (hentry : entry ∈ entries)
    (hreads : ReadsBack readers around.writers entry) :
    changeOf readers exported withheld (plannedFile around entries entry) = none ↔
      entry.id ∈ withheld ∨ BodyKept around entries entry ∨
        restoreLinks (exportedLinks around entries entry).1 (titleBehind around entries entry) =
          (standing entry.id).currentBody := by
  obtain ⟨header, hid, hparse⟩ := parse_plannedFile entries hreads
  have hfound : entryById exported entry.id = some (exportedEntry around entries standing entry) :=
    entryById_of_mem (nodup_exported hids hexported) (hexported.mem_iff.mpr (List.mem_map_of_mem hentry))
  have hrestored : restoreAuthoredLinks (exportedLinks around entries entry).1 (plannedFile around entries entry).path
      exported = restoreLinks (exportedLinks around entries entry).1 (titleBehind around entries entry) :=
    restoreAuthoredLinks_eq hslug hids hexported hentry _
  unfold changeOf
  rw [hparse]
  simp only
  rw [hid, hfound, hrestored, ← restoreLinks_iff hslug hids]
  simp only
  split_ifs with hwithheld hsame
  · exact iff_of_true rfl (.inl hwithheld)
  · exact iff_of_true rfl (.inr hsame)
  · exact iff_of_false nofun (not_or.mpr ⟨hwithheld, hsame⟩)

/-- Every entry is accounted for by its file. -/
theorem missing_plannedFiles (hids : (entries.map LoreEntry.id).Nodup) {files : List RepositoryFile}
    (hfiles : files.Perm (entries.map (plannedFile around entries)))
    (hexported : exported.Perm (entries.map (exportedEntry around entries standing)))
    (hreads : ∀ entry ∈ entries, ReadsBack readers around.writers entry) :
    missing readers exported withheld files = [] := by
  rw [List.eq_nil_iff_forall_not_mem]
  intro row hrow
  have hin : row ∈ exported := List.mem_of_mem_filter hrow
  obtain ⟨entry, hentry, rfl⟩ := List.mem_map.mp (hexported.mem_iff.mp hin)
  obtain ⟨header, hid, hparse⟩ := parse_plannedFile entries (hreads entry hentry)
  have hrestored : restored readers exported (plannedFile around entries entry) = some (entry.id,
      restoreAuthoredLinks (exportedLinks around entries entry).1 (filePathOf around entries entry) exported) := by
    unfold restored
    rw [hparse]
    simp only
    rw [hid]
    rfl
  have hunmatched := ((mem_missing (nodup_exported hids hexported) hin).mp hrow).2
  exact hunmatched _ (hfiles.mem_iff.mpr (List.mem_map_of_mem hentry)) _ hrestored

/-- An export that nobody has touched proposes nothing, whatever the entries say by now. -/
def ProposesNothing (readers : Readers) (around : Surroundings) (entries : List LoreEntry) (withheld : List Uuid) :
    Prop :=
  ∀ (standing : Uuid → Standing) (files : List RepositoryFile) (exported : List ExportedEntry),
    files.Perm (entries.map (plannedFile around entries)) →
    exported.Perm (entries.map (exportedEntry around entries standing)) →
    detect readers exported withheld files = []

/-- The body of an entry is restored from its file. -/
def ComesBack (around : Surroundings) (entries : List LoreEntry) (entry : LoreEntry) : Prop :=
  ∀ (standing : Uuid → Standing) (exported : List ExportedEntry),
    exported.Perm (entries.map (exportedEntry around entries standing)) →
    restoreAuthoredLinks (exportedLinks around entries entry).1 (filePathOf around entries entry) exported =
      entry.content

theorem comesBack_iff (hslug : Slugs around.slugify) (hids : (entries.map LoreEntry.id).Nodup)
    (hentry : entry ∈ entries) : ComesBack around entries entry ↔ BodyKept around entries entry := by
  rw [← restoreLinks_iff hslug hids]
  constructor
  · intro h
    let standing : Uuid → Standing := fun _ => ⟨none, none, []⟩
    have hrows := List.Perm.refl (entries.map (exportedEntry around entries standing))
    rw [← restoreAuthoredLinks_eq hslug hids hrows hentry]
    exact h standing _ hrows
  · intro h standing exported hexported
    rw [restoreAuthoredLinks_eq hslug hids hexported hentry, h]

/-- An untouched export proposes nothing exactly when the body of every entry that is not withheld is kept. -/
theorem proposesNothing_iff (hslug : Slugs around.slugify) (hids : (entries.map LoreEntry.id).Nodup)
    (hreads : ∀ entry ∈ entries, ReadsBack readers around.writers entry) :
    ProposesNothing readers around entries withheld ↔
      ∀ entry ∈ entries, entry.id ∈ withheld ∨ BodyKept around entries entry := by
  refine ⟨fun h entry hentry => ?_, fun h standing files exported hfiles hexported => ?_⟩
  · -- nothing has been written since the export
    let standing : Uuid → Standing := fun id =>
      ⟨none, none, ((entries.find? fun entry => entry.id = id).map LoreEntry.content).getD []⟩
    have hcurrent : (standing entry.id).currentBody = entry.content := by
      have hfound : (entries.find? fun other => other.id = entry.id).map LoreEntry.content = some entry.content := by
        rw [find?_map_eq_some]
        · exact ⟨entry, hentry, decide_eq_true rfl, rfl⟩
        · intro left hleft right hright hl hr
          rw [decide_eq_true_iff] at hl hr
          rw [List.inj_on_of_nodup_map hids hleft hright (hl.trans hr.symm)]
      exact congrArg (Option.getD · []) hfound
    have hnothing := h standing _ _ (List.Perm.refl _) (List.Perm.refl _)
    rw [detect_eq, List.append_eq_nil_iff, List.filterMap_eq_nil_iff] at hnothing
    have hfile := hnothing.1 (plannedFile around entries entry) (List.mem_map_of_mem hentry)
    rw [changeOf_plannedFile hslug hids (List.Perm.refl _) hentry (hreads entry hentry), hcurrent,
      restoreLinks_iff hslug hids, or_self] at hfile
    exact hfile
  · rw [detect_eq, missing_plannedFiles hids hfiles hexported hreads, List.map_nil, List.append_nil,
      List.filterMap_eq_nil_iff]
    intro file hfile
    obtain ⟨entry, hentry, rfl⟩ := List.mem_map.mp (hfiles.mem_iff.mp hfile)
    rw [changeOf_plannedFile hslug hids hexported hentry (hreads entry hentry)]
    exact (h entry hentry).imp_right .inl

/-- An untouched export proposes nothing exactly when the body of every entry that is not withheld is kept, and the
bodies that are kept are those that come back as they were written. -/
theorem untouched_export_iff (hslug : Slugs around.slugify) (hids : (entries.map LoreEntry.id).Nodup)
    (hreads : ∀ entry ∈ entries, ReadsBack readers around.writers entry) :
    (ProposesNothing readers around entries withheld ↔
        ∀ entry ∈ entries, entry.id ∈ withheld ∨ BodyKept around entries entry) ∧
      ∀ entry ∈ entries, ComesBack around entries entry ↔ BodyKept around entries entry :=
  ⟨proposesNothing_iff hslug hids hreads, fun _ hentry => comesBack_iff hslug hids hentry⟩

end

/-! A keep whose body is one link to the vale. -/

def nilId : Text := "00000000-0000-0000-0000-000000000000".toList

def nilReaders : Readers where
  uuid text :=
    if text = gateId then .ok 1 else if text = nilId then .ok 0 else .error "invalid character".toList
  rfc3339 := gateReaders.rfc3339

def sampleSurroundings : Surroundings where
  slugify := sampleSlug
  lowercase := List.map Char.toLower
  nonLore _ := none
  writers := gateWriters

def valeEntry : LoreEntry := ⟨1, none, "Vale", [], 1000000000, []⟩

def keepEntry (content : String) : LoreEntry := ⟨0, none, "Keep", content.toList, 1000000000, []⟩

theorem sample_ids (content : String) : ([valeEntry, keepEntry content].map LoreEntry.id).Nodup := by
  change ([1, 0] : List Uuid).Nodup
  decide

theorem sample_readsBack (content : String) :
    ∀ entry ∈ [valeEntry, keepEntry content], ReadsBack nilReaders sampleSurroundings.writers entry := by
  have hplain : PlainText (gateWriters.uuid 1) ∧ PlainText (gateWriters.uuid 0) := by decide +kernel
  have hback : nilReaders.uuid (gateWriters.uuid 1) = .ok 1 ∧ nilReaders.uuid (gateWriters.uuid 0) = .ok 0 := by
    decide +kernel
  have htime : PlainText (gateWriters.rfc3339 1000000000) ∧
      nilReaders.rfc3339 (gateWriters.rfc3339 1000000000) = .ok 1000000000 := by
    decide +kernel
  intro entry hentry
  rcases List.mem_cons.mp hentry with rfl | hentry
  · exact ⟨hplain.1, hback.1, htime.1, htime.2⟩
  · rw [List.mem_singleton.mp hentry]
    exact ⟨hplain.2, hback.2, htime.1, htime.2⟩

def sampleNodes : List EntryNode := [⟨1, none, "Vale"⟩, ⟨0, none, "Keep"⟩]

theorem sample_bodyPieces {content : String} (wiki : WikiLink) (hwiki : wikiLink content.toList = some (wiki, []))
    (hdestination : loreDestination "keep.md".toList (resolveLink (mapEntryPaths sampleSlug sampleNodes) sampleNodes
      (List.map Char.toLower) fun _ => none) wiki.target = some "vale.md".toList) :
    bodyPieces sampleSurroundings [valeEntry, keepEntry content] (keepEntry content) =
      [.link wiki "vale.md".toList] := by
  have hself : filePathOf sampleSurroundings [valeEntry, keepEntry content] (keepEntry content) =
      "keep.md".toList := by
    change ((mapEntryPaths sampleSlug sampleNodes 0).map AssignedPath.path).getD [] = _
    decide +kernel
  unfold bodyPieces
  rw [hself]
  change pieces (loreDestination "keep.md".toList (resolveLink (mapEntryPaths sampleSlug sampleNodes) sampleNodes
    (List.map Char.toLower) fun _ => none)) content.toList = _
  cases hcontent : content.toList with
  | nil =>
      rw [hcontent] at hwiki
      cases hwiki
  | cons c text =>
      rw [hcontent] at hwiki
      rw [pieces_lore hwiki hdestination, pieces]

theorem sample_title (content : String) :
    titleBehind sampleSurroundings [valeEntry, keepEntry content] (keepEntry content) "vale.md".toList =
      some "Vale".toList := by
  rw [titleBehind_eq_some slugs_sampleSlug (sample_ids content)]
  have hids : (1 : Uuid) ≠ 0 := by decide
  refine ⟨valeEntry, List.mem_cons_self, hids, ?_, rfl⟩
  change relativeLink (((mapEntryPaths sampleSlug sampleNodes 0).map AssignedPath.path).getD [])
    (((mapEntryPaths sampleSlug sampleNodes 1).map AssignedPath.path).getD []) = _
  decide +kernel

/-- A link that is written as the title it leads to comes back. -/
theorem named_vale_comes_back :
    ProposesNothing nilReaders sampleSurroundings [valeEntry, keepEntry "[[Vale|dale]]"] [] ∧
      ComesBack sampleSurroundings [valeEntry, keepEntry "[[Vale|dale]]"] (keepEntry "[[Vale|dale]]") := by
  have hvale : BodyKept sampleSurroundings [valeEntry, keepEntry "[[Vale|dale]]"] valeEntry := by
    unfold BodyKept bodyPieces
    change Kept _ none (pieces _ [])
    rw [pieces]
    exact .nil none
  have hkeep : BodyKept sampleSurroundings [valeEntry, keepEntry "[[Vale|dale]]"] (keepEntry "[[Vale|dale]]") := by
    unfold BodyKept
    rw [sample_bodyPieces ⟨"Vale".toList, some "dale".toList⟩ (by decide) (by decide +kernel)]
    exact .link (by decide) (by decide) (sample_title _) (by decide) (.nil _)
  have hids := sample_ids "[[Vale|dale]]"
  refine ⟨(untouched_export_iff slugs_sampleSlug hids (sample_readsBack _)).1.mpr fun entry hentry => .inr ?_,
    (comesBack_iff slugs_sampleSlug hids (by simp)).mpr hkeep⟩
  rcases List.mem_cons.mp hentry with rfl | hentry
  · exact hvale
  · rwa [List.mem_singleton.mp hentry]

/-- A link in another letter case comes back with the title in front of what was written. -/
theorem lower_case_link_is_proposed :
    ¬ ∀ entries : List LoreEntry, (entries.map LoreEntry.id).Nodup →
      (entries.map fun entry => entry.title.toList.map Char.toLower).Nodup →
      (∀ entry ∈ entries, ReadsBack nilReaders sampleSurroundings.writers entry) →
      ProposesNothing nilReaders sampleSurroundings entries [] := by
  intro h
  have hids := sample_ids "[[vale]]"
  have hnothing := h [valeEntry, keepEntry "[[vale]]"] hids (by decide) (sample_readsBack "[[vale]]")
  rw [proposesNothing_iff slugs_sampleSlug hids (sample_readsBack "[[vale]]")] at hnothing
  have hkept := (hnothing (keepEntry "[[vale]]") (by simp)).resolve_left List.not_mem_nil
  unfold BodyKept at hkept
  rw [sample_bodyPieces ⟨"vale".toList, none⟩ (by decide) (by decide +kernel)] at hkept
  cases hkept with
  | link himage hopen htitle hwritten hafter =>
      rw [sample_title, Option.some.injEq] at htitle
      rw [← htitle] at hwritten
      exact absurd hwritten (by decide)

end ThunderForge.Mirror
