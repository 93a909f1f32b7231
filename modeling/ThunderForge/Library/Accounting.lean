import ThunderForge.Library.Deltas

/-! A world's reading of a book accounts for everything: every base entry and every delta is in exactly
one place, and the order in which they were gathered does not show. -/

namespace ThunderForge.Library

open Std (ExtTreeMap)

/-- What the reading says of one delta: the entries that carry its id. -/
def Resolution.attachedTo (resolution : Resolution) (delta : Delta) : List WorldEntry :=
  resolution.entries.filter fun read => read.deltaId = some delta.id

/-- What the reading reports of one delta. -/
def Resolution.reported (resolution : Resolution) (delta : Delta) : List (Delta × Unattached) :=
  resolution.unattached.filter fun left => left.1 = delta

/-- The delta is where its place says, and nowhere else. -/
def InItsPlace (base : List StoredEntry) (showHidden : Bool) (resolution : Resolution) (delta : Delta) :
    Prop :=
  match placeOf base showHidden delta with
  | .attached => resolution.reported delta = [] ∧ ∃ read, resolution.attachedTo delta = [read] ∧
      (∃ entry ∈ base, entry.identity = delta.identity ∧ read.id = entry.id) ∧
      read.identity = delta.identity ∧
      (delta.form = .changed ∧ read.state = .changed ∨ delta.form = .hidden ∧ read.state = .hidden)
  | .addition => resolution.reported delta = [] ∧ ∃ read, resolution.attachedTo delta = [read] ∧
      read.state = .added ∧ read.id = delta.id ∧ read.identity = delta.identity
  | .withheld => resolution.reported delta = [] ∧ resolution.attachedTo delta = [] ∧
      ∀ read ∈ resolution.entries, read.identity ≠ delta.identity
  | .unattached why => resolution.reported delta = [(delta, why)] ∧ resolution.attachedTo delta = []

/-- A base entry this world does not show. -/
def Withheld (base : List StoredEntry) (deltas : List Delta) (showHidden : Bool) (entry : StoredEntry) :
    Prop :=
  ∃ delta ∈ deltas, delta.identity = entry.identity ∧ placeOf base showHidden delta = .withheld

instance (base : List StoredEntry) (deltas : List Delta) (showHidden : Bool) (entry : StoredEntry) :
    Decidable (Withheld base deltas showHidden entry) :=
  inferInstanceAs (Decidable (∃ delta ∈ deltas, _))

section Accounting

variable {bookOrigin : ContentOrigin} {base : List StoredEntry} {deltas : List Delta}
  {showHidden : Bool}

theorem identity_unique_of_once {entry other : StoredEntry} (hentry : entry ∈ base) (hother : other ∈ base)
    (hsame : entry.identity = other.identity) (honce : identityCount base entry.identity = 1) :
    entry = other := by
  rw [identityCount, List.countP_eq_length_filter, List.length_eq_one_iff] at honce
  obtain ⟨only, honly⟩ := honce
  have hmem {x : StoredEntry} (hx : x ∈ base) (hid : x.identity = entry.identity) : x = only := by
    have : x ∈ base.filter fun y => decide (y.identity = entry.identity) :=
      List.mem_filter.mpr ⟨hx, by simpa using hid⟩
    rw [honly] at this
    exact List.mem_singleton.mp this
  rw [hmem hentry rfl, hmem hother hsame.symm]

/-- A filtered list with no repetition is empty or holds the one element the test picks out. -/
theorem filter_eq_singleton {α : Type*} {xs : List α} {p : α → Bool} {x : α} (hnodup : xs.Nodup)
    (hmem : x ∈ xs) (hp : ∀ y ∈ xs, p y = true ↔ y = x) : xs.filter p = [x] := by
  have hfilter : (xs.filter p).Nodup := hnodup.filter p
  refine List.perm_singleton.mp ((List.perm_ext_iff_of_nodup hfilter (List.nodup_singleton x)).mpr ?_)
  intro y
  rw [List.mem_filter, List.mem_singleton]
  refine ⟨fun h => (hp y h.1).mp h.2, ?_⟩
  rintro rfl
  exact ⟨hmem, (hp y hmem).mpr rfl⟩

/-- Which delta an entry carries, and what that says of the delta. -/
theorem deltaId_of_mem {hash : HashOrder Delta} (hdeltas : (deltas.map Delta.identity).Nodup)
    {read : WorldEntry} (hread : read ∈ (resolve hash bookOrigin base deltas showHidden).entries)
    {id : Uuid} (hid : read.deltaId = some id) :
    ∃ delta ∈ deltas, delta.id = id ∧ read.identity = delta.identity ∧
      (placeOf base showHidden delta = .attached ∧
          (∃ entry ∈ base, entry.identity = delta.identity ∧ read.id = entry.id) ∧
          (delta.form = .changed ∧ read.state = .changed ∨
            delta.form = .hidden ∧ read.state = .hidden) ∨
        placeOf base showHidden delta = .addition ∧ delta.asAddition bookOrigin = read) := by
  rcases (mem_entries hash hdeltas read).mp hread with ⟨entry, hentry, hreadOf⟩ | ⟨delta, hmem, hplace, rfl⟩
  · have hreading := reading bookOrigin showHidden hdeltas hentry
    rw [hreadOf] at hreading
    cases hreading with
    | twin | untouched | shadowing => cases hid
    | changed honce delta hmem hsame hform =>
        refine ⟨delta, hmem, Option.some.inj hid, hsame.symm, .inl ⟨?_, ⟨entry, hentry, hsame.symm, rfl⟩,
          .inl ⟨hform, rfl⟩⟩⟩
        simp [placeOf, hsame, honce, hform]
    | hidden honce delta hmem hsame hform hshow =>
        refine ⟨delta, hmem, Option.some.inj hid, hsame.symm, .inl ⟨?_, ⟨entry, hentry, hsame.symm, rfl⟩,
          .inr ⟨hform, rfl⟩⟩⟩
        simp [placeOf, hsame, honce, hform, hshow]
  · exact ⟨delta, hmem, Option.some.inj hid, rfl, .inr ⟨hplace, rfl⟩⟩

theorem placeOf_attached {delta : Delta} (h : placeOf base showHidden delta = .attached) :
    identityCount base delta.identity = 1 ∧
      (delta.form = .changed ∨ delta.form = .hidden ∧ showHidden = true) := by
  unfold placeOf at h
  split at h <;> simp_all

theorem placeOf_withheld {delta : Delta} (h : placeOf base showHidden delta = .withheld) :
    identityCount base delta.identity = 1 ∧ delta.form = .hidden ∧ showHidden = false := by
  unfold placeOf at h
  split at h <;> simp_all

theorem exists_entry_of_once {identity : Identity} (honce : identityCount base identity = 1) :
    ∃ entry ∈ base, entry.identity = identity := by
  obtain ⟨entry, hentry, hsame⟩ := List.countP_pos_iff.mp (honce ▸ Nat.one_pos : 0 < base.countP _)
  exact ⟨entry, hentry, by simpa using hsame⟩

/-- The entry an attached delta is attached to. -/
theorem exists_read_of_attached (hash : HashOrder Delta) (bookOrigin : ContentOrigin)
    (hdeltas : (deltas.map Delta.identity).Nodup) {delta : Delta} (hmem : delta ∈ deltas)
    (hplace : placeOf base showHidden delta = .attached) :
    ∃ read ∈ (resolve hash bookOrigin base deltas showHidden).entries, read.deltaId = some delta.id := by
  obtain ⟨honce, hform⟩ := placeOf_attached hplace
  obtain ⟨entry, hentry, hsame⟩ := exists_entry_of_once honce
  have hunique {other : Delta} (hother : other ∈ deltas) (hid : other.identity = entry.identity) :
      other = delta := List.inj_on_of_nodup_map hdeltas hother hmem (hid.trans hsame)
  have hmember {read : WorldEntry} (h : readOf bookOrigin base deltas showHidden entry = some read) :
      read ∈ (resolve hash bookOrigin base deltas showHidden).entries :=
    (mem_entries hash hdeltas read).mpr (.inl ⟨entry, hentry, h⟩)
  generalize hreadOf : readOf bookOrigin base deltas showHidden entry = reads at hmember
  have hreading := reading bookOrigin showHidden hdeltas hentry
  rw [hreadOf] at hreading
  cases hreading with
  | twin htwins => rw [hsame] at htwins; omega
  | untouched _ hnone => exact absurd hsame.symm (hnone delta hmem)
  | changed _ other hother hid _ =>
      obtain rfl := hunique hother hid
      exact ⟨_, hmember rfl, rfl⟩
  | hidden _ other hother hid _ _ =>
      obtain rfl := hunique hother hid
      exact ⟨_, hmember rfl, rfl⟩
  | withheld _ other hother hid hhidden hshow =>
      obtain rfl := hunique hother hid
      simp [hhidden, hshow] at hform
  | shadowing _ other hother hid hadded =>
      obtain rfl := hunique hother hid
      simp [hadded] at hform

theorem reported_of_unattached (hash : HashOrder Delta) (bookOrigin : ContentOrigin)
    (hbase : (base.map StoredEntry.id).Nodup) (hdeltas : (deltas.map Delta.identity).Nodup)
    {delta : Delta} (hmem : delta ∈ deltas) {why : Unattached}
    (hplace : placeOf base showHidden delta = .unattached why) :
    (resolve hash bookOrigin base deltas showHidden).reported delta = [(delta, why)] := by
  refine filter_eq_singleton (SortBy.nodup_of_pairwise_lt
    (resolve_ordered hash bookOrigin showHidden hbase hdeltas).2) ?_ ?_
  · exact (mem_unattached hash hdeltas delta why).mpr ⟨hmem, hplace⟩
  · rintro ⟨other, reason⟩ hother
    obtain ⟨-, hreason⟩ := (mem_unattached hash hdeltas other reason).mp hother
    simp only [decide_eq_true_eq, Prod.mk.injEq]
    refine ⟨fun heq => ⟨heq, ?_⟩, And.left⟩
    rw [heq, hplace] at hreason
    exact (Place.unattached.inj hreason).symm

theorem reported_of_attached (hash : HashOrder Delta) (bookOrigin : ContentOrigin)
    (hdeltas : (deltas.map Delta.identity).Nodup) {delta : Delta}
    (hplace : ∀ why, placeOf base showHidden delta ≠ .unattached why) :
    (resolve hash bookOrigin base deltas showHidden).reported delta = [] := by
  refine List.filter_eq_nil_iff.mpr ?_
  rintro ⟨other, reason⟩ hother heq
  obtain ⟨-, hreason⟩ := (mem_unattached hash hdeltas other reason).mp hother
  obtain rfl : other = delta := by simpa using heq
  exact hplace reason hreason

/-- A delta that is neither attached nor an addition shows in no entry. -/
theorem attachedTo_of_neither (hash : HashOrder Delta) (bookOrigin : ContentOrigin)
    (hdeltas : (deltas.map Delta.identity).Nodup) (hids : (deltas.map Delta.id).Nodup) {delta : Delta}
    (hmem : delta ∈ deltas) (hattached : placeOf base showHidden delta ≠ .attached)
    (haddition : placeOf base showHidden delta ≠ .addition) :
    (resolve hash bookOrigin base deltas showHidden).attachedTo delta = [] := by
  refine List.filter_eq_nil_iff.mpr fun read hread hid => ?_
  obtain ⟨other, hother, hsame, -, hplace⟩ := deltaId_of_mem hdeltas hread (by simpa using hid)
  obtain rfl := List.inj_on_of_nodup_map hids hother hmem hsame
  exact hplace.elim (fun h => hattached h.1) fun h => haddition h.1

/-- Every delta is in its place. -/
theorem inItsPlace (hash : HashOrder Delta) (bookOrigin : ContentOrigin) (showHidden : Bool)
    (hbase : (base.map StoredEntry.id).Nodup) (hdeltas : (deltas.map Delta.identity).Nodup)
    (hids : (deltas.map Delta.id).Nodup) {delta : Delta} (hmem : delta ∈ deltas) :
    InItsPlace base showHidden (resolve hash bookOrigin base deltas showHidden) delta := by
  have hordered := (resolve_ordered hash bookOrigin showHidden hbase hdeltas).1
  have hcarried {read : WorldEntry}
      (hread : read ∈ (resolve hash bookOrigin base deltas showHidden).entries)
      (hid : read.deltaId = some delta.id) := deltaId_of_mem hdeltas hread hid
  unfold InItsPlace
  cases hplace : placeOf base showHidden delta with
  | attached =>
      obtain ⟨honce, -⟩ := placeOf_attached hplace
      refine ⟨reported_of_attached hash bookOrigin hdeltas (by simp [hplace]), ?_⟩
      obtain ⟨read, hread, hid⟩ := exists_read_of_attached hash bookOrigin hdeltas hmem hplace
      have hentry {other : WorldEntry}
          (hother : other ∈ (resolve hash bookOrigin base deltas showHidden).entries)
          (hcarries : other.deltaId = some delta.id) :
          other.identity = delta.identity ∧ (∃ entry ∈ base, entry.identity = delta.identity ∧
            other.id = entry.id) ∧ (delta.form = .changed ∧ other.state = .changed ∨
              delta.form = .hidden ∧ other.state = .hidden) := by
        obtain ⟨found, hfound, hsame, hidentity, hwhere⟩ := hcarried hother hcarries
        obtain rfl := List.inj_on_of_nodup_map hids hfound hmem hsame
        rcases hwhere with ⟨-, hentry, hstate⟩ | ⟨hadded, -⟩
        · exact ⟨hidentity, hentry, hstate⟩
        · rw [hplace] at hadded
          cases hadded
      refine ⟨read, filter_eq_singleton (SortBy.nodup_of_pairwise_lt hordered) hread ?_,
        (hentry hread hid).2.1, (hentry hread hid).1, (hentry hread hid).2.2⟩
      intro other hother
      simp only [decide_eq_true_eq]
      refine ⟨fun hcarries => ?_, fun heq => heq ▸ hid⟩
      obtain ⟨hidentity, ⟨entry, hmember, hentryIdentity, hentryId⟩, -⟩ := hentry hother hcarries
      obtain ⟨hidentity', ⟨entry', hmember', hentryIdentity', hentryId'⟩, -⟩ := hentry hread hid
      obtain rfl := identity_unique_of_once hmember hmember' (hentryIdentity.trans hentryIdentity'.symm)
        (by rw [hentryIdentity]; exact honce)
      refine SortBy.eq_of_key_eq hordered hother hread ?_
      rw [WorldEntry.key, WorldEntry.key, hidentity, hidentity', hentryId, hentryId']
  | addition =>
      refine ⟨reported_of_attached hash bookOrigin hdeltas (by simp [hplace]), delta.asAddition bookOrigin,
        ?_, rfl, rfl, rfl⟩
      refine filter_eq_singleton (SortBy.nodup_of_pairwise_lt hordered) ?_ fun other hother => ?_
      · exact (mem_entries hash hdeltas _).mpr (.inr ⟨delta, hmem, hplace, rfl⟩)
      · simp only [decide_eq_true_eq]
        refine ⟨fun hcarries => ?_, fun heq => heq ▸ rfl⟩
        obtain ⟨found, hfound, hsame, -, hwhere⟩ := hcarried hother hcarries
        obtain rfl := List.inj_on_of_nodup_map hids hfound hmem hsame
        rcases hwhere with ⟨hattached, -⟩ | ⟨-, hread⟩
        · rw [hplace] at hattached
          cases hattached
        · exact hread.symm
  | withheld =>
      refine ⟨reported_of_attached hash bookOrigin hdeltas (by simp [hplace]),
        attachedTo_of_neither hash bookOrigin hdeltas hids hmem (by simp [hplace]) (by simp [hplace]), ?_⟩
      intro read hread hidentity
      obtain ⟨honce, hhidden, hshow⟩ := placeOf_withheld hplace
      have hunique {other : Delta} (hother : other ∈ deltas) (hid : other.identity = delta.identity) :
          other = delta := List.inj_on_of_nodup_map hdeltas hother hmem hid
      rcases (mem_entries hash hdeltas read).mp hread with ⟨entry, hentry, hreadOf⟩ | ⟨other, hother, hadded, rfl⟩
      · have hentryIdentity : entry.identity = delta.identity :=
          (key_of_readOf hreadOf).2.1.symm.trans hidentity
        have hreading := reading bookOrigin showHidden hdeltas hentry
        rw [hreadOf] at hreading
        cases hreading with
        | twin htwins => rw [hentryIdentity] at htwins; omega
        | untouched _ hnone => exact hnone delta hmem hentryIdentity.symm
        | changed _ other hother hid hform | shadowing _ other hother hid hform =>
            obtain rfl := hunique hother (hid.trans hentryIdentity)
            rw [hhidden] at hform
            cases hform
        | hidden _ _ _ _ _ hshown => rw [hshow] at hshown; cases hshown
      · obtain rfl := hunique hother hidentity
        rw [hplace] at hadded
        cases hadded
  | unattached why =>
      exact ⟨reported_of_unattached hash bookOrigin hbase hdeltas hmem hplace,
        attachedTo_of_neither hash bookOrigin hdeltas hids hmem (by simp [hplace]) (by simp [hplace])⟩

theorem placeOf_perm {base' : List StoredEntry} (hbase : base'.Perm base) (delta : Delta) :
    placeOf base' showHidden delta = placeOf base showHidden delta := by
  have hcount : identityCount base' delta.identity = identityCount base delta.identity :=
    hbase.countP_eq _
  rw [placeOf, placeOf, hcount]

theorem readOf_perm {base' : List StoredEntry} {deltas' : List Delta} (hbase : base'.Perm base)
    (hperm : deltas'.Perm deltas) (hdeltas : (deltas.map Delta.identity).Nodup) (entry : StoredEntry) :
    readOf bookOrigin base' deltas' showHidden entry = readOf bookOrigin base deltas showHidden entry := by
  have hcount : identityCount base' entry.identity = identityCount base entry.identity :=
    hbase.countP_eq _
  have hdeltas' : (deltas'.map Delta.identity).Nodup := (hperm.map _).nodup_iff.mpr hdeltas
  have hover : deltaOver deltas' entry.identity = deltaOver deltas entry.identity := by
    ext delta
    rw [deltaOver_eq_some hdeltas', deltaOver_eq_some hdeltas, hperm.mem_iff]
  rw [readOf, readOf, hcount, hover]

/-- Neither the order of the two lists nor that of the hash map shows. -/
theorem resolve_perm (hash hash' : HashOrder Delta) (bookOrigin : ContentOrigin) (showHidden : Bool)
    {base' : List StoredEntry} {deltas' : List Delta} (hbase : (base.map StoredEntry.id).Nodup)
    (hdeltas : (deltas.map Delta.identity).Nodup) (hbase' : base'.Perm base)
    (hdeltas' : deltas'.Perm deltas) :
    resolve hash' bookOrigin base' deltas' showHidden =
      resolve hash bookOrigin base deltas showHidden := by
  have hnodup : (base'.map StoredEntry.id).Nodup := (hbase'.map _).nodup_iff.mpr hbase
  have hdistinct : (deltas'.map Delta.identity).Nodup := (hdeltas'.map _).nodup_iff.mpr hdeltas
  obtain ⟨hentries, hunattached⟩ := resolve_ordered hash bookOrigin showHidden hbase hdeltas
  obtain ⟨hentries', hunattached'⟩ := resolve_ordered hash' bookOrigin showHidden hnodup hdistinct
  have hsameEntries := SortBy.eq_of_pairwise_lt hentries' hentries fun read => by
    rw [mem_entries hash' hdistinct, mem_entries hash hdeltas]
    simp only [readOf_perm hbase' hdeltas' hdeltas, placeOf_perm hbase', hbase'.mem_iff, hdeltas'.mem_iff]
  have hsameReports := SortBy.eq_of_pairwise_lt hunattached' hunattached fun left => by
    rw [mem_unattached hash' hdistinct, mem_unattached hash hdeltas, placeOf_perm hbase', hdeltas'.mem_iff]
  generalize resolve hash' bookOrigin base' deltas' showHidden = left at hsameEntries hsameReports ⊢
  generalize resolve hash bookOrigin base deltas showHidden = right at hsameEntries hsameReports ⊢
  cases left
  cases right
  simp_all

theorem readOf_eq_none (bookOrigin : ContentOrigin) (hdeltas : (deltas.map Delta.identity).Nodup)
    {entry : StoredEntry} (hentry : entry ∈ base) : readOf bookOrigin base deltas showHidden entry = none ↔
      Withheld base deltas showHidden entry := by
  have hreading := reading bookOrigin showHidden hdeltas hentry
  generalize hreadOf : readOf bookOrigin base deltas showHidden entry = reads at hreading
  have hunique {delta other : Delta} (hmem : delta ∈ deltas) (hother : other ∈ deltas)
      (hsame : delta.identity = entry.identity) (hsame' : other.identity = entry.identity) :
      other = delta := List.inj_on_of_nodup_map hdeltas hother hmem (hsame'.trans hsame.symm)
  cases hreading with
  | twin htwins =>
      refine iff_of_false nofun ?_
      rintro ⟨delta, -, hsame, hplace⟩
      have := (placeOf_withheld hplace).1
      rw [hsame] at this
      omega
  | untouched _ hnone =>
      refine iff_of_false nofun ?_
      rintro ⟨delta, hmem, hsame, -⟩
      exact hnone delta hmem hsame
  | changed _ other hother hsame' hform | shadowing _ other hother hsame' hform =>
      refine iff_of_false nofun ?_
      rintro ⟨delta, hmem, hsame, hplace⟩
      obtain rfl := hunique hmem hother hsame hsame'
      rw [(placeOf_withheld hplace).2.1] at hform
      cases hform
  | hidden _ _ _ _ _ hshown =>
      refine iff_of_false nofun ?_
      rintro ⟨delta, -, -, hplace⟩
      rw [(placeOf_withheld hplace).2.2] at hshown
      cases hshown
  | withheld honce delta hmem hsame hform hshow =>
      refine iff_of_true rfl ⟨delta, hmem, hsame, ?_⟩
      simp [placeOf, hsame, honce, hform, hshow]

/-- A base entry is read once, under its own id, unless this world withholds it. -/
theorem occurrences_eq (hash : HashOrder Delta) (bookOrigin : ContentOrigin) (showHidden : Bool)
    (hbase : (base.map StoredEntry.id).Nodup) (hdeltas : (deltas.map Delta.identity).Nodup)
    {entry : StoredEntry} (hentry : entry ∈ base) :
    ((resolve hash bookOrigin base deltas showHidden).entries.filter fun read =>
      read.state ≠ .added ∧ read.id = entry.id ∧ read.identity = entry.identity).length =
        if Withheld base deltas showHidden entry then 0 else 1 := by
  have hsource {read : WorldEntry}
      (hread : read ∈ (resolve hash bookOrigin base deltas showHidden).entries)
      (hstate : read.state ≠ .added) (hid : read.id = entry.id) :
      readOf bookOrigin base deltas showHidden entry = some read := by
    rcases (mem_entries hash hdeltas read).mp hread with ⟨other, hother, hreadOf⟩ | ⟨delta, -, -, rfl⟩
    · have hsame : other.id = entry.id := (key_of_readOf hreadOf).1.symm.trans hid
      rwa [← List.inj_on_of_nodup_map hbase hother hentry hsame]
    · exact absurd rfl hstate
  split_ifs with hwithheld
  · rw [List.length_eq_zero_iff, List.filter_eq_nil_iff]
    intro read hread hmatch
    simp only [decide_eq_true_eq] at hmatch
    have hnone := (readOf_eq_none bookOrigin hdeltas hentry).mpr hwithheld
    rw [hsource hread hmatch.1 hmatch.2.1] at hnone
    cases hnone
  · obtain ⟨read, hread⟩ := Option.ne_none_iff_exists'.mp
      (mt (readOf_eq_none bookOrigin hdeltas hentry).mp hwithheld)
    have hmem := (mem_entries hash hdeltas read).mpr (.inl ⟨entry, hentry, hread⟩)
    have hordered := (resolve_ordered hash bookOrigin showHidden hbase hdeltas).1
    rw [filter_eq_singleton (SortBy.nodup_of_pairwise_lt hordered) hmem fun other hother => ?_,
      List.length_singleton]
    simp only [decide_eq_true_eq]
    constructor
    · rintro ⟨hstate, hid, -⟩
      have hother' := hsource hother hstate hid
      rw [hread] at hother'
      exact (Option.some.inj hother').symm
    · rintro rfl
      obtain ⟨hid, hidentity, hstate⟩ := key_of_readOf hread
      exact ⟨hstate, hid, hidentity⟩

/-- An entry of an ambiguous identity is served as the book has it. -/
theorem read_of_twin {hash : HashOrder Delta} (hdeltas : (deltas.map Delta.identity).Nodup)
    {read : WorldEntry} (hread : read ∈ (resolve hash bookOrigin base deltas showHidden).entries)
    (htwins : 1 < identityCount base read.identity) :
    ∃ entry ∈ base, read = entry.asRead bookOrigin true := by
  rcases (mem_entries hash hdeltas read).mp hread with ⟨entry, hentry, hreadOf⟩ | ⟨delta, -, hplace, rfl⟩
  · rw [(key_of_readOf hreadOf).2.1] at htwins
    refine ⟨entry, hentry, ?_⟩
    simpa [readOf, htwins] using hreadOf.symm
  · have hpresent : identityCount base delta.identity ≠ 0 := by
      change 1 < identityCount base delta.identity at htwins
      omega
    exact absurd hplace (placeOf_present hpresent).1

/-- A changed entry is the base's with the delta's content laid over it, and says what it was before. -/
theorem read_of_changed {hash : HashOrder Delta} (hdeltas : (deltas.map Delta.identity).Nodup)
    {read : WorldEntry} (hread : read ∈ (resolve hash bookOrigin base deltas showHidden).entries)
    (hstate : read.state = .changed) :
    ∃ entry ∈ base, ∃ delta ∈ deltas, delta.identity = entry.identity ∧ read.id = entry.id ∧
      read.identity = entry.identity ∧ read.deltaId = some delta.id ∧
      read.before = some ⟨entry.fieldValues, entry.proseText⟩ ∧
      (∀ field, read.fieldValues.field? field =
        (delta.fieldValues.bind (FieldValues.field? · field)).or (entry.fieldValues.field? field)) ∧
      read.proseText = delta.proseText.or entry.proseText := by
  rcases (mem_entries hash hdeltas read).mp hread with ⟨entry, hentry, hreadOf⟩ | ⟨delta, -, -, rfl⟩
  · have hreading := reading bookOrigin showHidden hdeltas hentry
    rw [hreadOf] at hreading
    cases hreading with
    | twin | untouched | hidden | shadowing => cases hstate
    | changed honce delta hmem hsame hform =>
        exact ⟨entry, hentry, delta, hmem, hsame, rfl, rfl, rfl, rfl,
          fun field => field?_overlay _ _ field, rfl⟩
  · cases hstate

/-- What a world reads from a book, in full: the entries are in strict order and the order of the inputs
does not show; every base entry is read once under its own id unless it is withheld; every delta is in its
one place, and nothing else is reported; an ambiguous entry is the book's; and a changed entry is the base's
with the delta laid over it. -/
theorem resolve_accounts_for_everything (hash : HashOrder Delta) (bookOrigin : ContentOrigin)
    (base : List StoredEntry) (deltas : List Delta) (showHidden : Bool)
    (hbase : (base.map StoredEntry.id).Nodup) (hdeltas : (deltas.map Delta.identity).Nodup)
    (hids : (deltas.map Delta.id).Nodup) :
    let resolution := resolve hash bookOrigin base deltas showHidden
    resolution.entries.Pairwise (fun a b => a.key < b.key) ∧
    (∀ (hash' : HashOrder Delta) base' deltas', base'.Perm base → deltas'.Perm deltas →
      resolve hash' bookOrigin base' deltas' showHidden = resolution) ∧
    (∀ entry ∈ base, (resolution.entries.filter fun read =>
      read.state ≠ .added ∧ read.id = entry.id ∧ read.identity = entry.identity).length =
        if Withheld base deltas showHidden entry then 0 else 1) ∧
    (∀ read ∈ resolution.entries, read.state ≠ .added →
      ∃ entry ∈ base, read.id = entry.id ∧ read.identity = entry.identity) ∧
    (∀ delta ∈ deltas, InItsPlace base showHidden resolution delta) ∧
    (∀ read ∈ resolution.entries, ∀ id, read.deltaId = some id → ∃ delta ∈ deltas, delta.id = id) ∧
    (∀ left ∈ resolution.unattached, left.1 ∈ deltas) ∧
    (∀ read ∈ resolution.entries, 1 < identityCount base read.identity →
      ∃ entry ∈ base, read = entry.asRead bookOrigin true) ∧
    (∀ read ∈ resolution.entries, read.state = .changed →
      ∃ entry ∈ base, ∃ delta ∈ deltas, delta.identity = entry.identity ∧ read.id = entry.id ∧
        read.identity = entry.identity ∧ read.deltaId = some delta.id ∧
        read.before = some ⟨entry.fieldValues, entry.proseText⟩ ∧
        (∀ field, read.fieldValues.field? field =
          (delta.fieldValues.bind (FieldValues.field? · field)).or (entry.fieldValues.field? field)) ∧
        read.proseText = delta.proseText.or entry.proseText) := by
  refine ⟨(resolve_ordered hash bookOrigin showHidden hbase hdeltas).1,
    fun hash' base' deltas' => resolve_perm hash hash' bookOrigin showHidden hbase hdeltas,
    fun entry hentry => occurrences_eq hash bookOrigin showHidden hbase hdeltas hentry, ?_,
    fun delta hmem => inItsPlace hash bookOrigin showHidden hbase hdeltas hids hmem, ?_, ?_,
    fun read hread => read_of_twin hdeltas hread, fun read hread => read_of_changed hdeltas hread⟩
  · intro read hread hstate
    rcases (mem_entries hash hdeltas read).mp hread with ⟨entry, hentry, hreadOf⟩ | ⟨delta, -, -, rfl⟩
    · exact ⟨entry, hentry, (key_of_readOf hreadOf).1, (key_of_readOf hreadOf).2.1⟩
    · exact absurd rfl hstate
  · intro read hread id hid
    obtain ⟨delta, hmem, hsame, -⟩ := deltaId_of_mem hdeltas hread hid
    exact ⟨delta, hmem, hsame⟩
  · rintro ⟨delta, why⟩ hleft
    exact ((mem_unattached hash hdeltas delta why).mp hleft).1

/-- Two goblins, an ogre this world hides, and a change nobody can attach to either goblin. -/
def twinGoblins : List StoredEntry :=
  [{ id := 1, compendiumId := 9, kind := "creature", name := "Goblin", fieldValues := .object ∅,
     proseText := none },
    { id := 2, compendiumId := 9, kind := "creature", name := "Ogre", fieldValues := .object ∅,
      proseText := none },
    { id := 3, compendiumId := 9, kind := "creature", name := "Goblin", fieldValues := .object ∅,
      proseText := none }]

def goblinDeltas : List Delta :=
  [{ id := 1, worldId := 7, compendiumId := some 9, kind := "creature", name := "Goblin", form := .changed,
     origin := .authored, fieldValues := none, proseText := some "taller", changedBy := none, updatedAt := 0 },
    { id := 2, worldId := 7, compendiumId := some 9, kind := "creature", name := "Ogre", form := .hidden,
      origin := .authored, fieldValues := none, proseText := none, changedBy := none, updatedAt := 0 }]

theorem resolve_accounts_for_everything_twins :
    (resolve (.sorted _) .authored twinGoblins goblinDeltas false).entries.map WorldEntry.id = [1, 3] ∧
      ∀ delta ∈ goblinDeltas,
        InItsPlace twinGoblins false (resolve (.sorted _) .authored twinGoblins goblinDeltas false) delta :=
  ⟨by decide, (resolve_accounts_for_everything (.sorted _) .authored twinGoblins goblinDeltas false
    (by decide) (by decide) (by decide)).2.2.2.2.1⟩

end Accounting

end ThunderForge.Library
