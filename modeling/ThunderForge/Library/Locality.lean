import ThunderForge.Library.Accounting

/-! What a world reads under one kind and name depends on the base entries and the delta under it alone. -/

namespace ThunderForge.Library

section Locality

variable {bookOrigin : ContentOrigin} {base base' : List StoredEntry} {deltas deltas' : List Delta}
  {showHidden : Bool} {identity : Identity}

/-- Two bases with their deltas that agree under one kind and name. -/
structure AgreeAt (identity : Identity) (base base' : List StoredEntry) (deltas deltas' : List Delta) :
    Prop where
  count : identityCount base' identity = identityCount base identity
  entries : ∀ entry, entry.identity = identity → (entry ∈ base' ↔ entry ∈ base)
  deltas : ∀ delta, delta.identity = identity → (delta ∈ deltas' ↔ delta ∈ deltas)

theorem AgreeAt.symm (h : AgreeAt identity base base' deltas deltas') :
    AgreeAt identity base' base deltas' deltas where
  count := h.count.symm
  entries entry hentry := (h.entries entry hentry).symm
  deltas delta hdelta := (h.deltas delta hdelta).symm

theorem AgreeAt.readOf (h : AgreeAt identity base base' deltas deltas')
    (hdeltas : (deltas.map Delta.identity).Nodup) (hdeltas' : (deltas'.map Delta.identity).Nodup)
    {entry : StoredEntry} (hentry : entry.identity = identity) :
    Library.readOf bookOrigin base' deltas' showHidden entry =
      Library.readOf bookOrigin base deltas showHidden entry := by
  have hover : deltaOver deltas' entry.identity = deltaOver deltas entry.identity := by
    refine Option.ext fun delta => ?_
    rw [deltaOver_eq_some hdeltas', deltaOver_eq_some hdeltas]
    refine and_congr_left fun hsame => h.deltas delta (hsame.trans hentry)
  rw [Library.readOf, Library.readOf, hover, hentry, h.count]

theorem AgreeAt.placeOf (h : AgreeAt identity base base' deltas deltas') {delta : Delta}
    (hdelta : delta.identity = identity) :
    Library.placeOf base' showHidden delta = Library.placeOf base showHidden delta := by
  rw [Library.placeOf, Library.placeOf, hdelta, h.count]

/-- Whether hidden entries are shown decides nothing about what is reported. -/
theorem placeOf_unattached_iff (showHidden showHidden' : Bool) {delta : Delta} {why : Unattached} :
    placeOf base showHidden delta = .unattached why ↔ placeOf base showHidden' delta = .unattached why := by
  unfold Library.placeOf
  split <;> cases showHidden <;> cases showHidden' <;> simp

theorem AgreeAt.mem_entries (h : AgreeAt identity base base' deltas deltas') {hash hash' : HashOrder Delta}
    (hdeltas : (deltas.map Delta.identity).Nodup) (hdeltas' : (deltas'.map Delta.identity).Nodup)
    {read : WorldEntry} (hread : read.identity = identity)
    (hmem : read ∈ (resolve hash bookOrigin base deltas showHidden).entries) :
    read ∈ (resolve hash' bookOrigin base' deltas' showHidden).entries := by
  rcases (Library.mem_entries hash hdeltas read).mp hmem with ⟨entry, hentry, hreadOf⟩ |
    ⟨delta, hdelta, hplace, rfl⟩
  · have hsame : entry.identity = identity := (key_of_readOf hreadOf).2.1.symm.trans hread
    refine (Library.mem_entries hash' hdeltas' read).mpr (.inl ⟨entry, (h.entries entry hsame).mpr hentry, ?_⟩)
    rw [h.readOf hdeltas hdeltas' hsame, hreadOf]
  · refine (Library.mem_entries hash' hdeltas' _).mpr (.inr ⟨delta, (h.deltas delta hread).mpr hdelta, ?_, rfl⟩)
    rw [h.placeOf hread, hplace]

/-- The same entries are read under a kind and name where two bases and their deltas agree. -/
theorem AgreeAt.filter_entries (h : AgreeAt identity base base' deltas deltas')
    (hash hash' : HashOrder Delta) (hbase : (base.map StoredEntry.id).Nodup)
    (hbase' : (base'.map StoredEntry.id).Nodup) (hdeltas : (deltas.map Delta.identity).Nodup)
    (hdeltas' : (deltas'.map Delta.identity).Nodup) :
    ((resolve hash' bookOrigin base' deltas' showHidden).entries.filter fun read =>
        read.identity = identity) =
      (resolve hash bookOrigin base deltas showHidden).entries.filter fun read =>
        read.identity = identity := by
  have hordered := (resolve_ordered hash bookOrigin showHidden hbase hdeltas).1
  have hordered' := (resolve_ordered hash' bookOrigin showHidden hbase' hdeltas').1
  refine SortBy.eq_of_pairwise_lt (hordered'.filter _) (hordered.filter _) fun read => ?_
  simp only [List.mem_filter, decide_eq_true_eq]
  refine and_congr_left fun hread => ⟨?_, ?_⟩
  · exact h.symm.mem_entries hdeltas' hdeltas hread
  · exact h.mem_entries hdeltas hdeltas' hread

/-- The same deltas are reported there, for the same reasons. -/
theorem AgreeAt.filter_unattached (h : AgreeAt identity base base' deltas deltas')
    (hash hash' : HashOrder Delta) (hbase : (base.map StoredEntry.id).Nodup)
    (hbase' : (base'.map StoredEntry.id).Nodup) (hdeltas : (deltas.map Delta.identity).Nodup)
    (hdeltas' : (deltas'.map Delta.identity).Nodup) :
    ((resolve hash' bookOrigin base' deltas' showHidden).unattached.filter fun left =>
        left.1.identity = identity) =
      (resolve hash bookOrigin base deltas showHidden).unattached.filter fun left =>
        left.1.identity = identity := by
  have hordered := (resolve_ordered hash bookOrigin showHidden hbase hdeltas).2
  have hordered' := (resolve_ordered hash' bookOrigin showHidden hbase' hdeltas').2
  refine SortBy.eq_of_pairwise_lt (hordered'.filter _) (hordered.filter _) ?_
  rintro ⟨delta, why⟩
  simp only [List.mem_filter, decide_eq_true_eq, mem_unattached _ hdeltas, mem_unattached _ hdeltas']
  refine and_congr_left fun hdelta => ?_
  rw [h.deltas delta hdelta, h.placeOf hdelta]

/-- Under a name that one entry of the base has, that entry is read. -/
theorem filter_entries_once (hash : HashOrder Delta) (bookOrigin : ContentOrigin) (showHidden : Bool)
    (hbase : (base.map StoredEntry.id).Nodup) (hdeltas : (deltas.map Delta.identity).Nodup)
    {entry : StoredEntry} (hentry : entry ∈ base)
    (honce : identityCount base entry.identity = 1) :
    ((resolve hash bookOrigin base deltas showHidden).entries.filter fun read =>
      read.identity = entry.identity) = (readOf bookOrigin base deltas showHidden entry).toList := by
  have hsource {read : WorldEntry}
      (hread : read ∈ (resolve hash bookOrigin base deltas showHidden).entries)
      (hidentity : read.identity = entry.identity) :
      readOf bookOrigin base deltas showHidden entry = some read := by
    rcases (mem_entries hash hdeltas read).mp hread with ⟨other, hother, hreadOf⟩ | ⟨delta, -, hplace, rfl⟩
    · have hsame : entry.identity = other.identity := hidentity.symm.trans (key_of_readOf hreadOf).2.1
      rwa [identity_unique_of_once hentry hother hsame honce]
    · have hpresent : identityCount base delta.identity ≠ 0 := by
        rw [show delta.identity = entry.identity from hidentity, honce]
        exact Nat.one_ne_zero
      exact absurd hplace (placeOf_present hpresent).1
  have hordered := (resolve_ordered hash bookOrigin showHidden hbase hdeltas).1
  cases hread : readOf bookOrigin base deltas showHidden entry with
  | none =>
      refine List.filter_eq_nil_iff.mpr fun read hmem hidentity => ?_
      have := hsource hmem (by simpa using hidentity)
      rw [hread] at this
      cases this
  | some read =>
      have hmem := (mem_entries hash hdeltas read).mpr (.inl ⟨entry, hentry, hread⟩)
      refine filter_eq_singleton (SortBy.nodup_of_pairwise_lt hordered) hmem fun other hother => ?_
      rw [decide_eq_true_iff]
      constructor
      · intro hidentity
        exact Option.some.inj ((hsource hother hidentity).symm.trans hread)
      · rintro rfl
        exact (key_of_readOf hread).2.1

/-- Under a name the base does not have, the addition of that name is read, or nothing. -/
theorem filter_entries_absent (hash : HashOrder Delta) (bookOrigin : ContentOrigin) (showHidden : Bool)
    (hbase : (base.map StoredEntry.id).Nodup) (hdeltas : (deltas.map Delta.identity).Nodup)
    (habsent : identityCount base identity = 0) :
    (resolve hash bookOrigin base deltas showHidden).entries.filter (fun read => read.identity = identity) =
      (((deltaOver deltas identity).filter fun delta => delta.form = .added).map
        (Delta.asAddition bookOrigin)).toList := by
  have hsource {read : WorldEntry}
      (hread : read ∈ (resolve hash bookOrigin base deltas showHidden).entries)
      (hidentity : read.identity = identity) :
      ∃ delta, deltaOver deltas identity = some delta ∧ delta.form = .added ∧
        delta.asAddition bookOrigin = read := by
    rcases (mem_entries hash hdeltas read).mp hread with ⟨entry, hentry, hreadOf⟩ | ⟨delta, hmem, hplace, rfl⟩
    · have hpresent := identityCount_pos hentry
      rw [(key_of_readOf hreadOf).2.1.symm.trans hidentity, habsent] at hpresent
      exact absurd hpresent (Nat.lt_irrefl 0)
    · refine ⟨delta, (deltaOver_eq_some hdeltas).mpr ⟨hmem, hidentity⟩, ?_, rfl⟩
      have hsame : delta.identity = identity := hidentity
      rw [placeOf_absent (hsame ▸ habsent)] at hplace
      by_contra hform
      rw [if_neg hform] at hplace
      cases hplace
  have hordered := (resolve_ordered hash bookOrigin showHidden hbase hdeltas).1
  have hnone (h : ∀ delta, deltaOver deltas identity = some delta → delta.form ≠ .added) :
      (resolve hash bookOrigin base deltas showHidden).entries.filter (fun read =>
        read.identity = identity) = [] := by
    refine List.filter_eq_nil_iff.mpr fun read hmem hidentity => ?_
    obtain ⟨delta, hdelta, hform, -⟩ := hsource hmem (by simpa using hidentity)
    exact h delta hdelta hform
  cases hover : deltaOver deltas identity with
  | none => exact hnone (by simp [hover])
  | some delta =>
      by_cases hform : delta.form = .added
      · obtain ⟨hmem, hidentity⟩ := (deltaOver_eq_some hdeltas).mp hover
        have hplace : placeOf base showHidden delta = .addition := by
          rw [placeOf_absent (hidentity ▸ habsent), if_pos hform]
        have hread : delta.asAddition bookOrigin ∈
            (resolve hash bookOrigin base deltas showHidden).entries :=
          (mem_entries hash hdeltas _).mpr (.inr ⟨delta, hmem, hplace, rfl⟩)
        rw [filter_eq_singleton (SortBy.nodup_of_pairwise_lt hordered) hread fun other hother => ?_]
        · rw [Option.filter_some, if_pos (by simpa using hform)]
          rfl
        rw [decide_eq_true_iff]
        constructor
        · intro hsame
          obtain ⟨found, hfound, -, rfl⟩ := hsource hother hsame
          rw [Option.some.inj (hfound.symm.trans hover)]
        · rintro rfl
          exact hidentity
      · rw [hnone fun other hother => Option.some.inj (hover.symm.trans hother) ▸ hform]
        simp [hform]

/-- Under a name that the base does not have twice, at most one entry is read. -/
theorem eq_of_count_le_one {hash : HashOrder Delta} (hbase : (base.map StoredEntry.id).Nodup)
    (hdeltas : (deltas.map Delta.identity).Nodup) {left right : WorldEntry}
    (hleft : left ∈ (resolve hash bookOrigin base deltas showHidden).entries)
    (hright : right ∈ (resolve hash bookOrigin base deltas showHidden).entries)
    (hsame : left.identity = right.identity) (hcount : identityCount base right.identity ≤ 1) :
    left = right := by
  have honly : ∃ read : Option WorldEntry, (resolve hash bookOrigin base deltas showHidden).entries.filter
      (fun read => read.identity = right.identity) = read.toList := by
    rcases Nat.le_one_iff_eq_zero_or_eq_one.mp hcount with habsent | honce
    · exact ⟨_, filter_entries_absent hash bookOrigin showHidden hbase hdeltas habsent⟩
    · obtain ⟨entry, hentry, hidentity⟩ := exists_entry_of_once honce
      rw [← hidentity] at honce ⊢
      exact ⟨_, filter_entries_once hash bookOrigin showHidden hbase hdeltas hentry honce⟩
  obtain ⟨read, hread⟩ := honly
  have hmem {other : WorldEntry} (hother : other ∈ (resolve hash bookOrigin base deltas showHidden).entries)
      (hidentity : other.identity = right.identity) : read = some other := by
    rw [← Option.mem_toList, ← hread]
    exact List.mem_filter.mpr ⟨hother, by simpa using hidentity⟩
  exact Option.some.inj ((hmem hleft hsame).symm.trans (hmem hright rfl))

end Locality

end ThunderForge.Library
