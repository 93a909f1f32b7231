import Mathlib

/-! Maps whose entries go stale. A stale entry may be dropped at any moment; through the entries that are still
fresh the map shows what it would show if none had ever been dropped. -/

namespace Expiry

variable {κ β : Type}

/-- The entries worth keeping: `retain`. -/
def retain (keep : β → Bool) (map : AList fun _ : κ => β) : AList fun _ : κ => β where
  entries := map.entries.filter fun entry => keep entry.2
  nodupKeys := map.nodupKeys.sublist List.filter_sublist

@[simp] theorem retain_empty (keep : β → Bool) : retain keep (∅ : AList fun _ : κ => β) = ∅ := rfl

variable {keep : β → Bool} {map : AList fun _ : κ => β} {key : κ} {value : β}

theorem mem_retain_entries {entry : (_ : κ) × β} :
    entry ∈ (retain keep map).entries ↔ entry ∈ map.entries ∧ keep entry.2 = true := List.mem_filter

variable [DecidableEq κ]

theorem lookup_eq_some : map.lookup key = some value ↔ ⟨key, value⟩ ∈ map.entries := AList.mem_lookup_iff

theorem lookup_retain (keep : β → Bool) (map : AList fun _ : κ => β) (key : κ) :
    (retain keep map).lookup key = (map.lookup key).filter keep := by
  ext value
  rw [lookup_eq_some, mem_retain_entries, Option.filter_eq_some_iff, lookup_eq_some]

/-- Every value changed on its own: `for value in map.values_mut()`. -/
def mapValues {γ : Type} (f : β → γ) (map : AList fun _ : κ => β) : AList fun _ : κ => γ where
  entries := map.entries.map (Sigma.map id fun _ => f)
  nodupKeys := map.nodupKeys.map₂ (fun _ => f) _

theorem lookup_mapValues {γ : Type} (f : β → γ) (map : AList fun _ : κ => β) (key : κ) :
    (mapValues f map).lookup key = (map.lookup key).map f := by
  ext value
  rw [lookup_eq_some, Option.map_eq_some_iff, mapValues, List.mem_map]
  constructor
  · rintro ⟨⟨key, value⟩, hmem, ⟨⟩⟩
    exact ⟨value, lookup_eq_some.mpr hmem, rfl⟩
  · rintro ⟨value, hlookup, rfl⟩
    exact ⟨⟨key, value⟩, lookup_eq_some.mp hlookup, rfl⟩

/-- Through what is fresh, the map shows this. -/
def Shows (fresh : β → Bool) (map : AList fun _ : κ => β) (plain : κ → Option β) : Prop :=
  ∀ key, (map.lookup key).filter fresh = (plain key).filter fresh

variable {fresh : β → Bool} {plain : κ → Option β}

theorem Shows.empty : Shows fresh (∅ : AList fun _ : κ => β) fun _ => none := by
  intro key
  simp

theorem Shows.insert (h : Shows fresh map plain) (key : κ) (value : β) :
    Shows fresh (map.insert key value) (Function.update plain key (some value)) := by
  intro other
  by_cases hkey : other = key
  · subst hkey
    simp
  · rw [AList.lookup_insert_ne hkey, Function.update_of_ne hkey, h other]

theorem Shows.erase (h : Shows fresh map plain) (key : κ) :
    Shows fresh (map.erase key) (Function.update plain key none) := by
  intro other
  by_cases hkey : other = key
  · subst hkey
    simp
  · rw [AList.lookup_erase_ne hkey, Function.update_of_ne hkey, h other]

/-- Only stale entries are dropped. -/
theorem Shows.retain (h : Shows fresh map plain) (hkeep : ∀ value, fresh value = true → keep value = true) :
    Shows fresh (Expiry.retain keep map) plain := by
  intro key
  rw [lookup_retain, Option.filter_filter, ← h key]
  congr 1
  funext value
  cases hfresh : fresh value with
  | false => simp
  | true => simp [hkeep value hfresh]

end Expiry
