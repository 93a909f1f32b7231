import Mathlib.Data.List.Basic
import Std.Data.ExtTreeMap

/-! Logs of entries with a key and an order of time, newest first: the latest entry under each key, as a
search finds it and as a fold over the entries, oldest first, gathers it in a map. -/

namespace Latest

open Std (ExtTreeMap)

variable {α β κ : Type} [Ord κ] [Std.TransOrd κ] [Std.LawfulEqOrd κ]

/-- The values of a map in the order of their keys, as far as a partial function is defined on them,
depend on nothing else. -/
theorem filterMap_toList_congr {left right : ExtTreeMap κ α} {f : α → Option β}
    (h : ∀ k : κ, left[k]?.bind f = right[k]?.bind f) :
    left.toList.filterMap (fun entry => f entry.2) = right.toList.filterMap fun entry => f entry.2 := by
  have hfilter (m : ExtTreeMap κ α) : m.toList.filterMap (fun entry => f entry.2) =
      (m.filterMap fun _ value => f value).toList.map (·.2) := by
    rw [ExtTreeMap.toList_filterMap, List.map_filterMap]
    refine List.filterMap_congr fun entry _ => ?_
    cases f entry.2 <;> rfl
  have hsame : (left.filterMap fun _ value => f value) = right.filterMap fun _ value => f value := by
    refine ExtTreeMap.ext_getElem? fun {k} => ?_
    rw [ExtTreeMap.getElem?_filterMap', ExtTreeMap.getElem?_filterMap']
    exact h k
  rw [hfilter, hfilter, hsame]

variable [DecidableEq κ]

/-- Keep an entry under its key unless the one already there is as new. -/
def keepNewer (key : α → κ) (newer : α → α → Bool) (latest : ExtTreeMap κ α) (entry : α) : ExtTreeMap κ α :=
  latest.alter (key entry) fun
    | none => some entry
    | some existing => some (if newer entry existing then entry else existing)

/-- Gathering the entries of a log, oldest first, finds the latest of each key. -/
theorem getElem?_foldl_keepNewer {key : α → κ} {newer : α → α → Bool} {log : List α}
    (hordered : log.Pairwise fun entry older => key entry = key older → newer entry older = true) (k : κ) :
    (log.reverse.foldl (keepNewer key newer) ∅)[k]? = log.find? fun entry => decide (key entry = k) := by
  rw [List.foldl_reverse]
  induction log with
  | nil => simp
  | cons entry log ih =>
      obtain ⟨hnewest, hordered⟩ := List.pairwise_cons.mp hordered
      have ih := ih hordered
      rw [List.foldr_cons, keepNewer, ExtTreeMap.getElem?_alter, List.find?_cons]
      by_cases hk : key entry = k
      · subst hk
        simp only [Std.compare_self, if_true, decide_true, ih]
        cases hfound : log.find? fun older => decide (key older = key entry) with
        | none => rfl
        | some older =>
            have hkey : key older = key entry := by simpa using List.find?_some hfound
            simp [hnewest older (List.mem_of_find?_eq_some hfound) hkey.symm]
      · have hne : compare (key entry) k ≠ .eq := fun h => hk (Std.LawfulEqOrd.eq_of_compare h)
        simp only [hne, hk, if_false, decide_false, ih]

/-- Put a value at the end of the list under a key. -/
def push (groups : ExtTreeMap κ (List β)) (k : κ) (value : β) : ExtTreeMap κ (List β) :=
  groups.alter k fun values => some (values.getD [] ++ [value])

theorem getD_push (groups : ExtTreeMap κ (List β)) (k k' : κ) (value : β) :
    (push groups k value)[k']?.getD [] = groups[k']?.getD [] ++ if k = k' then [value] else [] := by
  rw [push, ExtTreeMap.getElem?_alter]
  by_cases hk : k = k'
  · subst hk
    simp
  · have hne : compare k k' ≠ .eq := fun h => hk (Std.LawfulEqOrd.eq_of_compare h)
    simp [hne, hk]

end Latest
