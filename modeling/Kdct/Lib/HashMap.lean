/-
Finite maps with one value for each key.

`HashMap` is Mathlib's association list without duplicate keys.  What a map
holds is always read through `lookup`, so nothing here depends on the order of
the entries.
-/
import Mathlib.Data.List.AList

abbrev HashMap (κ ν : Type) := AList fun _ : κ => ν

namespace HashMap

variable {κ ν : Type} [DecidableEq κ]

/-- The entries that satisfy `p`. -/
def retain (p : κ → ν → Bool) (m : HashMap κ ν) : HashMap κ ν :=
  ⟨m.entries.filter fun e => p e.1 e.2, m.nodupKeys.sublist List.filter_sublist⟩

theorem lookup_insert_eq (m : HashMap κ ν) (a k : κ) (v : ν) :
    (m.insert a v).lookup k = if k = a then some v else m.lookup k := by
  split
  · rename_i h
    rw [h, AList.lookup_insert]
  · rename_i h
    exact AList.lookup_insert_ne h

theorem lookup_erase_eq (m : HashMap κ ν) (a k : κ) :
    (m.erase a).lookup k = if k = a then none else m.lookup k := by
  split
  · rename_i h
    rw [h, AList.lookup_erase]
  · rename_i h
    exact AList.lookup_erase_ne h

theorem lookup_erase_eq_some {m : HashMap κ ν} {a k : κ} {v : ν} :
    (m.erase a).lookup k = some v ↔ k ≠ a ∧ m.lookup k = some v := by
  rw [lookup_erase_eq]
  split
  · rename_i h
    exact ⟨fun h' => (by cases h'), fun h' => absurd h h'.1⟩
  · rename_i h
    exact ⟨fun h' => ⟨h, h'⟩, And.right⟩

theorem lookup_retain {p : κ → ν → Bool} {m : HashMap κ ν} {k : κ} {v : ν} :
    (retain p m).lookup k = some v ↔ m.lookup k = some v ∧ p k v = true := by
  rw [← Option.mem_def, ← Option.mem_def, AList.mem_lookup_iff, AList.mem_lookup_iff]
  exact List.mem_filter

end HashMap
