/-
Boxes on a heap.

An address may be used again once its box is freed, so each box also has a serial number,
and `freed` holds the numbers of the boxes that were freed.  Reading, writing or freeing
an address without a box fails; `Sound` says that every box is alive at one address or was
freed once.
-/
import Kdct.Lib.HashMap

structure Heap (α : Type) where
  /-- The number and the contents of the box at an address. -/
  cells : HashMap Nat (Nat × α)
  allocated : Nat
  freed : List Nat

namespace Heap

variable {α : Type}

def empty : Heap α := ⟨∅, 0, []⟩

def read (h : Heap α) (a : Nat) : Option α := (h.cells.lookup a).map Prod.snd

/-- A new box at an address that the allocator chose. -/
def alloc (h : Heap α) (a : Nat) (x : α) : Option (Heap α) :=
  if (h.read a).isSome then none
  else some { h with cells := h.cells.insert a (h.allocated, x), allocated := h.allocated + 1 }

def write (h : Heap α) (a : Nat) (x : α) : Option (Heap α) :=
  (h.cells.lookup a).map fun cell => { h with cells := h.cells.insert a (cell.1, x) }

/-- The contents of the box, which is no longer there. -/
def free (h : Heap α) (a : Nat) : Option (α × Heap α) :=
  (h.cells.lookup a).map fun cell =>
    (cell.2, { h with cells := h.cells.erase a, freed := cell.1 :: h.freed })

/-! ## Reading -/

variable {h h' : Heap α} {a b : Nat} {x : α}

@[simp] theorem read_empty (a : Nat) : (empty : Heap α).read a = none := rfl

theorem read_alloc (halloc : h.alloc a x = some h') (b : Nat) :
    h'.read b = if b = a then some x else h.read b := by
  unfold alloc at halloc
  split at halloc
  · cases halloc
  · rw [← Option.some.inj halloc, read, HashMap.lookup_insert_eq]
    split
    · rfl
    · rfl

theorem read_write (hwrite : h.write a x = some h') (b : Nat) :
    h'.read b = if b = a then some x else h.read b := by
  obtain ⟨cell, -, rfl⟩ := Option.map_eq_some_iff.mp hwrite
  rw [read, HashMap.lookup_insert_eq]
  split
  · rfl
  · rfl

theorem read_free (hfree : h.free a = some (x, h')) (b : Nat) :
    h'.read b = if b = a then none else h.read b := by
  obtain ⟨cell, -, heq⟩ := Option.map_eq_some_iff.mp hfree
  rw [← (Prod.mk.inj heq).2, read, HashMap.lookup_erase_eq]
  split
  · rfl
  · rfl

theorem exists_alloc (hread : h.read a = none) (x : α) : ∃ h', h.alloc a x = some h' := by
  rw [alloc, hread]
  exact ⟨_, rfl⟩

theorem exists_write {y : α} (hread : h.read a = some y) (x : α) : ∃ h', h.write a x = some h' := by
  obtain ⟨cell, hcell, -⟩ := Option.map_eq_some_iff.mp hread
  rw [write, hcell]
  exact ⟨_, rfl⟩

theorem exists_free (hread : h.read a = some x) : ∃ h', h.free a = some (x, h') := by
  obtain ⟨cell, hcell, rfl⟩ := Option.map_eq_some_iff.mp hread
  rw [free, hcell]
  exact ⟨_, rfl⟩

/-! ## Boxes are freed once -/

structure Sound (h : Heap α) : Prop where
  /-- A box that is there was not freed. -/
  live : ∀ a i x, h.cells.lookup a = some (i, x) → i < h.allocated ∧ i ∉ h.freed
  /-- No box is at two addresses. -/
  apart : ∀ a b i x y, h.cells.lookup a = some (i, x) → h.cells.lookup b = some (i, y) → a = b
  once : h.freed.Nodup
  bound : ∀ i ∈ h.freed, i < h.allocated
  /-- A box that is not there was freed. -/
  kept : ∀ i, i < h.allocated → i ∈ h.freed ∨ ∃ a x, h.cells.lookup a = some (i, x)

theorem sound_empty : (empty : Heap α).Sound where
  live := nofun
  apart := nofun
  once := List.nodup_nil
  bound := nofun
  kept := nofun

theorem sound_alloc (hs : h.Sound) (halloc : h.alloc a x = some h') : h'.Sound := by
  unfold alloc at halloc
  split at halloc
  · cases halloc
  · rename_i hdead
    have hnone : h.cells.lookup a = none := by simpa [read] using hdead
    rw [← Option.some.inj halloc]
    have hlookup : ∀ b, (h.cells.insert a (h.allocated, x)).lookup b =
        if b = a then some (h.allocated, x) else h.cells.lookup b :=
      fun b => HashMap.lookup_insert_eq h.cells a b _
    constructor
    · intro b i y hb
      rw [hlookup] at hb
      split at hb
      · obtain ⟨rfl, -⟩ := Prod.mk.inj (Option.some.inj hb)
        exact ⟨Nat.lt_succ_self _, fun hmem => Nat.lt_irrefl _ (hs.bound _ hmem)⟩
      · have hold := hs.live b i y hb
        exact ⟨Nat.lt_succ_of_lt hold.1, hold.2⟩
    · intro b c i y z hb hc
      rw [hlookup] at hb hc
      split at hb
      · rename_i hba
        split at hc
        · rename_i hca
          rw [hba, hca]
        · obtain ⟨rfl, -⟩ := Prod.mk.inj (Option.some.inj hb)
          exact absurd (hs.live c _ z hc).1 (Nat.lt_irrefl _)
      · split at hc
        · obtain ⟨rfl, -⟩ := Prod.mk.inj (Option.some.inj hc)
          exact absurd (hs.live b _ y hb).1 (Nat.lt_irrefl _)
        · exact hs.apart b c i y z hb hc
    · exact hs.once
    · exact fun i hi => Nat.lt_succ_of_lt (hs.bound i hi)
    · intro i hi
      rcases Nat.lt_succ_iff_lt_or_eq.mp hi with hlt | rfl
      · refine (hs.kept i hlt).imp_right ?_
        rintro ⟨b, y, hb⟩
        have hne : b ≠ a := by
          rintro rfl
          rw [hnone] at hb
          cases hb
        exact ⟨b, y, by rw [hlookup, if_neg hne, hb]⟩
      · exact .inr ⟨a, x, by rw [hlookup, if_pos rfl]⟩

theorem sound_write (hs : h.Sound) (hwrite : h.write a x = some h') : h'.Sound := by
  obtain ⟨⟨n, old⟩, hcell, rfl⟩ := Option.map_eq_some_iff.mp hwrite
  have hlookup : ∀ b i, (∃ y, (h.cells.insert a (n, x)).lookup b = some (i, y)) ↔
      ∃ y, h.cells.lookup b = some (i, y) := by
    intro b i
    rw [HashMap.lookup_insert_eq]
    split
    · rename_i hba
      rw [hba, hcell]
      simp
    · exact Iff.rfl
  constructor
  · intro b i y hb
    obtain ⟨z, hz⟩ := (hlookup b i).mp ⟨y, hb⟩
    exact hs.live b i z hz
  · intro b c i y z hb hc
    obtain ⟨y', hy⟩ := (hlookup b i).mp ⟨y, hb⟩
    obtain ⟨z', hz⟩ := (hlookup c i).mp ⟨z, hc⟩
    exact hs.apart b c i y' z' hy hz
  · exact hs.once
  · exact hs.bound
  · intro i hi
    refine (hs.kept i hi).imp_right ?_
    rintro ⟨b, y, hb⟩
    obtain ⟨z, hz⟩ := (hlookup b i).mpr ⟨y, hb⟩
    exact ⟨b, z, hz⟩

theorem sound_free (hs : h.Sound) (hfree : h.free a = some (x, h')) : h'.Sound := by
  obtain ⟨⟨n, old⟩, hcell, heq⟩ := Option.map_eq_some_iff.mp hfree
  rw [← (Prod.mk.inj heq).2]
  have hlive := hs.live a n old hcell
  constructor
  · intro b i y hb
    obtain ⟨hba, hold⟩ := HashMap.lookup_erase_eq_some.mp hb
    refine ⟨(hs.live b i y hold).1, ?_⟩
    rw [List.mem_cons, not_or]
    refine ⟨?_, (hs.live b i y hold).2⟩
    rintro rfl
    exact hba (hs.apart b a i y old hold hcell)
  · intro b c i y z hb hc
    exact hs.apart b c i y z (HashMap.lookup_erase_eq_some.mp hb).2
      (HashMap.lookup_erase_eq_some.mp hc).2
  · exact List.nodup_cons.mpr ⟨hlive.2, hs.once⟩
  · intro i hi
    rcases List.mem_cons.mp hi with rfl | hi
    · exact hlive.1
    · exact hs.bound i hi
  · intro i hi
    rcases hs.kept i hi with hfreed | ⟨b, y, hb⟩
    · exact .inl (List.mem_cons_of_mem n hfreed)
    · by_cases hba : b = a
      · subst hba
        obtain ⟨rfl, -⟩ := Prod.mk.inj (Option.some.inj (hcell.symm.trans hb))
        exact .inl List.mem_cons_self
      · exact .inr ⟨b, y, HashMap.lookup_erase_eq_some.mpr ⟨hba, hb⟩⟩

/-- Once no box is left, each was freed exactly once. -/
theorem count_freed (hs : h.Sound) (hnone : ∀ a, h.read a = none) (i : Nat) :
    h.freed.count i = if i < h.allocated then 1 else 0 := by
  split
  · rename_i hlt
    rcases hs.kept i hlt with hfreed | ⟨a, x, hcell⟩
    · exact List.count_eq_one_of_mem hs.once hfreed
    · have hread := hnone a
      rw [read, hcell] at hread
      cases hread
  · rename_i hge
    exact List.count_eq_zero_of_not_mem fun hmem => hge (hs.bound i hmem)

end Heap
