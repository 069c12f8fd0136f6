/-
Tasks that come to rest, and the locks they hold.

Some labels of a machine are its own, the others come from outside.  A state settles
when own steps alone come to an end, and is at rest when no own step is enabled.
Tasks are a multiset of ranks, and `settles_of_tasks` is the rule this file exists for:
a machine whose own steps replace one task by tasks of smaller rank settles.  A step
may spawn tasks without end to their number, as long as each ranks below the task that
spawns it.

`LockStep` says what a step of one task may do with a lock.  `LockOk` says that the
lock is held by exactly the tasks that are in their critical section, so by at most
one, and `LockOk.update` keeps it.
-/
import Kdct.Lib.Machine
import Mathlib.Algebra.BigOperators.Group.Finset.Basic
import Mathlib.Logic.Function.Basic
import Mathlib.Logic.Hydra

namespace Machine

variable {σ ι : Type} (M : Machine σ ι) (own : ι → Prop)

/-- One own step leads from `s` to `t`. -/
def After (t s : σ) : Prop := ∃ i, own i ∧ M.step s i = some t

/-- No own step is enabled. -/
def AtRest (s : σ) : Prop := ∀ i, own i → M.step s i = none

/-- Own steps alone come to an end. -/
def Settles (s : σ) : Prop := Acc (M.After own) s

variable {M own}

/-- A machine whose own steps replace one task by smaller ones settles. -/
theorem settles_of_tasks {α : Type} {r : α → α → Prop} (hr : WellFounded r) {I : σ → Prop}
    (tasks : σ → Multiset α)
    (hkeep : ∀ s i t, I s → own i → M.step s i = some t → I t)
    (hstep : ∀ s i t, I s → own i → M.step s i = some t →
      Relation.CutExpand r (tasks t) (tasks s))
    {s : σ} (hs : I s) : M.Settles own s := by
  have hacc : ∀ m : Multiset α, Acc (Relation.CutExpand r) m := hr.cutExpand.apply
  have hsettles : ∀ m : Multiset α, ∀ s, tasks s = m → I s → M.Settles own s := by
    intro m
    induction hacc m with
    | intro m _ ih =>
        intro s hm hI
        refine Acc.intro s ?_
        rintro t ⟨i, hi, ht⟩
        have hcut : Relation.CutExpand r (tasks t) m := hm ▸ hstep s i t hI hi ht
        exact ih (tasks t) hcut t rfl (hkeep s i t hI hi ht)
  exact hsettles (tasks s) s rfl hs

/-- Own steps do not go on for ever. -/
theorem Settles.exists_not_after {s : σ} (h : M.Settles own s) (f : ℕ → σ) (hf : f 0 = s) :
    ∃ n, ¬M.After own (f (n + 1)) (f n) := by
  induction h generalizing f with
  | intro s _ ih =>
      by_cases hstep : M.After own (f 1) (f 0)
      · obtain ⟨n, hn⟩ := ih (f 1) (hf ▸ hstep) (fun n => f (n + 1)) rfl
        exact ⟨n + 1, hn⟩
      · exact ⟨0, hstep⟩

/-- Own steps lead to a state at rest. -/
theorem Settles.exists_atRest {s : σ} (h : M.Settles own s) :
    ∃ is t, (∀ i ∈ is, own i) ∧ M.run s is = some t ∧ M.AtRest own t := by
  induction h with
  | intro s _ ih =>
      by_cases hrest : M.AtRest own s
      · exact ⟨[], s, by simp, rfl, hrest⟩
      · unfold AtRest at hrest
        push Not at hrest
        obtain ⟨i, hi, hsome⟩ := hrest
        obtain ⟨t, ht⟩ := Option.ne_none_iff_exists'.mp hsome
        obtain ⟨is, u, his, hrun, hu⟩ := ih t ⟨i, hi, ht⟩
        refine ⟨i :: is, u, ?_, ?_, hu⟩
        · intro j hj
          rcases List.mem_cons.mp hj with rfl | hj
          · exact hi
          · exact his j hj
        · rw [run_cons, ht]
          exact hrun

/-- What every own step keeps is kept by a run of them. -/
theorem run_of_own {I : σ → Prop} (hstep : ∀ s i t, I s → own i → M.step s i = some t → I t)
    {s t : σ} {is : List ι} (hs : I s) (his : ∀ i ∈ is, own i) (hrun : M.run s is = some t) :
    I t := by
  induction is generalizing s with
  | nil =>
      obtain rfl := Option.some.inj hrun
      exact hs
  | cons i is ih =>
      obtain ⟨u, hu, hrest⟩ := M.run_cons_eq_some hrun
      have hown := his i List.mem_cons_self
      exact ih (hstep s i u hs hown hu) (fun j hj => his j (List.mem_cons_of_mem i hj)) hrest

/-! ## Tasks in slots -/

section Slots

variable {α : Type} {r : α → α → Prop} {slots slots' : ℕ → Multiset α} {n k : ℕ}

/-- A task that may be over. -/
def one (o : Option α) : Multiset α := o.elim 0 fun a => {a}

theorem cutExpand_one {o : Option α} {a : α} (h : ∀ b ∈ o, r b a) :
    Relation.CutExpand r (one o) {a} := by
  cases o with
  | none => exact Relation.cutExpand_zero
  | some b => exact Relation.cutExpand_singleton_singleton (h b rfl)

/-- The tasks of the first `n` slots. -/
def inSlots (slots : ℕ → Multiset α) (n : ℕ) : Multiset α := ∑ k ∈ Finset.range n, slots k

theorem inSlots_succ (slots : ℕ → Multiset α) (n : ℕ) :
    inSlots slots (n + 1) = inSlots slots n + slots n := Finset.sum_range_succ slots n

theorem inSlots_congr (h : ∀ k < n, slots' k = slots k) : inSlots slots' n = inSlots slots n :=
  Finset.sum_congr rfl fun k hk => h k (Finset.mem_range.mp hk)

/-- One slot and the others. -/
theorem inSlots_erase (slots : ℕ → Multiset α) (hk : k < n) :
    inSlots slots n = slots k + ∑ j ∈ (Finset.range n).erase k, slots j :=
  (Finset.add_sum_erase _ slots (Finset.mem_range.mpr hk)).symm

/-- A step in one slot is a step of all. -/
theorem cutExpand_inSlots (hk : k < n) (hother : ∀ j, j ≠ k → slots' j = slots j)
    (hstep : Relation.CutExpand r (slots' k) (slots k)) :
    Relation.CutExpand r (inSlots slots' n) (inSlots slots n) := by
  have hrest : ∑ j ∈ (Finset.range n).erase k, slots' j = ∑ j ∈ (Finset.range n).erase k, slots j :=
    Finset.sum_congr rfl fun j hj => hother j (Finset.ne_of_mem_erase hj)
  rw [inSlots_erase slots' hk, inSlots_erase slots hk, hrest]
  exact (Relation.cutExpand_add_right _).mpr hstep

end Slots

end Machine

/-! ## Locks -/

section Locks

variable {η : Type}

/-- What a step of the task `h` does with a lock, when it is in its critical section
before as `b` and after as `b'` says. -/
inductive LockStep (h : η) (b b' : Bool) (lock lock' : Option η) : Prop
  | keep (hlock : lock' = lock) (hb : b' = b)
  | acquire (hfree : lock = none) (hlock : lock' = some h) (hb : b' = true)
  | release (hin : b = true) (hlock : lock' = none) (hb : b' = false)

/-- The lock is held by the task that is in its critical section. -/
def LockOk (critical : η → Bool) (lock : Option η) : Prop :=
  ∀ h, lock = some h ↔ critical h = true

/-- No two tasks are in their critical sections at once. -/
theorem LockOk.unique {critical : η → Bool} {lock : Option η} (hok : LockOk critical lock)
    {h h' : η} (hh : critical h = true) (hh' : critical h' = true) : h = h' :=
  Option.some.inj (((hok h).mpr hh).symm.trans ((hok h').mpr hh'))

variable [DecidableEq η]

theorem LockOk.update {critical : η → Bool} {lock lock' : Option η} {h : η} {b' : Bool}
    (hok : LockOk critical lock) (hstep : LockStep h (critical h) b' lock lock') :
    LockOk (Function.update critical h b') lock' := by
  intro k
  by_cases hk : k = h
  · subst hk
    rw [Function.update_self]
    cases hstep with
    | keep hlock hb => rw [hlock, hb, hok k]
    | acquire _ hlock hb => simp [hlock, hb]
    | release _ hlock hb => simp [hlock, hb]
  · rw [Function.update_of_ne hk]
    cases hstep with
    | keep hlock _ => rw [hlock, hok k]
    | acquire hfree hlock _ =>
        have hout : critical k ≠ true := fun hin => by
          rw [hfree] at hok
          exact absurd ((hok k).mpr hin) (by simp)
        rw [hlock]
        exact ⟨fun heq => absurd (Option.some.inj heq).symm hk, fun hin => absurd hin hout⟩
    | release hin hlock _ =>
        have hout : critical k ≠ true := fun hk' => hk (hok.unique hk' hin)
        rw [hlock]
        exact ⟨fun heq => (by cases heq), fun hin => absurd hin hout⟩

end Locks
