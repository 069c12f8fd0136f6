/-
What goes into a machine, what comes out of it and what it remembers.

`entering` and `leaving` read off the steps of a run what goes in and what comes out, and
`pending` is what a state still holds, oldest first.  When a step gives out the oldest of
what is held, takes the new in at the other end and may lose some on the way, a run gives
out a part of what it takes in, in the same order and nothing twice (`records_sublist`).  What
every step overwrites or leaves alone is, at the end, what was last written
(`eq_last_record`).
-/
import Kdct.Lib.Machine

namespace Machine

variable {σ ι α : Type} {M : Machine σ ι}

theorem records_nil (r : σ → ι → Option α) (s : σ) : M.records r s [] = [] := rfl

theorem records_cons (r : σ → ι → Option α) {s t : σ} {i : ι} (h : M.step s i = some t)
    (is : List ι) : M.records r s (i :: is) = (r s i).toList ++ M.records r t is := by
  unfold records
  rw [steps_cons h, List.filterMap_cons]
  cases r s i <;> rfl

theorem records_cons_of_none (r : σ → ι → Option α) {s : σ} {i : ι} (h : M.step s i = none)
    (is : List ι) : M.records r s (i :: is) = [] := by
  unfold records
  rw [steps, h]
  rfl

variable {I : σ → Prop} {entering leaving : σ → ι → Option α}

theorem records_sublist (pending : σ → List α) (hkeep : ∀ s i t, I s → M.step s i = some t → I t)
    (hstep : ∀ s i t, I s → M.step s i = some t →
      ((leaving s i).toList ++ pending t).Sublist (pending s ++ (entering s i).toList))
    {s : σ} (hs : I s) (is : List ι) :
    (M.records leaving s is).Sublist (pending s ++ M.records entering s is) := by
  induction is generalizing s with
  | nil =>
      rw [records_nil]
      exact List.nil_sublist _
  | cons i is ih =>
      cases ht : M.step s i with
      | none =>
          rw [records_cons_of_none leaving ht]
          exact List.nil_sublist _
      | some t =>
          rw [records_cons leaving ht, records_cons entering ht]
          have hnow := (hstep s i t hs ht).append_right (M.records entering t is)
          have hlater := (ih (hkeep s i t hs ht)).append_left (leaving s i).toList
          rw [← List.append_assoc] at hlater ⊢
          exact hlater.trans hnow

theorem eq_last_record {β : Type} (part : σ → Option β) {r : σ → ι → Option β}
    (hstep : ∀ s i t, M.step s i = some t → part t = (r s i).or (part s)) {s t : σ}
    {is : List ι} (h : M.run s is = some t) :
    part t = (M.records r s is).getLast?.or (part s) := by
  induction is generalizing s with
  | nil =>
      obtain rfl := Option.some.inj h
      rfl
  | cons i is ih =>
      obtain ⟨u, hu, hrest⟩ := M.run_cons_eq_some h
      rw [ih hrest, records_cons r hu, hstep s i u hu]
      cases r s i with
      | none => rfl
      | some b =>
          rw [Option.toList_some, List.singleton_append, List.getLast?_cons]
          cases (M.records r u is).getLast? <;> rfl

end Machine
