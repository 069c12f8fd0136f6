/-
Machines and the conditions their runs meet.

A machine is a start state and a partial step function.  A run is a list of
labels.  Labels that are not enabled stop a run, so every statement below about
"the states of a run" speaks about the enabled prefix.

`Always P` says that every state a run passes through satisfies `P`, and
`Meets C` says that every step the run takes is taken in a state and with a
label that satisfy `C`.  The two rules this file exists for are `always_of_meets`,
which turns an invariant preserved by the steps that meet `C` into a fact about
runs, and `always_iff_meets`, which adds the converse when every step that
misses `C` leaves `P` at once.

`Can P` says that some run leads on to `P`; `not_can_of_closed` is how one shows that
none does.

`records r` collects what `r` reads off the steps of a run; an entry of it is
from a state that satisfies what `Always` says.
-/
import Mathlib.Data.Option.Basic

structure Machine (σ ι : Type) where
  init : σ
  step : σ → ι → Option σ

namespace Machine

variable {σ ι : Type} (M : Machine σ ι)

/-- The state a run ends in, when all of its labels are enabled in turn. -/
def run : σ → List ι → Option σ
  | s, [] => some s
  | s, i :: is => (M.step s i).bind fun t => run t is

/-- Every state the run passes through satisfies `P`. -/
def Always (P : σ → Prop) : σ → List ι → Prop
  | s, [] => P s
  | s, i :: is => P s ∧ ∀ t, M.step s i = some t → Always P t is

/-- Every step the run takes satisfies `C`. -/
def Meets (C : σ → ι → Prop) : σ → List ι → Prop
  | _, [] => True
  | s, i :: is => ∀ t, M.step s i = some t → C s i ∧ Meets C t is

/-- The steps the run takes, each with the state it is taken in. -/
def steps : σ → List ι → List (σ × ι)
  | _, [] => []
  | s, i :: is =>
      match M.step s i with
      | none => []
      | some t => (s, i) :: steps t is

/-- What the steps of the run leave in a record. -/
def records {α : Type} (r : σ → ι → Option α) (s : σ) (is : List ι) : List α :=
  (M.steps s is).filterMap fun p => r p.1 p.2

/-- Whether the steps of a run meet a condition that can be decided. -/
instance decidableMeets (C : σ → ι → Prop) [∀ s i, Decidable (C s i)] :
    ∀ s is, Decidable (M.Meets C s is)
  | _, [] => isTrue trivial
  | s, i :: is =>
      match hstep : M.step s i with
      | none => isTrue fun t ht => absurd (hstep.symm.trans ht) (Option.some_ne_none t).symm
      | some t =>
          have := decidableMeets C t is
          decidable_of_iff (C s i ∧ M.Meets C t is) <| by
            constructor
            · intro h u hu
              rwa [← Option.some.inj (hstep.symm.trans hu)]
            · exact fun h => h t hstep

/-- Whether the states of a run satisfy a property that can be decided. -/
instance decidableAlways (P : σ → Prop) [DecidablePred P] : ∀ s is, Decidable (M.Always P s is)
  | s, [] => inferInstanceAs (Decidable (P s))
  | s, i :: is =>
      match hstep : M.step s i with
      | none => decidable_of_iff (P s) ⟨fun h => ⟨h, fun t ht =>
          absurd (hstep.symm.trans ht) (Option.some_ne_none t).symm⟩, And.left⟩
      | some t =>
          have := decidableAlways P t is
          decidable_of_iff (P s ∧ M.Always P t is) <| by
            constructor
            · rintro ⟨h, ht⟩
              exact ⟨h, fun u hu => by rwa [← Option.some.inj (hstep.symm.trans hu)]⟩
            · exact fun h => ⟨h.1, h.2 t hstep⟩

/-- States some run from the start reaches. -/
def Reachable (s : σ) : Prop := ∃ is, M.run M.init is = some s

/-- Some run from this state ends in one that satisfies `P`. -/
def Can (P : σ → Prop) (s : σ) : Prop := ∃ is t, M.run s is = some t ∧ P t

@[simp] theorem run_nil (s : σ) : M.run s [] = some s := rfl

theorem run_cons (s : σ) (i : ι) (is : List ι) :
    M.run s (i :: is) = (M.step s i).bind fun t => M.run t is := rfl

theorem run_append (s : σ) (is js : List ι) :
    M.run s (is ++ js) = (M.run s is).bind fun t => M.run t js := by
  induction is generalizing s with
  | nil => rfl
  | cons i is ih =>
      rw [List.cons_append, run_cons, run_cons, Option.bind_assoc]
      exact congrArg _ (funext fun t => ih t)

theorem run_cons_eq_some {s u : σ} {i : ι} {is : List ι} (h : M.run s (i :: is) = some u) :
    ∃ t, M.step s i = some t ∧ M.run t is = some u :=
  Option.bind_eq_some_iff.mp h

variable {M}

theorem Always.head {P : σ → Prop} {s : σ} {is : List ι} (h : M.Always P s is) : P s := by
  cases is with
  | nil => exact h
  | cons i is => exact h.1

theorem Always.mono {P Q : σ → Prop} (hPQ : ∀ s, P s → Q s) {s : σ} {is : List ι}
    (h : M.Always P s is) : M.Always Q s is := by
  induction is generalizing s with
  | nil => exact hPQ s h
  | cons i is ih => exact ⟨hPQ s h.1, fun t ht => ih (h.2 t ht)⟩

/-- The end of a run is one of its states. -/
theorem Always.last {P : σ → Prop} {s t : σ} {is : List ι} (h : M.Always P s is)
    (hr : M.run s is = some t) : P t := by
  induction is generalizing s with
  | nil =>
      have hst : s = t := Option.some.inj hr
      exact hst ▸ h
  | cons i is ih =>
      obtain ⟨u, hu, hrest⟩ := M.run_cons_eq_some hr
      exact ih (h.2 u hu) hrest

theorem steps_cons {s t : σ} {i : ι} (h : M.step s i = some t) (is : List ι) :
    M.steps s (i :: is) = (s, i) :: M.steps t is := by
  rw [steps, h]

/-- Every step of a run is taken in one of its states. -/
theorem Always.of_mem_steps {P : σ → Prop} {s : σ} {is : List ι} (h : M.Always P s is) {p : σ × ι}
    (hp : p ∈ M.steps s is) : P p.1 := by
  induction is generalizing s with
  | nil => cases hp
  | cons i is ih =>
      cases hstep : M.step s i with
      | none =>
          rw [steps, hstep] at hp
          cases hp
      | some t =>
          rw [steps_cons hstep] at hp
          rcases List.mem_cons.mp hp with rfl | hp
          · exact h.1
          · exact ih (h.2 t hstep) hp

/-- Every entry of a record is from a state of the run. -/
theorem Always.of_mem_records {α : Type} {r : σ → ι → Option α} {P : σ → Prop} {s : σ}
    {is : List ι} (h : M.Always P s is) {x : α} (hx : x ∈ M.records r s is) :
    ∃ t i, P t ∧ r t i = some x := by
  obtain ⟨p, hp, hr⟩ := List.mem_filterMap.mp hx
  exact ⟨p.1, p.2, h.of_mem_steps hp, hr⟩

theorem mem_records_cons {α : Type} {r : σ → ι → Option α} {s t : σ} {i : ι}
    (h : M.step s i = some t) (is : List ι) {x : α} :
    x ∈ M.records r s (i :: is) ↔ r s i = some x ∨ x ∈ M.records r t is := by
  unfold records
  rw [steps_cons h, List.mem_filterMap, List.mem_filterMap]
  simp only [List.mem_cons, exists_eq_or_imp]

/-- The invariant rule for runs under a condition: what every step that meets
`C` preserves holds in every state of every run that meets `C`. -/
theorem always_of_meets {C : σ → ι → Prop} {I : σ → Prop}
    (hstep : ∀ s i t, I s → C s i → M.step s i = some t → I t)
    {s : σ} {is : List ι} (hs : I s) (h : M.Meets C s is) : M.Always I s is := by
  induction is generalizing s with
  | nil => exact hs
  | cons i is ih =>
      exact ⟨hs, fun t ht => ih (hstep s i t hs (h t ht).1 ht) (h t ht).2⟩

/-- The invariant rule without a condition. -/
theorem always_of_step {I : σ → Prop} (hstep : ∀ s i t, I s → M.step s i = some t → I t)
    {s : σ} (is : List ι) (hs : I s) : M.Always I s is := by
  induction is generalizing s with
  | nil => exact hs
  | cons i is ih => exact ⟨hs, fun t ht => ih (hstep s i t hs ht)⟩

theorem invariant {I : σ → Prop} (hinit : I M.init)
    (hstep : ∀ s i t, I s → M.step s i = some t → I t) {s : σ} (hs : M.Reachable s) : I s := by
  obtain ⟨is, his⟩ := hs
  exact (always_of_step hstep is hinit).last his

theorem can_of_self {P : σ → Prop} {s : σ} (hs : P s) : M.Can P s := ⟨[], s, rfl, hs⟩

theorem can_of_step {P : σ → Prop} {s t : σ} {i : ι} (h : M.step s i = some t) (ht : M.Can P t) :
    M.Can P s := by
  obtain ⟨is, u, hrun, hu⟩ := ht
  refine ⟨i :: is, u, ?_, hu⟩
  rw [run_cons, h, Option.bind_some, hrun]

/-- No run gets out of a set of states that steps stay in. -/
theorem not_can_of_closed {P I : σ → Prop} (hstep : ∀ s i t, I s → M.step s i = some t → I t)
    (hP : ∀ s, I s → ¬P s) {s : σ} (hs : I s) : ¬M.Can P s := by
  rintro ⟨is, t, hrun, ht⟩
  exact hP t ((always_of_step hstep is hs).last hrun) ht

/-- The states of a run that meets `C`, reached one at a time. -/
theorem run_of_meets {C : σ → ι → Prop} {I : σ → Prop}
    (hstep : ∀ s i t, I s → C s i → M.step s i = some t → I t)
    {s t : σ} {is : List ι} (hs : I s) (h : M.Meets C s is) (hr : M.run s is = some t) : I t :=
  (always_of_meets hstep hs h).last hr

/-- When the steps that meet `C` preserve `I`, which implies `P`, and every step
that misses `C` leaves `P` at once, a run keeps `P` throughout exactly when all
its steps meet `C`. -/
theorem always_iff_meets {C : σ → ι → Prop} {I P : σ → Prop}
    (hstep : ∀ s i t, I s → C s i → M.step s i = some t → I t)
    (hP : ∀ s, I s → P s)
    (hexact : ∀ s i t, I s → M.step s i = some t → P t → C s i)
    {s : σ} {is : List ι} (hs : I s) : M.Always P s is ↔ M.Meets C s is := by
  refine ⟨fun h => ?_, fun h => (always_of_meets hstep hs h).mono hP⟩
  induction is generalizing s with
  | nil => trivial
  | cons i is ih =>
      intro t ht
      have hC : C s i := hexact s i t hs ht (h.2 t ht).head
      exact ⟨hC, ih (hstep s i t hs hC ht) (h.2 t ht)⟩

end Machine
