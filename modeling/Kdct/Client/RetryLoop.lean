/-
The loop that keeps a client's control channel up (`ControlChannelHandle::new` in
`crates/tunnel/src/client.rs`).

An attempt to run the channel ends with an error, whether it ever got through or
not, and then the loop looks at how long the client has been away.  `CountsOutages`
is what its cache TTL is for: the containers go at the first retry of an outage
that has lasted longer, and at no other.  The loop never forgets when it failed
first and that it has cleaned up, so this holds exactly for the sequences of
attempts that `Forgettable` describes.
-/
import Mathlib.Data.List.Induction
import Mathlib.Data.List.TakeWhile

namespace Kdct

/-- A reading of a monotonic clock. -/
abbrev Time := Nat

structure TrackedContainer where
  containerName : String
  imageTag : String
  deriving DecidableEq

/-- What the handlers of `ImageStart` and `ImageStop` do to the tracked containers. -/
inductive ContainerEvent
  | started (c : TrackedContainer)
  | stopped (containerName : String)
  deriving DecidableEq

def ContainerEvent.track (containers : List TrackedContainer) : ContainerEvent →
    List TrackedContainer
  | .started c => containers ++ [c]
  | .stopped containerName => containers.filter fun c => c.containerName != containerName

/-- A call of `run` that has returned an error. -/
structure Attempt where
  /-- When the session was established, if it was. -/
  connected : Option Time
  ended : Time
  /-- What has happened to containers since the last attempt. -/
  events : List ContainerEvent
  deriving DecidableEq

structure RetryLoop where
  disconnectedAt : Option Time := none
  cleanupDone : Bool := false
  containers : List TrackedContainer := []
  deriving DecidableEq

namespace RetryLoop

/-- One turn of the loop.  The second part of the result is what it stops and
removes. -/
def turn (ttl : Time) (s : RetryLoop) (a : Attempt) : RetryLoop × Option (List TrackedContainer) :=
  let containers := a.events.foldl ContainerEvent.track s.containers
  let disconnectedAt := s.disconnectedAt.getD a.ended
  if !s.cleanupDone && ttl < a.ended - disconnectedAt then
    ({ disconnectedAt := some disconnectedAt, cleanupDone := true, containers := [] },
      some containers)
  else
    ({ s with disconnectedAt := some disconnectedAt, containers := containers }, none)

def after (ttl : Time) (attempts : List Attempt) : RetryLoop :=
  attempts.foldl (fun s a => (s.turn ttl a).1) {}

/-- What the loop stops and removes after the last of some attempts. -/
def cleanup (ttl : Time) (before : List Attempt) (a : Attempt) : Option (List TrackedContainer) :=
  ((after ttl before).turn ttl a).2

end RetryLoop

/-! ## Outages -/

/-- Since when the client has been away after an attempt. -/
def Attempt.outage (since : Option Time) (a : Attempt) : Time :=
  if a.connected.isSome then a.ended else since.getD a.ended

/-- Since when the client has been away. -/
def outageStart (attempts : List Attempt) : Option Time :=
  attempts.foldl (fun since a => some (a.outage since)) none

/-- The outage has lasted longer than the TTL. -/
def Overdue (ttl : Time) (before : List Attempt) (a : Attempt) : Prop :=
  a.outage (outageStart before) + ttl < a.ended

/-- Containers are only stopped and removed when no session was up in the last `ttl`,
and always at the first retry of an outage that has lasted longer. -/
def CountsOutages (ttl : Time) (attempts : List Attempt) : Prop :=
  ∀ before a after, attempts = before ++ a :: after →
    ((RetryLoop.cleanup ttl before a).isSome →
      ∀ b ∈ before ++ [a], b.connected.isSome → b.ended + ttl < a.ended) ∧
    (Overdue ttl before a → (∀ earlier b, before = earlier ++ [b] → ¬Overdue ttl earlier b) →
      (RetryLoop.cleanup ttl before a).isSome)

/-- Every outage that begins among the attempts ends within `ttl`; `since` is the
start of the one they begin in, if it counts. -/
def ShortOutages (ttl : Time) : Option Time → List Attempt → Prop
  | _, [] => True
  | since, a :: rest =>
      if a.connected.isSome then ShortOutages ttl (some a.ended) rest
      else (∀ d ∈ since, a.ended ≤ d + ttl) ∧ ShortOutages ttl since rest

instance decidableShortOutages (ttl : Time) :
    ∀ since attempts, Decidable (ShortOutages ttl since attempts)
  | _, [] => isTrue trivial
  | since, a :: rest => by
      unfold ShortOutages
      have := decidableShortOutages ttl since rest
      have := decidableShortOutages ttl (some a.ended) rest
      infer_instance

/-- When the first attempt that ends more than `ttl` after the loop's first error is
over, the client has been away for more than `ttl`, and no later outage lasts that
long. -/
def Forgettable (ttl : Time) (attempts : List Attempt) : Prop :=
  ∀ first ∈ attempts.head?,
    let early := attempts.takeWhile fun a => a.ended ≤ first.ended + ttl
    match attempts.dropWhile fun a => a.ended ≤ first.ended + ttl with
    | [] => True
    | a :: later =>
        a.connected = none ∧ (∀ b ∈ early, b.connected.isSome → b.ended + ttl < a.ended) ∧
          ShortOutages ttl none later

instance (ttl : Time) (attempts : List Attempt) : Decidable (Forgettable ttl attempts) := by
  unfold Forgettable
  have : ∀ first : Attempt, Decidable (
      let early := attempts.takeWhile fun a => a.ended ≤ first.ended + ttl
      match attempts.dropWhile fun a => a.ended ≤ first.ended + ttl with
      | [] => True
      | a :: later =>
          a.connected = none ∧ (∀ b ∈ early, b.connected.isSome → b.ended + ttl < a.ended) ∧
            ShortOutages ttl none later) := by
    intro first
    dsimp only
    split <;> infer_instance
  infer_instance

/-- Attempts follow each other. -/
def Chronological (attempts : List Attempt) : Prop :=
  attempts.Pairwise fun a b => a.ended ≤ b.ended

instance (attempts : List Attempt) : Decidable (Chronological attempts) :=
  inferInstanceAs (Decidable (attempts.Pairwise _))

/-! ## What the loop remembers -/

/-- The attempt ends more than `ttl` after the first of the attempts did. -/
def Late (ttl : Time) (attempts : List Attempt) (a : Attempt) : Prop :=
  ∀ first ∈ attempts.head?, first.ended + ttl < a.ended

instance (ttl : Time) (attempts : List Attempt) (a : Attempt) : Decidable (Late ttl attempts a) :=
  inferInstanceAs (Decidable (∀ first ∈ attempts.head?, _))

theorem outageStart_concat (before : List Attempt) (a : Attempt) :
    outageStart (before ++ [a]) = some (a.outage (outageStart before)) := by
  rw [outageStart, List.foldl_append]
  rfl

namespace RetryLoop

theorem after_concat (ttl : Time) (before : List Attempt) (a : Attempt) :
    after ttl (before ++ [a]) = ((after ttl before).turn ttl a).1 := by
  rw [after, List.foldl_append]
  rfl

theorem turn_disconnectedAt (ttl : Time) (s : RetryLoop) (a : Attempt) :
    (s.turn ttl a).1.disconnectedAt = some (s.disconnectedAt.getD a.ended) := by
  unfold turn
  dsimp only
  split <;> rfl

/-- What is stopped and removed is all that is tracked. -/
theorem turn_containers {ttl : Time} {s : RetryLoop} {a : Attempt} {cs : List TrackedContainer}
    (h : (s.turn ttl a).2 = some cs) :
    cs = a.events.foldl ContainerEvent.track s.containers ∧ (s.turn ttl a).1.containers = [] := by
  unfold turn at h ⊢
  dsimp only at h ⊢
  split at h
  · rename_i hcleans
    rw [if_pos hcleans]
    exact ⟨(Option.some.inj h).symm, rfl⟩
  · cases h

theorem turn_cleans {ttl : Time} {s : RetryLoop} {a : Attempt} :
    (s.turn ttl a).2.isSome ↔
      s.cleanupDone = false ∧ s.disconnectedAt.getD a.ended + ttl < a.ended := by
  unfold turn
  dsimp only
  split
  · rename_i hcleans
    simp only [Bool.and_eq_true, Bool.not_eq_true', decide_eq_true_eq] at hcleans
    exact iff_of_true rfl ⟨hcleans.1, Nat.lt_sub_iff_add_lt'.mp hcleans.2⟩
  · rename_i hcleans
    simp only [Bool.and_eq_true, Bool.not_eq_true', decide_eq_true_eq, not_and] at hcleans
    exact iff_of_false (by simp) fun h => hcleans h.1 (Nat.lt_sub_iff_add_lt'.mpr h.2)

theorem turn_cleanupDone (ttl : Time) (s : RetryLoop) (a : Attempt) :
    (s.turn ttl a).1.cleanupDone = (s.cleanupDone || (s.turn ttl a).2.isSome) := by
  unfold turn
  dsimp only
  split
  · simp
  · simp

theorem after_disconnectedAt (ttl : Time) (attempts : List Attempt) :
    (after ttl attempts).disconnectedAt = attempts.head?.map Attempt.ended := by
  induction attempts using List.reverseRecOn with
  | nil => rfl
  | append_singleton before a ih =>
      rw [after_concat, turn_disconnectedAt, ih]
      cases before <;> rfl

/-- The loop cleans up at the first attempt that ends late, and never again. -/
theorem cleanup_isSome {ttl : Time} {before : List Attempt} {a : Attempt} :
    (cleanup ttl before a).isSome ↔
      (∀ b ∈ before, ¬Late ttl (before ++ [a]) b) ∧ Late ttl (before ++ [a]) a := by
  have hlate : ∀ (before : List Attempt) (a : Attempt), Late ttl (before ++ [a]) a ↔
      (after ttl before).disconnectedAt.getD a.ended + ttl < a.ended := by
    intro before a
    rw [after_disconnectedAt]
    cases before <;> simp [Late]
  have hhead : ∀ (before : List Attempt) (a b c : Attempt), b ∈ before →
      (Late ttl (before ++ [a]) c ↔ Late ttl before c) := by
    intro before a b c hb
    cases before with
    | nil => cases hb
    | cons => rfl
  have hdone : ∀ before : List Attempt,
      (after ttl before).cleanupDone = false ↔ ∀ b ∈ before, ¬Late ttl before b := by
    intro before
    induction before using List.reverseRecOn with
    | nil => exact iff_of_true rfl fun b hb => by cases hb
    | append_singleton before a ih =>
        rw [after_concat, turn_cleanupDone, Bool.or_eq_false_iff, ih, Bool.eq_false_iff, Ne,
          turn_cleans, ih, ← hlate]
        constructor
        · rintro ⟨hold, hnew⟩ b hb
          rcases List.mem_append.mp hb with hb | hb
          · exact fun h => hold b hb ((hhead before a b b hb).mp h)
          · rw [List.mem_singleton.mp hb]
            exact fun h => hnew ⟨hold, h⟩
        · intro h
          refine ⟨fun b hb hl => ?_, fun hl => ?_⟩
          · exact h b (List.mem_append_left _ hb) ((hhead before a b b hb).mpr hl)
          · exact h a (List.mem_append_right _ (List.mem_singleton_self a)) hl.2
  rw [cleanup, turn_cleans, hdone, ← hlate]
  refine and_congr_left' (forall₂_congr fun b hb => ?_)
  rw [hhead before a b b hb]

end RetryLoop

/-! ## The two directions -/

section

variable {ttl : Time} {attempts before later : List Attempt} {a b first : Attempt}

theorem outage_of_session (h : a.connected.isSome) (since : Option Time) :
    a.outage since = a.ended :=
  if_pos h

/-- An outage begins with the first attempt of all or with a session. -/
theorem outageStart_eq (before : List Attempt) (o : Time) (h : outageStart before = some o) :
    ∃ b ∈ before, b.ended = o ∧ (b.connected.isSome ∨ before.head? = some b) := by
  induction before using List.reverseRecOn generalizing o with
  | nil => cases h
  | append_singleton before a ih =>
      rw [outageStart_concat] at h
      obtain rfl := Option.some.inj h
      unfold Attempt.outage
      split
      · rename_i hsession
        exact ⟨a, by simp, rfl, .inl hsession⟩
      · cases hstart : outageStart before with
        | none =>
            have hnil : before = [] := by
              induction before using List.reverseRecOn with
              | nil => rfl
              | append_singleton before b _ =>
                  rw [outageStart_concat] at hstart
                  cases hstart
            exact ⟨a, by simp, rfl, .inr (by rw [hnil]; rfl)⟩
        | some o =>
            obtain ⟨b, hb, hended, hkind⟩ := ih o hstart
            refine ⟨b, List.mem_append_left _ hb, hended, hkind.imp_right fun hhead => ?_⟩
            rw [List.head?_append, hhead]
            rfl

/-- Failed attempts do not change when the outage began. -/
theorem outageStart_append {o : Time} (h : outageStart before = some o)
    (hquiet : ∀ b ∈ later, b.connected = none) : outageStart (before ++ later) = some o := by
  induction later using List.reverseRecOn with
  | nil => rwa [List.append_nil]
  | append_singleton later b ih =>
      rw [← List.append_assoc, outageStart_concat,
        ih fun c hc => hquiet c (List.mem_append_left _ hc), Attempt.outage, if_neg]
      · rfl
      · rw [hquiet b (by simp)]
        simp

/-- The last session of some attempts, if there is one. -/
theorem exists_last_session (attempts : List Attempt) :
    (∀ b ∈ attempts, b.connected = none) ∨
      ∃ before d after, attempts = before ++ d :: after ∧ d.connected.isSome ∧
        ∀ b ∈ after, b.connected = none := by
  induction attempts with
  | nil => exact .inl fun b hb => by cases hb
  | cons a rest ih =>
      rcases ih with hquiet | ⟨before, d, after, rfl, hd, hquiet⟩
      · by_cases ha : a.connected.isSome
        · exact .inr ⟨[], a, rest, rfl, ha, hquiet⟩
        · refine .inl fun b hb => ?_
          rcases List.mem_cons.mp hb with rfl | hb
          · exact Option.not_isSome_iff_eq_none.mp ha
          · exact hquiet b hb
      · exact .inr ⟨a :: before, d, after, rfl, hd, hquiet⟩

theorem ShortOutages.ended_le {d : Attempt} {u v : List Attempt} {since : Option Time}
    (h : ShortOutages ttl since (u ++ d :: v ++ a :: later)) (hd : d.connected.isSome)
    (hv : ∀ b ∈ v, b.connected = none) (ha : a.connected = none) : a.ended ≤ d.ended + ttl := by
  induction u generalizing since with
  | nil =>
      simp only [List.nil_append, List.cons_append, ShortOutages, hd, if_true] at h
      induction v with
      | nil =>
          simp only [List.nil_append, ShortOutages, ha, Option.isSome_none, Bool.false_eq_true,
            if_false] at h
          exact h.1 _ rfl
      | cons b v ih =>
          simp only [List.cons_append, ShortOutages, hv b List.mem_cons_self, Option.isSome_none,
            Bool.false_eq_true, if_false] at h
          exact ih (fun c hc => hv c (List.mem_cons_of_mem _ hc)) h.2
  | cons b u ih =>
      simp only [List.cons_append, ShortOutages] at h
      split at h
      · exact ih h
      · exact ih h.2

theorem late_iff (h : attempts = before ++ a :: later) :
    Late ttl (before ++ [a]) b ↔ Late ttl attempts b := by
  rw [h]
  cases before <;> rfl

/-- The outage of an overdue attempt began after the first attempt. -/
theorem late_of_overdue (hchron : Chronological attempts) (h : attempts = before ++ a :: later)
    (hoverdue : Overdue ttl before a) : Late ttl attempts a := by
  intro first hfirst
  have hle : ∀ b ∈ attempts, first.ended ≤ b.ended := by
    intro b hb
    cases attempts with
    | nil => cases hb
    | cons x rest =>
        obtain rfl := Option.some.inj hfirst
        rcases List.mem_cons.mp hb with rfl | hb
        · exact Nat.le_refl _
        · exact List.rel_of_pairwise_cons hchron hb
  refine Nat.lt_of_le_of_lt (Nat.add_le_add_right ?_ ttl) hoverdue
  unfold Attempt.outage
  split
  · exact hle a (by simp [h])
  · cases hstart : outageStart before with
    | none => exact hle a (by simp [h])
    | some o =>
        obtain ⟨b, hb, rfl, _⟩ := outageStart_eq before o hstart
        exact hle b (by simp [h, hb])

theorem not_overdue_of_session (ha : a.connected.isSome) : ¬Overdue ttl before a := by
  unfold Overdue
  rw [outage_of_session ha]
  exact Nat.not_lt.mpr (Nat.le_add_right _ _)

/-- After it has cleaned up, the loop misses every outage that gets overdue. -/
theorem CountsOutages.shortOutages (h : CountsOutages ttl attempts) {early : List Attempt}
    (hsplit : attempts = early ++ a :: later) (hlate : Late ttl attempts a) :
    ShortOutages ttl none later := by
  have hgen : ∀ l₂ l₁ since, later = l₁ ++ l₂ →
      (∀ d ∈ since, outageStart (early ++ a :: l₁) = some d ∧
        ∀ earlier b, early ++ a :: l₁ = earlier ++ [b] → ¬Overdue ttl earlier b) →
      ShortOutages ttl since l₂ := by
    intro l₂
    induction l₂ with
    | nil => exact fun _ _ _ _ => trivial
    | cons c l₂ ih =>
        intro l₁ since hl hsince
        have hl' : later = (l₁ ++ [c]) ++ l₂ := by rw [hl, List.append_assoc]; rfl
        have hconcat : early ++ a :: (l₁ ++ [c]) = (early ++ a :: l₁) ++ [c] := by simp
        unfold ShortOutages
        split
        · rename_i hc
          refine ih (l₁ ++ [c]) _ hl' fun d hd => ?_
          obtain rfl := Option.some.inj hd
          rw [hconcat, outageStart_concat, outage_of_session hc]
          refine ⟨rfl, fun earlier b hb => ?_⟩
          obtain ⟨_, hcb⟩ := List.append_inj' hb rfl
          rw [← List.singleton_inj.mp hcb]
          exact not_overdue_of_session hc
        · rename_i hc
          have hended : ∀ d ∈ since, c.ended ≤ d + ttl := by
            intro d hd
            obtain ⟨hstart, hprevious⟩ := hsince d hd
            by_contra hgt
            have hoverdue : Overdue ttl (early ++ a :: l₁) c := by
              unfold Overdue
              rw [hstart, Attempt.outage, if_neg hc]
              exact Nat.not_le.mp hgt
            have hcut : attempts = (early ++ a :: l₁) ++ c :: l₂ := by
              rw [hsplit, hl, List.append_assoc]
              rfl
            have hcleans := (h _ c l₂ hcut).2 hoverdue hprevious
            exact (RetryLoop.cleanup_isSome.mp hcleans).1 a (by simp) ((late_iff hcut).mpr hlate)
          refine ⟨hended, ih (l₁ ++ [c]) since hl' fun d hd => ?_⟩
          rw [hconcat, outageStart_concat, (hsince d hd).1, Attempt.outage, if_neg hc]
          refine ⟨rfl, fun earlier b hb => ?_⟩
          obtain ⟨hbefore, hcb⟩ := List.append_inj' hb rfl
          rw [← List.singleton_inj.mp hcb, ← hbefore]
          unfold Overdue
          rw [(hsince d hd).1, Attempt.outage, if_neg hc]
          exact Nat.not_lt.mpr (hended d hd)
  exact hgen later [] none rfl fun d hd => by cases hd

/-- Everything the attempts after the first late one do that could be missed. -/
theorem overdue_of_quiet (hchron : Chronological attempts) {early : List Attempt}
    (hsplit : attempts = early ++ a :: later) (hlate : Late ttl attempts a)
    (hsessions : ∀ b ∈ early, b.connected.isSome → b.ended + ttl < a.ended)
    (ha : a.connected = none) {l₁ : List Attempt} {c : Attempt} {l₂ : List Attempt}
    (hl : later = l₁ ++ c :: l₂) (hquiet : ∀ b ∈ l₁, b.connected = none) :
    ∃ earlier b, early ++ a :: l₁ = earlier ++ [b] ∧ Overdue ttl earlier b := by
  obtain ⟨o, ho, hended⟩ : ∃ o, outageStart early = some o ∧ o + ttl < a.ended := by
    cases hstart : outageStart early with
    | none =>
        cases early using List.reverseRecOn with
        | nil =>
            have := hlate a (by rw [hsplit]; rfl)
            exact absurd this (Nat.not_lt.mpr (Nat.le_add_right _ _))
        | append_singleton early b =>
            rw [outageStart_concat] at hstart
            cases hstart
    | some o =>
        obtain ⟨b, hb, rfl, hsession | hhead⟩ := outageStart_eq early o hstart
        · exact ⟨_, rfl, hsessions b hb hsession⟩
        · refine ⟨_, rfl, hlate b ?_⟩
          rw [hsplit, List.head?_append, hhead]
          rfl
  have houtage : ∀ {b : Attempt}, b.connected = none → b.outage (some o) = o := by
    intro b hb
    rw [Attempt.outage, if_neg (by simp [hb])]
    rfl
  have hstart : outageStart (early ++ [a]) = some o := by
    rw [outageStart_concat, ho, houtage ha]
  cases l₁ using List.reverseRecOn with
  | nil =>
      refine ⟨early, a, rfl, ?_⟩
      unfold Overdue
      rw [ho, houtage ha]
      exact hended
  | append_singleton l₁ q =>
      refine ⟨early ++ a :: l₁, q, by simp, ?_⟩
      have hq : q.connected = none := hquiet q (by simp)
      have hstart' : outageStart (early ++ a :: l₁) = some o := by
        rw [show early ++ a :: l₁ = early ++ [a] ++ l₁ by simp]
        exact outageStart_append hstart fun b hb => hquiet b (List.mem_append_left _ hb)
      unfold Overdue
      rw [hstart', houtage hq]
      refine Nat.lt_of_lt_of_le hended ?_
      rw [hsplit] at hchron
      have htail := (List.pairwise_append.mp hchron).2.1
      exact List.rel_of_pairwise_cons htail (by simp [hl])

/-- Where an attempt stands to another one. -/
theorem split_cases {early after : List Attempt} {c : Attempt}
    (h : early ++ a :: later = before ++ c :: after) :
    c ∈ early ∨ before = early ∧ c = a ∨
      ∃ l₁, before = early ++ a :: l₁ ∧ later = l₁ ++ c :: after := by
  rcases List.append_eq_append_iff.mp h with ⟨w, hw, hrest⟩ | ⟨w, hw, hrest⟩
  · cases w with
    | nil =>
        rw [List.append_nil] at hw
        obtain ⟨rfl, _⟩ := List.cons.inj hrest
        exact .inr (.inl ⟨hw, rfl⟩)
    | cons x w =>
        obtain ⟨rfl, hlater⟩ := List.cons.inj hrest
        exact .inr (.inr ⟨w, hw, hlater⟩)
  · cases w with
    | nil =>
        rw [List.append_nil] at hw
        obtain ⟨rfl, _⟩ := List.cons.inj hrest
        exact .inr (.inl ⟨hw.symm, rfl⟩)
    | cons x w =>
        obtain ⟨rfl, _⟩ := List.cons.inj hrest
        exact .inl (by simp [hw])

theorem countsOutages_iff_of_late (hchron : Chronological attempts) {early : List Attempt}
    (hsplit : attempts = early ++ a :: later) (hearly : ∀ b ∈ early, ¬Late ttl attempts b)
    (hlate : Late ttl attempts a) :
    CountsOutages ttl attempts ↔ a.connected = none ∧
      (∀ b ∈ early, b.connected.isSome → b.ended + ttl < a.ended) ∧
      ShortOutages ttl none later := by
  have hcleans : (RetryLoop.cleanup ttl early a).isSome :=
    RetryLoop.cleanup_isSome.mpr ⟨fun b hb h => hearly b hb ((late_iff hsplit).mp h),
      (late_iff hsplit).mpr hlate⟩
  constructor
  · intro h
    have hsessions := (h early a later hsplit).1 hcleans
    refine ⟨?_, fun b hb => hsessions b (by simp [hb]), h.shortOutages hsplit hlate⟩
    by_contra hconnected
    have := hsessions a (by simp) (Option.isSome_iff_ne_none.mpr hconnected)
    exact absurd this (Nat.not_lt.mpr (Nat.le_add_right _ _))
  · rintro ⟨hconnected, hsessions, hshort⟩ before c after hcut
    constructor
    · intro hc
      obtain ⟨hbefore, hc⟩ := RetryLoop.cleanup_isSome.mp hc
      rw [late_iff hcut] at hc
      rcases split_cases (hsplit.symm.trans hcut) with hmem | ⟨rfl, rfl⟩ | ⟨l₁, rfl, _⟩
      · exact absurd hc (hearly c hmem)
      · intro b hb hsession
        rcases List.mem_append.mp hb with hb | hb
        · exact hsessions b hb hsession
        · rw [List.mem_singleton.mp hb, hconnected] at hsession
          cases hsession
      · exact absurd ((late_iff hcut).mpr hlate) (hbefore a (by simp))
    · intro hoverdue hprevious
      have hc := late_of_overdue hchron hcut hoverdue
      rcases split_cases (hsplit.symm.trans hcut) with hmem | ⟨rfl, rfl⟩ | ⟨l₁, rfl, hl⟩
      · exact absurd hc (hearly c hmem)
      · exact hcleans
      · rcases exists_last_session l₁ with hquiet | ⟨u, d, v, rfl, hd, hquiet⟩
        · obtain ⟨earlier, b, heq, hb⟩ :=
            overdue_of_quiet hchron hsplit hlate hsessions hconnected hl hquiet
          exact absurd hb (hprevious earlier b heq)
        · -- The outage began at `d` and has been short.
          have hnone : c.connected = none := by
            by_contra hsession
            exact not_overdue_of_session (Option.isSome_iff_ne_none.mpr hsession) hoverdue
          have hstart : outageStart (early ++ a :: (u ++ d :: v)) = some d.ended := by
            rw [show early ++ a :: (u ++ d :: v) = early ++ a :: u ++ [d] ++ v by simp]
            exact outageStart_append (by rw [outageStart_concat, outage_of_session hd]) hquiet
          unfold Overdue at hoverdue
          rw [hstart, Attempt.outage, if_neg (by simp [hnone])] at hoverdue
          rw [hl] at hshort
          exact absurd hoverdue (Nat.not_lt.mpr (hshort.ended_le hd hquiet hnone))

theorem countsOutages_of_early (hchron : Chronological attempts)
    (hearly : ∀ b ∈ attempts, ¬Late ttl attempts b) : CountsOutages ttl attempts := by
  intro before c after hcut
  have hc : ¬Late ttl attempts c := hearly c (by simp [hcut])
  refine ⟨fun h => ?_, fun hoverdue => absurd (late_of_overdue hchron hcut hoverdue) hc⟩
  exact absurd ((late_iff hcut).mp (RetryLoop.cleanup_isSome.mp h).2) hc

end

/-- The TTL counts one continuous outage exactly when the loop may forget that it
has failed before. -/
theorem countsOutages_iff_forgettable (ttl : Time) (attempts : List Attempt)
    (h : Chronological attempts) : CountsOutages ttl attempts ↔ Forgettable ttl attempts := by
  cases hhead : attempts.head? with
  | none =>
      rw [List.head?_eq_none_iff] at hhead
      subst hhead
      exact iff_of_true (countsOutages_of_early h fun b hb => by cases hb)
        fun first hfirst => by cases hfirst
  | some first =>
      have hlate : ∀ b, Late ttl attempts b ↔ ¬b.ended ≤ first.ended + ttl := by
        simp [Late, hhead]
      have hearly : ∀ b ∈ attempts.takeWhile fun a => a.ended ≤ first.ended + ttl,
          ¬Late ttl attempts b := by
        intro b hb
        have := List.mem_takeWhile_imp hb
        rw [hlate, not_not]
        exact of_decide_eq_true this
      have happend := List.takeWhile_append_dropWhile (p := fun a : Attempt =>
        decide (a.ended ≤ first.ended + ttl)) (l := attempts)
      have hforget : Forgettable ttl attempts ↔
          match attempts.dropWhile fun a => a.ended ≤ first.ended + ttl with
          | [] => True
          | a :: later => a.connected = none ∧
              (∀ b ∈ attempts.takeWhile fun a => a.ended ≤ first.ended + ttl,
                b.connected.isSome → b.ended + ttl < a.ended) ∧ ShortOutages ttl none later := by
        unfold Forgettable
        rw [hhead]
        simp
      rw [hforget]
      split
      · rename_i hnil
        rw [hnil, List.append_nil] at happend
        rw [happend] at hearly
        exact iff_of_true (countsOutages_of_early h hearly) trivial
      · rename_i a later hcons
        have hnot : ¬decide (a.ended ≤ first.ended + ttl) = true := by
          have := List.head?_dropWhile_not (fun a : Attempt => decide (a.ended ≤ first.ended + ttl))
            attempts
          rw [hcons] at this
          simpa using this
        rw [hcons] at happend
        refine countsOutages_iff_of_late h happend.symm hearly ((hlate a).mpr ?_)
        exact fun hle => hnot (decide_eq_true hle)

/-- A first session, an outage in which the containers go, a second session and a
short outage. -/
def oneLongOutage : List Attempt :=
  [{ connected := some 0, ended := 10, events := [.started ⟨"kdct-a-1", "nginx"⟩] },
   { connected := none, ended := 200, events := [] },
   { connected := none, ended := 311, events := [] },
   { connected := some 320, ended := 900, events := [.started ⟨"kdct-a-1", "nginx"⟩] },
   { connected := none, ended := 901, events := [] }]

theorem countsOutages_iff_forgettable_oneLongOutage :
    CountsOutages 300 oneLongOutage ↔ Forgettable 300 oneLongOutage :=
  countsOutages_iff_forgettable 300 oneLongOutage (by decide)

/-- A blip and a long session. -/
def blipAndSession : List Attempt :=
  [{ connected := some 0, ended := 10, events := [.started ⟨"kdct-a-1", "nginx"⟩] },
   { connected := some 12, ended := 1000, events := [] }]

/-- The container goes as soon as the session that has lasted 988 ends. -/
theorem blipAndSession_cleans : ¬CountsOutages 300 blipAndSession := by
  intro h
  have hcut : blipAndSession = [⟨some 0, 10, [.started ⟨"kdct-a-1", "nginx"⟩]⟩] ++
      ⟨some 12, 1000, []⟩ :: [] := rfl
  have := (h _ _ _ hcut).1 (by decide) ⟨some 12, 1000, []⟩ (by simp) rfl
  exact absurd this (by decide)

end Kdct
