/-
The control loop of a client on a clock (`ControlChannel::run` in
`crates/tunnel/src/client.rs`).

The loop races the next command, the status interval and a sleep of
`heartbeat_timeout`, and the sleep is a new one in every iteration.  `Detects` says
that the loop does not outlive a silence of the server.  Every tick of the interval
starts the sleep anew, so this holds exactly in the runs in which the server speaks
up in time after every tick, and a timeout longer than the interval never fires.
-/
import Kdct.Client.RetryLoop
import Kdct.Lib.Machine

namespace Kdct

/-- The milliseconds of a `Duration`. -/
def fromSecs (secs : Nat) : Time := secs * 1000

/-- The period of `status_interval`. -/
def statusInterval : Time := fromSecs 5

structure ControlLoop where
  now : Time
  /-- When `status_interval` ticks next. -/
  nextTick : Time
  /-- When the sleep of this iteration is over. -/
  deadline : Time
  lastMessage : Time
  running : Bool
  deriving DecidableEq

namespace ControlLoop

inductive Label
  /-- Nothing is ready for a while. -/
  | pass (time : Time)
  | message
  | tick
  | timeout
  /-- The loop ends for another reason: a broken connection or a shutdown. -/
  | stop
  deriving DecidableEq

/-- The loop when the handshake is done; the interval ticks at once. -/
def new (heartbeatTimeout : Nat) : ControlLoop where
  now := 0
  nextTick := 0
  deadline := fromSecs heartbeatTimeout
  lastMessage := 0
  running := true

/-- `select!` waits until a branch is ready and takes any branch that is.  A branch
that is done starts the next iteration and its sleep. -/
def step (heartbeatTimeout : Nat) (s : ControlLoop) : Label → Option ControlLoop
  | .pass time =>
      if s.running ∧ s.now + time ≤ s.nextTick ∧
          (heartbeatTimeout ≠ 0 → s.now + time ≤ s.deadline) then
        some { s with now := s.now + time }
      else none
  | .message =>
      if s.running then
        some { s with lastMessage := s.now, deadline := s.now + fromSecs heartbeatTimeout }
      else none
  | .tick =>
      if s.running ∧ s.nextTick ≤ s.now then
        some { s with nextTick := s.nextTick + statusInterval,
                      deadline := s.now + fromSecs heartbeatTimeout }
      else none
  | .timeout =>
      if s.running ∧ heartbeatTimeout ≠ 0 ∧ s.deadline ≤ s.now then
        some { s with running := false }
      else none
  | .stop => if s.running then some { s with running := false } else none

/-- The loop does not run on when the server has been silent for too long. -/
def Detects (heartbeatTimeout : Nat) (s : ControlLoop) : Prop :=
  s.running → s.now ≤ s.lastMessage + fromSecs heartbeatTimeout

instance (heartbeatTimeout : Nat) : DecidablePred (Detects heartbeatTimeout) := fun s =>
  inferInstanceAs (Decidable (s.running → _))

end ControlLoop

/-- The loop as a machine. -/
def controlLoop (heartbeatTimeout : Nat) : Machine ControlLoop ControlLoop.Label where
  init := .new heartbeatTimeout
  step := ControlLoop.step heartbeatTimeout

namespace ControlLoop

variable {heartbeatTimeout : Nat}

/-- How long the server stays silent in a run. -/
def silence (heartbeatTimeout : Nat) : ControlLoop → List Label → Time
  | _, [] => 0
  | s, label :: labels =>
      match s.step heartbeatTimeout label, label with
      | some t, .pass time => time + silence heartbeatTimeout t labels
      | some t, .tick => silence heartbeatTimeout t labels
      | _, _ => 0

/-- Whenever the interval ticks in a silence, the server speaks up, or the run ends,
before the silence is too long. -/
def SpeaksUp (heartbeatTimeout : Nat) : ControlLoop → List Label → Prop
  | _, [] => True
  | s, label :: labels =>
      ∀ t, s.step heartbeatTimeout label = some t →
        (label = .tick → s.lastMessage < s.now →
          s.now + silence heartbeatTimeout t labels ≤ s.lastMessage + fromSecs heartbeatTimeout) ∧
        SpeaksUp heartbeatTimeout t labels

/-! ## Steps -/

/-- What a branch does. -/
inductive Step (heartbeatTimeout : Nat) (s : ControlLoop) : Label → ControlLoop → Prop
  | pass {time : Time} (hrunning : s.running) (htick : s.now + time ≤ s.nextTick)
      (hdeadline : heartbeatTimeout ≠ 0 → s.now + time ≤ s.deadline) :
      Step heartbeatTimeout s (.pass time) { s with now := s.now + time }
  | message (hrunning : s.running) : Step heartbeatTimeout s .message
      { s with lastMessage := s.now, deadline := s.now + fromSecs heartbeatTimeout }
  | tick (hrunning : s.running) (htick : s.nextTick ≤ s.now) : Step heartbeatTimeout s .tick
      { s with nextTick := s.nextTick + statusInterval,
               deadline := s.now + fromSecs heartbeatTimeout }
  | timeout (hrunning : s.running) (hH : heartbeatTimeout ≠ 0) (hdeadline : s.deadline ≤ s.now) :
      Step heartbeatTimeout s .timeout { s with running := false }
  | stop (hrunning : s.running) : Step heartbeatTimeout s .stop { s with running := false }

variable {s t : ControlLoop} {labels : List Label}

theorem step_cases {label : Label} (hstep : s.step heartbeatTimeout label = some t) :
    s.Step heartbeatTimeout label t := by
  cases label with
  | pass time =>
      simp only [step] at hstep
      split at hstep
      · rename_i henabled
        obtain rfl := Option.some.inj hstep
        exact .pass henabled.1 henabled.2.1 henabled.2.2
      · cases hstep
  | message =>
      simp only [step] at hstep
      split at hstep
      · rename_i henabled
        obtain rfl := Option.some.inj hstep
        exact .message henabled
      · cases hstep
  | tick =>
      simp only [step] at hstep
      split at hstep
      · rename_i henabled
        obtain rfl := Option.some.inj hstep
        exact .tick henabled.1 henabled.2
      · cases hstep
  | timeout =>
      simp only [step] at hstep
      split at hstep
      · rename_i henabled
        obtain rfl := Option.some.inj hstep
        exact .timeout henabled.1 henabled.2.1 henabled.2.2
      · cases hstep
  | stop =>
      simp only [step] at hstep
      split at hstep
      · rename_i henabled
        obtain rfl := Option.some.inj hstep
        exact .stop henabled
      · cases hstep

/-! ## The silences of a run -/

/-- A loop that detects every silence has not been in one for too long. -/
theorem silence_le (h : (controlLoop heartbeatTimeout).Always (Detects heartbeatTimeout) s labels)
    (hrunning : s.running) :
    s.now + silence heartbeatTimeout s labels ≤ s.lastMessage + fromSecs heartbeatTimeout := by
  induction labels generalizing s with
  | nil => exact h hrunning
  | cons label labels ih =>
      unfold silence
      split
      · rename_i t time hstep
        have ht := ih (h.2 t hstep)
        cases step_cases hstep with
        | pass =>
            rw [← Nat.add_assoc]
            exact ht hrunning
      · rename_i t hstep
        have ht := ih (h.2 t hstep)
        cases step_cases hstep with
        | tick => exact ht hrunning
      · exact h.1 hrunning

theorem speaksUp_of_detects
    (h : (controlLoop heartbeatTimeout).Always (Detects heartbeatTimeout) s labels) :
    SpeaksUp heartbeatTimeout s labels := by
  induction labels generalizing s with
  | nil => trivial
  | cons label labels ih =>
      intro t hstep
      refine ⟨?_, ih (h.2 t hstep)⟩
      rintro rfl _
      have ht := silence_le (h.2 t hstep)
      cases step_cases hstep with
      | tick hrunning => exact ht hrunning

/-- A loop whose sleep began after the last message relies on the server to speak up. -/
structure Awake (heartbeatTimeout : Nat) (s : ControlLoop) (labels : List Label) : Prop where
  detects : Detects heartbeatTimeout s
  last : s.lastMessage ≤ s.now
  silence : s.running → s.lastMessage + fromSecs heartbeatTimeout < s.deadline →
    s.now + silence heartbeatTimeout s labels ≤ s.lastMessage + fromSecs heartbeatTimeout

theorem Awake.step (hH : heartbeatTimeout ≠ 0) {label : Label}
    (h : s.Awake heartbeatTimeout (label :: labels))
    (hstep : s.step heartbeatTimeout label = some t)
    (htick : label = .tick → s.lastMessage < s.now →
      s.now + ControlLoop.silence heartbeatTimeout t labels ≤
        s.lastMessage + fromSecs heartbeatTimeout) :
    t.Awake heartbeatTimeout labels := by
  obtain ⟨hdetects, hlast, hsilence⟩ := h
  cases step_cases hstep with
  | @pass time hrunning hnext hdeadline =>
      have hrest : ControlLoop.silence heartbeatTimeout s (.pass time :: labels) =
          time + ControlLoop.silence heartbeatTimeout { s with now := s.now + time } labels := by
        simp only [ControlLoop.silence, hstep]
      rw [hrest] at hsilence
      refine ⟨fun hrunning => ?_, Nat.le_add_right_of_le hlast, fun hrunning hlate => ?_⟩
      · by_cases hlate : s.lastMessage + fromSecs heartbeatTimeout < s.deadline
        · have := hsilence hrunning hlate
          rw [← Nat.add_assoc] at this
          exact (Nat.le_add_right _ _).trans this
        · exact (hdeadline hH).trans (Nat.not_lt.mp hlate)
      · rw [Nat.add_assoc]
        exact hsilence hrunning hlate
  | message =>
      exact ⟨fun _ => Nat.le_add_right _ _, Nat.le_refl _, fun _ hlate =>
        absurd hlate (Nat.lt_irrefl _)⟩
  | tick =>
      have hnext := htick rfl
      exact ⟨hdetects, hlast, fun _ hlate => hnext (Nat.lt_of_add_lt_add_right hlate)⟩
  | timeout | stop =>
      exact ⟨fun hrunning => (by cases hrunning), hlast, fun hrunning => (by cases hrunning)⟩

theorem detects_of_speaksUp (hH : heartbeatTimeout ≠ 0) (h : s.Awake heartbeatTimeout labels)
    (hspeaks : SpeaksUp heartbeatTimeout s labels) :
    (controlLoop heartbeatTimeout).Always (Detects heartbeatTimeout) s labels := by
  induction labels generalizing s with
  | nil => exact h.detects
  | cons label labels ih =>
      refine ⟨h.detects, fun t hstep => ?_⟩
      obtain ⟨htick, hrest⟩ := hspeaks t hstep
      exact ih (h.step hH hstep htick) hrest

/-- A silent server is detected exactly in the runs in which it speaks up in time after
every tick of the interval. -/
theorem detects_iff_speaksUp (heartbeatTimeout : Nat) (hH : 0 < heartbeatTimeout)
    (labels : List Label) :
    (controlLoop heartbeatTimeout).Always (Detects heartbeatTimeout)
        (.new heartbeatTimeout) labels ↔
      SpeaksUp heartbeatTimeout (.new heartbeatTimeout) labels := by
  refine ⟨speaksUp_of_detects, detects_of_speaksUp (Nat.ne_of_gt hH) ⟨fun _ => ?_, ?_, ?_⟩⟩
  · exact Nat.zero_le _
  · exact Nat.le_refl _
  · exact fun _ hlate => absurd hlate (by simp [new])

/-- The server sends a heartbeat every 30 seconds. -/
theorem detects_iff_speaksUp_heartbeats :
    (controlLoop 40).Always (Detects 40) (.new 40)
      [.tick, .pass 5000, .tick, .pass 5000, .message, .stop] ↔
      SpeaksUp 40 (.new 40) [.tick, .pass 5000, .tick, .pass 5000, .message, .stop] :=
  detects_iff_speaksUp 40 (by decide) _

/-! ## A sleep longer than the interval -/

/-- The next tick comes before the sleep is over. -/
theorem nextTick_lt_deadline (h : 5 < heartbeatTimeout)
    (hs : (controlLoop heartbeatTimeout).Reachable s) :
    s.now ≤ s.nextTick ∧ s.nextTick ≤ s.now + statusInterval ∧ s.nextTick < s.deadline := by
  have hlt : statusInterval < fromSecs heartbeatTimeout := Nat.mul_lt_mul_of_pos_right h (by decide)
  refine (controlLoop heartbeatTimeout).invariant (I := fun s => s.now ≤ s.nextTick ∧
    s.nextTick ≤ s.now + statusInterval ∧ s.nextTick < s.deadline) ?_
      (fun s label t hs hstep => ?_) hs
  · exact ⟨Nat.le_refl _, Nat.zero_le _, (Nat.zero_le _).trans_lt hlt⟩
  · obtain ⟨hnow, hnext, hdeadline⟩ := hs
    have hmove : s.Step heartbeatTimeout label t := step_cases hstep
    cases hmove with
    | pass hrunning htick hsleep =>
        refine ⟨htick, hnext.trans ?_, hdeadline⟩
        exact Nat.add_le_add_right (Nat.le_add_right _ _) _
    | message => exact ⟨hnow, hnext, hnext.trans_lt (Nat.add_lt_add_left hlt _)⟩
    | tick hrunning htick =>
        have heq : s.nextTick = s.now := Nat.le_antisymm htick hnow
        refine ⟨hnow.trans (Nat.le_add_right _ _), ?_, ?_⟩
        · rw [heq]
        · rw [heq]
          exact Nat.add_lt_add_left hlt _
    | timeout | stop => exact ⟨hnow, hnext, hdeadline⟩

/-- So the loop never times out, however long the server is silent. -/
theorem timeout_disabled (h : 5 < heartbeatTimeout)
    (hs : (controlLoop heartbeatTimeout).Reachable s) :
    s.step heartbeatTimeout .timeout = none := by
  obtain ⟨hnow, _, hdeadline⟩ := nextTick_lt_deadline h hs
  refine if_neg fun henabled => ?_
  exact absurd (henabled.2.2.trans hnow) (Nat.not_le.mpr hdeadline)

/-- The server falls silent after the handshake. -/
def silentServer : List Label :=
  .tick :: (List.replicate 9 [.pass 5000, .tick]).flatten

/-- With the default timeout of 40 seconds the loop still runs after 45. -/
theorem silentServer_undetected :
    ¬(controlLoop 40).Always (Detects 40) (.new 40) silentServer := by
  decide

end ControlLoop

end Kdct
