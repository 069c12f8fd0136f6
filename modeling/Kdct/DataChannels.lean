/-
The data channels of one control channel (`crates/tunnel/src/server.rs`).

An accept loop asks for a data channel when it has a visitor and registers its
callback afterwards.  A data channel that arrives goes to the callback that has
waited longest, and without one to the pool of the service, which container mode
opens on a port nobody is told of.

`Covered` says that no callback waits for a channel that will never come.  A loop
between its two steps has a claim on a channel as well, so this holds in the runs in
which a channel only goes to the pool when enough of them are left for these loops.
-/
import Kdct.Lib.Machine
import Mathlib.Data.List.Basic

namespace Kdct

/-- How many channels `ControlChannelHandle::new` asks for. -/
def tcpPoolSize : Nat := 8

abbrev LoopId := Nat

structure DataChannels where
  /-- Sent through `data_ch_req_tx` and not yet read by the control loop. -/
  requests : Nat
  /-- `CreateDataChannel` commands the client has not seen. -/
  commands : Nat
  /-- Channels the client has opened and the server has not seen. -/
  opened : Nat
  /-- The loops that have sent their request and not registered their callback. -/
  requesting : List LoopId
  /-- `port_data_callbacks`, the oldest first. -/
  callbacks : List LoopId
  serving : List LoopId
  /-- Channels in the pool of the service. -/
  parked : Nat
  /-- Visitors of the service's own listener that wait for a channel of the pool. -/
  visitors : Nat
  deriving DecidableEq

namespace DataChannels

inductive Label
  /-- A TCP loop accepts a visitor, or a UDP loop has its socket, and asks. -/
  | request (loop : LoopId)
  /-- The loop registers its callback. -/
  | register (loop : LoopId)
  /-- The control loop sends a request on as `CreateDataChannel`. -/
  | forward
  /-- The client opens a data channel. -/
  | create
  /-- A data channel arrives in `do_data_channel_handshake`. -/
  | handshake
  /-- A loop is done with its channel. -/
  | done (loop : LoopId)
  /-- The service's own listener accepts a visitor. -/
  | visitor
  /-- The pool serves a visitor, or finds that the channel is broken and asks again. -/
  | serve (good : Bool)
  deriving DecidableEq

def new (poolSize : Nat) : DataChannels where
  requests := poolSize
  commands := 0
  opened := 0
  requesting := []
  callbacks := []
  serving := []
  parked := 0
  visitors := 0

def busy (s : DataChannels) (loop : LoopId) : Prop :=
  loop ∈ s.requesting ∨ loop ∈ s.callbacks ∨ loop ∈ s.serving

instance (s : DataChannels) (loop : LoopId) : Decidable (s.busy loop) :=
  inferInstanceAs (Decidable (_ ∨ _ ∨ _))

def step (s : DataChannels) : Label → Option DataChannels
  | .request loop =>
      if s.busy loop then none
      else some { s with requests := s.requests + 1, requesting := loop :: s.requesting }
  | .register loop =>
      if loop ∈ s.requesting then
        some { s with requesting := s.requesting.erase loop, callbacks := s.callbacks ++ [loop] }
      else none
  | .forward =>
      if 0 < s.requests then
        some { s with requests := s.requests - 1, commands := s.commands + 1 }
      else none
  | .create =>
      if 0 < s.commands then some { s with commands := s.commands - 1, opened := s.opened + 1 }
      else none
  | .handshake =>
      if 0 < s.opened then
        match s.callbacks with
        | loop :: callbacks =>
            some { s with opened := s.opened - 1, callbacks := callbacks,
                          serving := loop :: s.serving }
        | [] => some { s with opened := s.opened - 1, parked := s.parked + 1 }
      else none
  | .done loop =>
      if loop ∈ s.serving then some { s with serving := s.serving.erase loop } else none
  | .visitor => some { s with requests := s.requests + 1, visitors := s.visitors + 1 }
  | .serve good =>
      if 0 < s.visitors ∧ 0 < s.parked then
        if good then some { s with visitors := s.visitors - 1, parked := s.parked - 1 }
        else some { s with parked := s.parked - 1, requests := s.requests + 1 }
      else none

/-- The requested channels that have not been handed out. -/
def outstanding (s : DataChannels) : Nat := s.requests + s.commands + s.opened

def Covered (s : DataChannels) : Prop := s.callbacks.length ≤ s.outstanding

instance : DecidablePred Covered := fun s =>
  inferInstanceAs (Decidable (s.callbacks.length ≤ s.outstanding))

/-- A channel goes to the pool only when a channel is left for every loop that has
asked and not registered. -/
def LeavesEnough (s : DataChannels) : Label → Prop
  | .handshake => s.callbacks = [] → s.requesting.length < s.outstanding
  | _ => True

instance (s : DataChannels) : ∀ label, Decidable (s.LeavesEnough label)
  | .handshake =>
      inferInstanceAs (Decidable (s.callbacks = [] → s.requesting.length < s.outstanding))
  | .request _ | .register _ | .forward | .create | .done _ | .visitor | .serve _ =>
      inferInstanceAs (Decidable True)

end DataChannels

/-- The data channels of a service as a machine. -/
def dataChannels : Machine DataChannels DataChannels.Label where
  init := .new tcpPoolSize
  step := DataChannels.step

namespace DataChannels

variable {s t : DataChannels} {label : Label}

/-! ## Claims on channels -/

/-- The loops that have a claim on a channel. -/
def claims (s : DataChannels) : Nat := s.callbacks.length + s.requesting.length

theorem covered_of_claims (h : s.claims ≤ s.outstanding) : s.Covered :=
  Nat.le_trans (Nat.le_add_right _ _) h

/-- A loop that registers keeps its claim. -/
theorem register_eq {loop : LoopId} (h : s.step (.register loop) = some t) :
    t.claims = s.claims ∧ t.outstanding = s.outstanding := by
  simp only [step] at h
  split at h
  · rename_i hmem
    obtain rfl := Option.some.inj h
    refine ⟨?_, rfl⟩
    have hpos : 0 < s.requesting.length := List.length_pos_of_mem hmem
    simp only [claims, List.length_append, List.length_singleton, List.length_erase_of_mem hmem]
    omega
  · cases h

/-- A channel that is forwarded and opened stays outstanding. -/
theorem transit_eq (h : s.step .forward = some t ∨ s.step .create = some t) :
    t.claims = s.claims ∧ t.outstanding = s.outstanding := by
  obtain h | h := h
  all_goals
    simp only [step] at h
    split at h
    · obtain rfl := Option.some.inj h
      refine ⟨rfl, ?_⟩
      simp only [outstanding]
      omega
    · cases h

/-- A channel that arrives serves a claim, or goes to the pool. -/
theorem handshake_eq (h : s.step .handshake = some t) :
    t.outstanding + 1 = s.outstanding ∧
      (s.callbacks ≠ [] ∧ t.claims + 1 = s.claims ∨ s.callbacks = [] ∧ t.claims = s.claims) := by
  simp only [step] at h
  split at h
  · rename_i hopened
    split at h
    · rename_i loop callbacks hcallbacks
      obtain rfl := Option.some.inj h
      refine ⟨?_, Or.inl ⟨by rw [hcallbacks]; exact List.cons_ne_nil _ _, ?_⟩⟩
      · simp only [outstanding]
        omega
      · simp only [claims, hcallbacks, List.length_cons]
        omega
    · rename_i hcallbacks
      obtain rfl := Option.some.inj h
      refine ⟨?_, Or.inr ⟨hcallbacks, rfl⟩⟩
      simp only [outstanding]
      omega
  · cases h

/-- Outside the handshake a step never makes a new claim without a new request. -/
theorem claims_step (hs : s.claims ≤ s.outstanding) (hC : s.LeavesEnough label)
    (h : s.step label = some t) : t.claims ≤ t.outstanding := by
  cases label with
  | request loop =>
      simp only [step] at h
      split at h
      · cases h
      · obtain rfl := Option.some.inj h
        simp only [claims, outstanding, List.length_cons] at hs ⊢
        omega
  | register loop =>
      obtain ⟨hclaims, hout⟩ := register_eq h
      rwa [hclaims, hout]
  | forward =>
      obtain ⟨hclaims, hout⟩ := transit_eq (Or.inl h)
      rwa [hclaims, hout]
  | create =>
      obtain ⟨hclaims, hout⟩ := transit_eq (Or.inr h)
      rwa [hclaims, hout]
  | handshake =>
      obtain ⟨hout, ⟨_, hclaims⟩ | ⟨hcallbacks, hclaims⟩⟩ := handshake_eq h
      · omega
      · have hlt : s.requesting.length < s.outstanding := hC hcallbacks
        have heq : s.claims = s.requesting.length := by
          simp only [claims, hcallbacks, List.length_nil, Nat.zero_add]
        omega
  | done loop =>
      simp only [step] at h
      split at h
      · obtain rfl := Option.some.inj h
        exact hs
      · cases h
  | visitor =>
      obtain rfl := Option.some.inj h
      simp only [claims, outstanding] at hs ⊢
      omega
  | serve good =>
      simp only [step] at h
      split at h
      · split at h <;> obtain rfl := Option.some.inj h
        · exact hs
        · simp only [claims, outstanding] at hs ⊢
          omega
      · cases h

/-- No callback waits for a channel that will never come in a run in which the pool
takes no channel that a loop has a claim on. -/
theorem covered_of_leavesEnough (labels : List Label)
    (h : dataChannels.Meets LeavesEnough dataChannels.init labels) :
    dataChannels.Always Covered dataChannels.init labels := by
  have hinv : dataChannels.Always (fun s => s.claims ≤ s.outstanding) dataChannels.init labels :=
    Machine.always_of_meets (fun _ _ _ hs hC hstep => claims_step hs hC hstep) (Nat.zero_le _) h
  exact hinv.mono fun _ => covered_of_claims

/-- A channel comes to the handshake. -/
def arrives : List Label := [.forward, .create, .handshake]

/-- Two visitors whose loops register before their channels arrive. -/
theorem covered_of_leavesEnough_inTime :
    dataChannels.Always Covered dataChannels.init
      ((List.replicate 7 arrives).flatten ++
        [.request 0, .request 1, .register 1, .register 0] ++ arrives ++ arrives) :=
  covered_of_leavesEnough _ (by decide)

/-! ## A channel too early -/

/-- When the loops with a claim outnumber the channels to come, their registrations
uncover a callback. -/
theorem uncovered_of_claims (h : s.outstanding < s.claims) :
    ∃ (loops : List LoopId) (t : DataChannels),
      dataChannels.run s (loops.map .register) = some t ∧ ¬t.Covered := by
  induction hloops : s.requesting generalizing s with
  | nil =>
      refine ⟨[], s, rfl, ?_⟩
      simp only [claims, hloops, List.length_nil, Nat.add_zero] at h
      exact Nat.not_le.mpr h
  | cons loop rest ih =>
      have hmem : loop ∈ s.requesting := hloops ▸ List.mem_cons_self
      have hstep : s.step (.register loop) = some { s with
          requesting := s.requesting.erase loop, callbacks := s.callbacks ++ [loop] } :=
        if_pos hmem
      obtain ⟨hclaims, hout⟩ := register_eq hstep
      obtain ⟨loops, t, hrun, ht⟩ := ih (by rwa [hclaims, hout])
        (by rw [hloops, List.erase_cons_head])
      refine ⟨loop :: loops, t, ?_, ht⟩
      rw [List.map_cons, Machine.run_cons]
      exact Option.bind_eq_some_iff.mpr ⟨_, hstep, hrun⟩

/-- The condition leaves out no other run: a channel the pool takes from the loops that
have asked strands one of them. -/
theorem uncovered_of_not_leavesEnough (hC : ¬s.LeavesEnough label) (h : s.step label = some t) :
    ∃ (loops : List LoopId) (u : DataChannels),
      dataChannels.run t (loops.map .register) = some u ∧ ¬u.Covered := by
  cases label with
  | handshake =>
      obtain ⟨hcallbacks, hlt⟩ := Classical.not_imp.mp hC
      obtain ⟨hout, ⟨hne, _⟩ | ⟨_, hclaims⟩⟩ := handshake_eq h
      · exact absurd hcallbacks hne
      · have heq : s.claims = s.requesting.length := by
          simp only [claims, hcallbacks, List.length_nil, Nat.zero_add]
        exact uncovered_of_claims (by omega)
  | request | register | forward | create | done | visitor | serve => exact absurd trivial hC

/-- The pool has taken the first eight channels and takes the next one before the loop
that asked for it registers. -/
def earlyChannel : List Label :=
  (List.replicate 8 arrives).flatten ++ .request 0 :: arrives ++ [.register 0]

theorem earlyChannel_uncovered :
    ¬dataChannels.Always Covered dataChannels.init earlyChannel := by
  decide

end DataChannels

end Kdct
