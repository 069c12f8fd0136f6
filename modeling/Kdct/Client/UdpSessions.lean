/-
The sessions of a UDP data channel (`run_data_channel_for_udp` and `run_udp_forwarder` in
`crates/tunnel/src/client.rs`).

The loop that reads the channel has one forwarder for each peer and finds it in `port_map`.
It fills the map; a forwarder takes its own entry out at its end, after a timeout or an error
from its socket.  But an error when it sends to the socket, or when it queues a reply behind
an outbound writer that has ended, leaves the function before that.

The guard of the first read of the map is still there when the loop reads the map again, and
both are there while it sends to a forwarder.  The lock is fair: who asks for it waits behind
those who asked before, also to read.  A forwarder that asks behind the loop has to wait for
the loop anyway, and is taken to ask after it.
-/
import Kdct.Lib.HashMap
import Kdct.Lib.Machine
import Kdct.UdpTraffic

namespace Kdct.UdpSessions

def udpSendqSize : Nat := 1024

def udpBufferSize : Nat := 2048

/-! ## Tasks -/

/-- Where a forwarder is. -/
inductive Phase
  | running
  /-- Before `s.send(&data).await`. -/
  | sending (data : Bytes)
  /-- Before `outbount_tx.send(t).await`. -/
  | replying (data : Bytes)
  /-- Out of its loop, before it asks for the lock. -/
  | leaving
  /-- It waits for the lock, which it wants for writing. -/
  | locking
  | ended
  deriving DecidableEq

/-- Out of the loop, with an entry to take out. -/
def Phase.isOut : Phase → Bool
  | .leaving | .locking => true
  | _ => false

structure Forwarder where
  source : SocketAddr
  phase : Phase
  inbound : List Bytes

/-- Where the loop of the channel is. -/
inductive Loop
  | reading
  | lookingUp (packet : UdpTraffic)
  | creating (packet : UdpTraffic)
  /-- With the lock for writing. -/
  | connecting (packet : UdpTraffic)
  /-- Before it reads the map once more, with the first guard if there was an entry. -/
  | rereading (packet : UdpTraffic) (guard : Bool)
  /-- With the lock for reading. -/
  | pushing (packet : UdpTraffic) (forwarder : Nat)
  | ended
  deriving DecidableEq

def Loop.holdsGuard : Loop → Bool
  | connecting _ | pushing _ _ => true
  | rereading _ guard => guard
  | _ => false

structure State where
  /-- The forwarder behind the sender of each entry. -/
  portMap : HashMap SocketAddr Nat
  forwarders : List Forwarder
  outbound : List UdpTraffic
  writerRuns : Bool
  loop : Loop

namespace State

def init : State := ⟨∅, [], [], true, .reading⟩

def update (s : State) (f : Nat) (fw : Forwarder) : State :=
  { s with forwarders := s.forwarders.set f fw }

/-- Whether a forwarder waits for the lock, and the loop would wait behind it. -/
def writeAwaited (s : State) : Bool := s.forwarders.any fun fw => fw.phase = .locking

/-- A forwarder of the peer that is still there. -/
def Live (s : State) (f : Nat) (peer : SocketAddr) : Prop :=
  ∃ fw, s.forwarders[f]? = some fw ∧ fw.source = peer ∧ fw.phase ≠ .ended

end State

/-! ## Steps -/

/-- What happens to a forwarder. -/
inductive Event
  | take
  | sent (ok : Bool)
  | closed
  | answer (data : Bytes)
  | recvFails
  | timeout
  | queueReply
  | ask
  | remove

inductive Label
  | receive (packet : UdpTraffic)
  | channelFails
  | lookUp
  | lock
  | connect (ok : Bool)
  | reread
  | push
  | forwarder (f : Nat) (event : Event)
  | writeOut (ok : Bool)

def stepForwarder (s : State) (f : Nat) (fw : Forwarder) : Event → Option State
  | .take =>
      match fw.phase, fw.inbound with
      | .running, data :: inbound =>
          some (s.update f { fw with phase := .sending data, inbound := inbound })
      | _, _ => none
  | .sent ok =>
      match fw.phase with
      | .sending _ => some (s.update f { fw with phase := if ok then .running else .ended })
      | _ => none
  | .closed =>
      if fw.phase = .running ∧ fw.inbound = [] ∧ s.portMap.lookup fw.source ≠ some f then
        some (s.update f { fw with phase := .leaving })
      else none
  | .answer data =>
      if fw.phase = .running then
        some (s.update f { fw with phase := .replying (data.take udpBufferSize) })
      else none
  | .recvFails | .timeout =>
      if fw.phase = .running then some (s.update f { fw with phase := .leaving }) else none
  | .queueReply =>
      match fw.phase with
      | .replying data =>
          if ¬s.writerRuns then some (s.update f { fw with phase := .ended })
          else if s.outbound.length < udpSendqSize then
            some { s.update f { fw with phase := .running } with
              outbound := s.outbound ++ [⟨fw.source, data⟩] }
          else none
      | _ => none
  | .ask =>
      if fw.phase = .leaving then some (s.update f { fw with phase := .locking }) else none
  | .remove =>
      if fw.phase = .locking ∧ ¬s.loop.holdsGuard then
        some { s.update f { fw with phase := .ended } with portMap := s.portMap.erase fw.source }
      else none

/-- The loop looks for the peer's entry, and keeps the guard if there is one. -/
def lookUp (s : State) : Option State :=
  match s.loop with
  | .lookingUp packet =>
      if s.writeAwaited then none
      else
        match s.portMap.lookup packet.source with
        | none => some { s with loop := .creating packet }
        | some _ => some { s with loop := .rereading packet true }
  | _ => none

def lock (s : State) : Option State :=
  match s.loop with
  | .creating packet =>
      if s.writeAwaited then none else some { s with loop := .connecting packet }
  | _ => none

def connect (s : State) (ok : Bool) : Option State :=
  match s.loop with
  | .connecting packet =>
      if ok then
        some { s with
          portMap := s.portMap.insert packet.source s.forwarders.length
          forwarders := s.forwarders ++ [⟨packet.source, .running, []⟩]
          loop := .rereading packet false }
      else some { s with loop := .rereading packet false }
  | _ => none

/-- The loop does not give the first guard back before it asks for the second. -/
def reread (s : State) : Option State :=
  match s.loop with
  | .rereading packet _ =>
      if s.writeAwaited then none
      else
        match s.portMap.lookup packet.source with
        | some f => some { s with loop := .pushing packet f }
        | none => some { s with loop := .reading }
  | _ => none

/-- The receiver of a forwarder that has ended is gone, and the error is ignored. -/
def push (s : State) : Option State :=
  match s.loop with
  | .pushing packet f =>
      match s.forwarders[f]? with
      | none => none
      | some fw =>
          if fw.phase = .ended then some { s with loop := .reading }
          else if fw.inbound.length < udpSendqSize then
            some { s.update f { fw with inbound := fw.inbound ++ [packet.data] } with
              loop := .reading }
          else none
  | _ => none

def writeOut (s : State) (ok : Bool) : Option State :=
  match s.writerRuns, s.outbound with
  | true, _ :: outbound =>
      if ok then some { s with outbound := outbound }
      else some { s with outbound := [], writerRuns := false }
  | _, _ => none

def step (s : State) : Label → Option State
  | .receive packet =>
      if s.loop = .reading then some { s with loop := .lookingUp packet } else none
  | .channelFails => if s.loop = .reading then some { s with loop := .ended } else none
  | .lookUp => lookUp s
  | .lock => lock s
  | .connect ok => connect s ok
  | .reread => reread s
  | .push => push s
  | .forwarder f event => (s.forwarders[f]?).bind fun fw => stepForwarder s f fw event
  | .writeOut ok => writeOut s ok

def machine : Machine State Label := ⟨State.init, step⟩

/-! ## What a step can do -/

variable {s t : State} {f g : Nat} {fw fw' : Forwarder} {peer : SocketAddr} {label : Label}

/-- The steps of the loop that reads the channel. -/
inductive LoopStep (s : State) : Label → State → Prop
  | received {packet} (hloop : s.loop = .reading) :
      LoopStep s (.receive packet) { s with loop := .lookingUp packet }
  | channelFailed (hloop : s.loop = .reading) : LoopStep s .channelFails { s with loop := .ended }
  | missing {packet} (hloop : s.loop = .lookingUp packet)
      (hnone : s.portMap.lookup packet.source = none) :
      LoopStep s .lookUp { s with loop := .creating packet }
  | present {packet f} (hloop : s.loop = .lookingUp packet) (hfree : s.writeAwaited = false)
      (hsome : s.portMap.lookup packet.source = some f) :
      LoopStep s .lookUp { s with loop := .rereading packet true }
  | locked {packet} (hloop : s.loop = .creating packet) :
      LoopStep s .lock { s with loop := .connecting packet }
  | unconnected {packet} (hloop : s.loop = .connecting packet) :
      LoopStep s (.connect false) { s with loop := .rereading packet false }
  | connected {packet} (hloop : s.loop = .connecting packet) :
      LoopStep s (.connect true) { s with
        portMap := s.portMap.insert packet.source s.forwarders.length
        forwarders := s.forwarders ++ [⟨packet.source, .running, []⟩]
        loop := .rereading packet false }
  | reread {packet guard f} (hloop : s.loop = .rereading packet guard)
      (hfree : s.writeAwaited = false) (hsome : s.portMap.lookup packet.source = some f) :
      LoopStep s .reread { s with loop := .pushing packet f }
  | unserved {packet guard} (hloop : s.loop = .rereading packet guard)
      (hfree : s.writeAwaited = false) (hnone : s.portMap.lookup packet.source = none) :
      LoopStep s .reread { s with loop := .reading }
  | unpushed {packet f fw} (hloop : s.loop = .pushing packet f)
      (hfw : s.forwarders[f]? = some fw) (hphase : fw.phase = .ended) :
      LoopStep s .push { s with loop := .reading }
  | pushed {packet f fw} (hloop : s.loop = .pushing packet f)
      (hfw : s.forwarders[f]? = some fw) (hphase : fw.phase ≠ .ended)
      (hroom : fw.inbound.length < udpSendqSize) :
      LoopStep s .push { s.update f { fw with inbound := fw.inbound ++ [packet.data] } with
        loop := .reading }

/-- The steps of a forwarder. -/
inductive ForwarderStep (s : State) (f : Nat) (fw : Forwarder) : Event → State → Prop
  | taken {data inbound} (hphase : fw.phase = .running) (hin : fw.inbound = data :: inbound) :
      ForwarderStep s f fw .take (s.update f { fw with phase := .sending data, inbound := inbound })
  | sent {data} (hphase : fw.phase = .sending data) :
      ForwarderStep s f fw (.sent true) (s.update f { fw with phase := .running })
  | unsent {data} (hphase : fw.phase = .sending data) :
      ForwarderStep s f fw (.sent false) (s.update f { fw with phase := .ended })
  | closed (hphase : fw.phase = .running) (hin : fw.inbound = []) :
      ForwarderStep s f fw .closed (s.update f { fw with phase := .leaving })
  | answered {data} (hphase : fw.phase = .running) :
      ForwarderStep s f fw (.answer data)
        (s.update f { fw with phase := .replying (data.take udpBufferSize) })
  | left {event} (hphase : fw.phase = .running) (hevent : event = .recvFails ∨ event = .timeout) :
      ForwarderStep s f fw event (s.update f { fw with phase := .leaving })
  | queued {data} (hphase : fw.phase = .replying data) (hruns : s.writerRuns = true) :
      ForwarderStep s f fw .queueReply { s.update f { fw with phase := .running } with
        outbound := s.outbound ++ [⟨fw.source, data⟩] }
  | unqueued {data} (hphase : fw.phase = .replying data) (hruns : s.writerRuns = false) :
      ForwarderStep s f fw .queueReply (s.update f { fw with phase := .ended })
  | asked (hphase : fw.phase = .leaving) :
      ForwarderStep s f fw .ask (s.update f { fw with phase := .locking })
  | removed (hphase : fw.phase = .locking) (hguard : s.loop.holdsGuard = false) :
      ForwarderStep s f fw .remove { s.update f { fw with phase := .ended } with
        portMap := s.portMap.erase fw.source }

theorem forwarderStep_of_stepForwarder {event : Event}
    (h : stepForwarder s f fw event = some t) : ForwarderStep s f fw event t := by
  cases event with
  | take =>
      simp only [stepForwarder] at h
      split at h
      · rename_i hphase hin
        exact Option.some.inj h ▸ .taken hphase hin
      · cases h
  | sent ok =>
      simp only [stepForwarder] at h
      split at h
      · rename_i hphase
        cases ok with
        | true => exact Option.some.inj h ▸ .sent hphase
        | false => exact Option.some.inj h ▸ .unsent hphase
      · cases h
  | closed =>
      simp only [stepForwarder] at h
      split at h
      · rename_i hclosed
        exact Option.some.inj h ▸ .closed hclosed.1 hclosed.2.1
      · cases h
  | answer data =>
      simp only [stepForwarder] at h
      split at h
      · rename_i hphase
        exact Option.some.inj h ▸ .answered hphase
      · cases h
  | recvFails =>
      simp only [stepForwarder] at h
      split at h
      · rename_i hphase
        exact Option.some.inj h ▸ .left hphase (.inl rfl)
      · cases h
  | timeout =>
      simp only [stepForwarder] at h
      split at h
      · rename_i hphase
        exact Option.some.inj h ▸ .left hphase (.inr rfl)
      · cases h
  | queueReply =>
      simp only [stepForwarder] at h
      split at h
      · rename_i data hphase
        split at h
        · rename_i hended
          exact Option.some.inj h ▸ .unqueued hphase (Bool.eq_false_of_not_eq_true hended)
        · rename_i hruns
          split at h
          · exact Option.some.inj h ▸ .queued hphase (not_not.mp hruns)
          · cases h
      · cases h
  | ask =>
      simp only [stepForwarder] at h
      split at h
      · rename_i hphase
        exact Option.some.inj h ▸ .asked hphase
      · cases h
  | remove =>
      simp only [stepForwarder] at h
      split at h
      · rename_i hlocking
        exact Option.some.inj h ▸ .removed hlocking.1 (Bool.eq_false_of_not_eq_true hlocking.2)
      · cases h

/-- A step is one of the loop, of a forwarder or of the writer, who takes the oldest
datagram off the queue or fails and drops them all. -/
theorem step_cases (h : step s label = some t) :
    LoopStep s label t ∨
      (∃ f event fw, label = .forwarder f event ∧ s.forwarders[f]? = some fw ∧
        ForwarderStep s f fw event t) ∨
      ∃ ok u outbound, label = .writeOut ok ∧ s.outbound = u :: outbound ∧ s.writerRuns = true ∧
        t = { s with
          outbound := if ok then outbound else []
          writerRuns := ok } := by
  cases label with
  | forwarder f event =>
      obtain ⟨fw, hfw, hevent⟩ := Option.bind_eq_some_iff.mp h
      exact .inr (.inl ⟨f, event, fw, rfl, hfw, forwarderStep_of_stepForwarder hevent⟩)
  | writeOut ok =>
      simp only [step, writeOut] at h
      split at h
      · rename_i u outbound hruns houtbound
        refine .inr (.inr ⟨ok, u, outbound, rfl, houtbound, hruns, ?_⟩)
        cases ok <;> rw [← Option.some.inj h] <;> simp [hruns]
      · cases h
  | receive packet =>
      simp only [step] at h
      split at h
      · rename_i hloop
        exact .inl (Option.some.inj h ▸ .received hloop)
      · cases h
  | channelFails =>
      simp only [step] at h
      split at h
      · rename_i hloop
        exact .inl (Option.some.inj h ▸ .channelFailed hloop)
      · cases h
  | lookUp =>
      simp only [step, lookUp] at h
      repeat' split at h
      · cases h
      · rename_i hloop _ _ hnone
        exact .inl (Option.some.inj h ▸ .missing hloop hnone)
      · rename_i hloop hfree _ _ hsome
        exact .inl (Option.some.inj h ▸ .present hloop (Bool.eq_false_of_not_eq_true hfree) hsome)
      · cases h
  | lock =>
      simp only [step, lock] at h
      repeat' split at h
      · cases h
      · rename_i hloop _
        exact .inl (Option.some.inj h ▸ .locked hloop)
      · cases h
  | connect ok =>
      simp only [step, connect] at h
      split at h
      · rename_i hloop
        cases ok with
        | false => exact .inl (Option.some.inj h ▸ .unconnected hloop)
        | true => exact .inl (Option.some.inj h ▸ .connected hloop)
      · cases h
  | reread =>
      simp only [step, reread] at h
      repeat' split at h
      · cases h
      · rename_i hloop hfree _ _ hsome
        exact .inl (Option.some.inj h ▸ .reread hloop (Bool.eq_false_of_not_eq_true hfree) hsome)
      · rename_i hloop hfree _ hnone
        exact .inl (Option.some.inj h ▸ .unserved hloop (Bool.eq_false_of_not_eq_true hfree) hnone)
      · cases h
  | push =>
      simp only [step, push] at h
      repeat' split at h
      · cases h
      · rename_i hloop _ _ hfw hphase
        exact .inl (Option.some.inj h ▸ .unpushed hloop hfw hphase)
      · rename_i hloop _ _ hfw hphase hroom
        exact .inl (Option.some.inj h ▸ .pushed hloop hfw hphase hroom)
      · cases h
      · cases h

/-! ## Forwarders -/

theorem live_iff_of_getElem? (hfw : s.forwarders[f]? = some fw) (hphase : fw.phase ≠ .ended) :
    s.Live f peer ↔ fw.source = peer := by
  unfold State.Live
  rw [hfw]
  simp only [Option.some.injEq, exists_eq_left', hphase, ne_eq, not_false_eq_true, and_true]

theorem ForwarderStep.phase_ne_ended {event : Event} (h : ForwarderStep s f fw event t) :
    fw.phase ≠ .ended := by
  cases h with
  | taken hphase | sent hphase | unsent hphase | closed hphase | answered hphase
  | left hphase | queued hphase | unqueued hphase | asked hphase | removed hphase =>
      rw [hphase]
      nofun

/-- The forwarder goes on, takes its entry out, or ends and leaves its entry behind. -/
theorem ForwarderStep.outcome {event : Event} (h : ForwarderStep s f fw event t) :
    (∃ fw' outbound, fw'.source = fw.source ∧ fw'.phase ≠ .ended ∧
        (fw.inbound = [] → fw'.inbound = []) ∧
        t = { s.update f fw' with outbound := outbound }) ∨
      (s.loop.holdsGuard = false ∧
        t = { s.update f { fw with phase := .ended } with
          portMap := s.portMap.erase fw.source }) ∨
      ((event = .sent false ∨ event = .queueReply ∧ s.writerRuns = false) ∧
        t = s.update f { fw with phase := .ended }) := by
  cases h with
  | @taken data inbound hphase hin =>
      refine .inl ⟨{ fw with phase := .sending data, inbound := inbound }, s.outbound, rfl, nofun,
        fun hnil => ?_, rfl⟩
      rw [hin] at hnil
      cases hnil
  | sent => exact .inl ⟨{ fw with phase := .running }, s.outbound, rfl, nofun, id, rfl⟩
  | closed | left => exact .inl ⟨{ fw with phase := .leaving }, s.outbound, rfl, nofun, id, rfl⟩
  | @answered data =>
      exact .inl ⟨{ fw with phase := .replying (data.take udpBufferSize) }, s.outbound, rfl, nofun,
        id, rfl⟩
  | queued => exact .inl ⟨{ fw with phase := .running }, _, rfl, nofun, id, rfl⟩
  | asked => exact .inl ⟨{ fw with phase := .locking }, s.outbound, rfl, nofun, id, rfl⟩
  | removed _ hguard => exact .inr (.inl ⟨hguard, rfl⟩)
  | unsent => exact .inr (.inr ⟨.inl rfl, rfl⟩)
  | unqueued _ hruns => exact .inr (.inr ⟨.inr ⟨rfl, hruns⟩, rfl⟩)

theorem getElem?_update (s : State) (f g : Nat) (fw : Forwarder) :
    (s.update f fw).forwarders[g]? =
      if f = g ∧ g < s.forwarders.length then some fw else s.forwarders[g]? := by
  show (s.forwarders.set f fw)[g]? = _
  rw [List.getElem?_set]
  split
  · rename_i heq
    subst heq
    split
    · rename_i hlt
      rw [if_pos ⟨rfl, hlt⟩]
    · rename_i hge
      rw [if_neg (fun h => hge h.2), List.getElem?_eq_none (by omega)]
  · rename_i hne
    rw [if_neg (fun h => hne h.1)]

/-- A forwarder that goes on is as live as before. -/
theorem live_update_of_kept (hfw : s.forwarders[f]? = some fw) (hphase : fw.phase ≠ .ended)
    (hsource : fw'.source = fw.source) (hphase' : fw'.phase ≠ .ended) :
    (s.update f fw').Live g peer ↔ s.Live g peer := by
  obtain ⟨hlt, -⟩ := List.getElem?_eq_some_iff.mp hfw
  unfold State.Live
  rw [getElem?_update]
  by_cases hg : f = g
  · subst hg
    rw [if_pos ⟨rfl, hlt⟩, hfw]
    simp only [Option.some.injEq, exists_eq_left', hsource]
    exact and_congr_right fun _ => iff_of_true hphase' hphase
  · rw [if_neg (fun h => hg h.1)]

/-- A forwarder that ends is the only one that is gone. -/
theorem live_update_of_ended (hfw : s.forwarders[f]? = some fw) (hphase' : fw'.phase = .ended) :
    (s.update f fw').Live g peer ↔ g ≠ f ∧ s.Live g peer := by
  obtain ⟨hlt, -⟩ := List.getElem?_eq_some_iff.mp hfw
  unfold State.Live
  rw [getElem?_update]
  by_cases hg : f = g
  · subst hg
    rw [if_pos ⟨rfl, hlt⟩]
    simp only [Option.some.injEq, exists_eq_left', hphase', ne_eq, not_true_eq_false, and_false,
      false_and]
  · rw [if_neg (fun h => hg h.1)]
    simp only [ne_eq, Ne.symm hg, not_false_eq_true, true_and]

/-- A new forwarder is live, for its own peer. -/
theorem live_append_iff {source : SocketAddr}
    (ht : t.forwarders = s.forwarders ++ [⟨source, .running, []⟩]) :
    t.Live g peer ↔ s.Live g peer ∨ (g = s.forwarders.length ∧ peer = source) := by
  unfold State.Live
  rw [ht]
  rcases Nat.lt_trichotomy g s.forwarders.length with hlt | heq | hgt
  · rw [List.getElem?_append_left hlt]
    exact (or_iff_left fun h => Nat.ne_of_lt hlt h.1).symm
  · subst heq
    rw [List.getElem?_concat_length, List.getElem?_eq_none (Nat.le_refl _)]
    simp only [Option.some.injEq, exists_eq_left', reduceCtorEq, false_and, exists_false,
      false_or, true_and, ne_eq, not_false_eq_true, and_true]
    exact eq_comm
  · rw [List.getElem?_eq_none (by simp; omega), List.getElem?_eq_none (by omega)]
    refine (or_iff_left fun h => ?_).symm
    omega

end Kdct.UdpSessions
