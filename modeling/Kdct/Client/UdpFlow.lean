/-
What the sessions of a UDP data channel do in all runs, whatever fails.

`Sessions` recover only when no socket and no writer fails, but some of what they promise
does not depend on it: a peer has at most one forwarder that has not ended (`Routed`), a
visitor's payloads go through the loop and its forwarder in order or are dropped
(`inward`), and so do the replies on their way back (`outward`).

All that a step can do is said by `step_cases`, and the lemmas below are by cases on it.
-/
import Kdct.Client.UdpSessions

namespace Kdct

namespace UdpTraffic

/-- A datagram that is read back as it was written. -/
def Sendable (t : UdpTraffic) : Prop := t.source.Plain ∧ t.data.length ≤ 65535

end UdpTraffic

namespace UdpSessions

namespace Forwarder

/-- The payloads a forwarder still sends on. -/
def carried (fw : Forwarder) : List Bytes :=
  match fw.phase with
  | .sending data => data :: fw.inbound
  | .running | .replying _ => fw.inbound
  | .leaving | .locking | .ended => []

/-- The reply it is about to queue. -/
def reply (fw : Forwarder) : List Bytes :=
  match fw.phase with
  | .replying data => [data]
  | _ => []

end Forwarder

/-- The datagram the loop is at. -/
def Loop.packet? : Loop → Option UdpTraffic
  | .lookingUp packet | .creating packet | .connecting packet | .rereading packet _
  | .pushing packet _ => some packet
  | .reading | .ended => none

/-- The datagram a step takes off the channel. -/
def Label.received? : Label → Option UdpTraffic
  | .receive packet => some packet
  | _ => none

/-- The payloads that are for the peer. -/
def payloads (peer : SocketAddr) (ts : List UdpTraffic) : List Bytes :=
  (ts.filter fun t => t.source = peer).map UdpTraffic.data

theorem payloads_append (peer : SocketAddr) (ts us : List UdpTraffic) :
    payloads peer (ts ++ us) = payloads peer ts ++ payloads peer us := by
  rw [payloads, List.filter_append, List.map_append]
  rfl

theorem payloads_cons (peer : SocketAddr) (t : UdpTraffic) (ts : List UdpTraffic) :
    payloads peer (t :: ts) = payloads peer [t] ++ payloads peer ts :=
  payloads_append peer [t] ts

namespace State

/-- The forwarder behind the peer's entry. -/
def entry (s : State) (peer : SocketAddr) : Option Forwarder :=
  (s.portMap.lookup peer).bind fun f => s.forwarders[f]?

/-- The payloads of a visitor between the channel and the service, oldest first. -/
def inward (s : State) (peer : SocketAddr) : List Bytes :=
  (s.entry peer).elim [] Forwarder.carried ++ payloads peer s.loop.packet?.toList

/-- The replies to a visitor between the service and the channel, oldest first. -/
def outward (s : State) (peer : SocketAddr) : List Bytes :=
  payloads peer s.outbound ++ (s.entry peer).elim [] Forwarder.reply

/-- Two forwarders of one peer that have not ended are the same. -/
def OneForwarder (s : State) : Prop :=
  ∀ (f g : Nat) (fw gw : Forwarder), s.forwarders[f]? = some fw → s.forwarders[g]? = some gw →
    fw.phase ≠ .ended → gw.phase ≠ .ended → fw.source = gw.source → f = g

/-- A forwarder that has not ended is the one in the map. -/
structure Routed (s : State) : Prop where
  owner : ∀ peer f, s.portMap.lookup peer = some f →
    ∃ fw, s.forwarders[f]? = some fw ∧ fw.source = peer
  live : ∀ f fw, s.forwarders[f]? = some fw → fw.phase ≠ .ended →
    s.portMap.lookup fw.source = some f
  absent : ∀ packet, s.loop = .creating packet ∨ s.loop = .connecting packet →
    s.portMap.lookup packet.source = none
  pushing : ∀ packet f, s.loop = .pushing packet f → s.portMap.lookup packet.source = some f

/-- Addresses and payloads are such that datagrams are read back as they are written. -/
structure Sendable (s : State) : Prop where
  sources : ∀ fw ∈ s.forwarders, fw.source.Plain
  replies : ∀ fw ∈ s.forwarders, ∀ data ∈ fw.reply, data.length ≤ udpBufferSize
  packet : ∀ packet ∈ s.loop.packet?, packet.source.Plain
  outbound : ∀ t ∈ s.outbound, t.Sendable

end State

/-- The payload that an event of a forwarder sends to the service. -/
def Event.sent? (fw : Forwarder) : Event → Option Bytes
  | .sent true =>
      match fw.phase with
      | .sending data => some data
      | _ => none
  | _ => none

/-- The payload that the service sends to a forwarder's socket. -/
def Event.answer? : Event → Option Bytes
  | .answer data => some (data.take udpBufferSize)
  | _ => none

/-- What a step reads off the peer's forwarder. -/
def ofPeer (peer : SocketAddr) (read : Forwarder → Event → Option Bytes) (s : State) :
    Label → Option Bytes
  | .forwarder f event =>
      (s.forwarders[f]?).bind fun fw => if fw.source = peer then read fw event else none
  | _ => none

def delivered (peer : SocketAddr) : State → Label → Option Bytes :=
  ofPeer peer fun fw event => event.sent? fw

def answered (peer : SocketAddr) : State → Label → Option Bytes :=
  ofPeer peer fun _ event => event.answer?

section Sessions

variable {s t : State} {f : Nat} {fw fw' : Forwarder} {peer : SocketAddr} {label : Label}

/-! ### What a step moves -/

/-- What an event does to its forwarder and what it leaves alone. -/
theorem ForwarderStep.moves {event : Event} (h : ForwarderStep s f fw event t) :
    ∃ (fw' : Forwarder) (queued : List Bytes), fw'.source = fw.source ∧
      t.forwarders = s.forwarders.set f fw' ∧ t.loop = s.loop ∧ t.writerRuns = s.writerRuns ∧
      t.outbound = s.outbound ++ queued.map (UdpTraffic.mk fw.source) ∧
      (t.portMap = s.portMap ∨ t.portMap = s.portMap.erase fw.source ∧ fw'.phase = .ended) ∧
      ((event.sent? fw).toList ++ fw'.carried).Sublist fw.carried ∧
      (queued ++ fw'.reply).Sublist (fw.reply ++ event.answer?.toList) := by
  cases h with
  | @taken data inbound hphase hin =>
      refine ⟨{ fw with phase := .sending data, inbound := inbound }, [], rfl, rfl, rfl, rfl,
        (List.append_nil _).symm, .inl rfl, ?_, List.nil_sublist _⟩
      simp [Event.sent?, Forwarder.carried, hphase, hin]
  | sent hphase =>
      refine ⟨{ fw with phase := .running }, [], rfl, rfl, rfl, rfl,
        (List.append_nil _).symm, .inl rfl, ?_, List.nil_sublist _⟩
      simp [Event.sent?, Forwarder.carried, hphase]
  | unsent | unqueued =>
      exact ⟨{ fw with phase := .ended }, [], rfl, rfl, rfl, rfl,
        (List.append_nil _).symm, .inl rfl, List.nil_sublist _, List.nil_sublist _⟩
  | closed =>
      exact ⟨{ fw with phase := .leaving }, [], rfl, rfl, rfl, rfl,
        (List.append_nil _).symm, .inl rfl, List.nil_sublist _, List.nil_sublist _⟩
  | left _ hevent =>
      refine ⟨{ fw with phase := .leaving }, [], rfl, rfl, rfl, rfl,
        (List.append_nil _).symm, .inl rfl, ?_, List.nil_sublist _⟩
      rcases hevent with rfl | rfl <;> exact List.nil_sublist _
  | @answered data hphase =>
      refine ⟨{ fw with phase := .replying (data.take udpBufferSize) }, [], rfl, rfl, rfl, rfl,
        (List.append_nil _).symm, .inl rfl, ?_, ?_⟩
      · simp [Event.sent?, Forwarder.carried, hphase]
      · simp [Event.answer?, Forwarder.reply, hphase]
  | @queued data hphase =>
      refine ⟨{ fw with phase := .running }, [data], rfl, rfl, rfl, rfl, rfl, .inl rfl, ?_, ?_⟩
      · simp [Event.sent?, Forwarder.carried, hphase]
      · simp [Event.answer?, Forwarder.reply, hphase]
  | asked =>
      exact ⟨{ fw with phase := .locking }, [], rfl, rfl, rfl, rfl,
        (List.append_nil _).symm, .inl rfl, List.nil_sublist _, List.nil_sublist _⟩
  | removed =>
      exact ⟨{ fw with phase := .ended }, [], rfl, rfl, rfl, rfl,
        (List.append_nil _).symm, .inr ⟨rfl, rfl⟩, List.nil_sublist _, List.nil_sublist _⟩

/-- Only the writer ends itself. -/
theorem writerRuns_of_step (h : step s label = some t) (hwrite : ∀ ok, label ≠ .writeOut ok) :
    t.writerRuns = s.writerRuns := by
  rcases step_cases h with hloop | ⟨f, event, fw, rfl, hfw, hevent⟩ | ⟨ok, _, _, rfl, _, _, _⟩
  · cases hloop <;> rfl
  · obtain ⟨_, _, _, _, _, hruns, _⟩ := hevent.moves
    exact hruns
  · exact absurd rfl (hwrite ok)

/-! ### One forwarder for a peer -/

theorem State.Routed.oneForwarder (hR : s.Routed) : s.OneForwarder := by
  intro f g fw gw hfw hgw hf hg hsource
  have hlookup := hR.live f fw hfw hf
  rw [hsource] at hlookup
  exact Option.some.inj (hlookup.symm.trans (hR.live g gw hgw hg))

theorem State.Routed.update (hR : s.Routed) (fw' : Forwarder) (hfw : s.forwarders[f]? = some fw)
    (hphase : fw.phase ≠ .ended) (hsource : fw'.source = fw.source) :
    (s.update f fw').Routed where
  owner := by
    intro peer g hg
    obtain ⟨gw, hgw, hgsource⟩ := hR.owner peer g hg
    rw [getElem?_update]
    split
    · rename_i hfg
      obtain ⟨rfl, -⟩ := hfg
      rw [hfw] at hgw
      obtain rfl := Option.some.inj hgw
      exact ⟨fw', rfl, hsource.trans hgsource⟩
    · exact ⟨gw, hgw, hgsource⟩
  live := by
    intro g gw hgw hlive
    rw [getElem?_update] at hgw
    split at hgw
    · rename_i hfg
      obtain ⟨rfl, -⟩ := hfg
      obtain rfl := Option.some.inj hgw
      rw [hsource]
      exact hR.live f fw hfw hphase
    · exact hR.live g gw hgw hlive
  absent := hR.absent
  pushing := hR.pushing

theorem State.Routed.remove (hR : s.Routed) (hfw : s.forwarders[f]? = some fw)
    (hphase : fw.phase ≠ .ended) (hguard : s.loop.holdsGuard = false) :
    State.Routed { s.update f { fw with phase := .ended } with
      portMap := s.portMap.erase fw.source } where
  owner := by
    intro peer g hg
    have hold := HashMap.lookup_erase_eq_some.mp hg
    exact (hR.update { fw with phase := .ended } hfw hphase rfl).owner peer g hold.2
  live := by
    intro g gw hgw hlive
    have hgw' : (s.update f { fw with phase := .ended }).forwarders[g]? = some gw := hgw
    have hg := (hR.update { fw with phase := .ended } hfw hphase rfl).live g gw hgw' hlive
    refine HashMap.lookup_erase_eq_some.mpr ⟨fun heq => ?_, hg⟩
    rw [heq] at hg
    obtain rfl := Option.some.inj (hg.symm.trans (hR.live f fw hfw hphase))
    have hlt := (List.getElem?_eq_some_iff.mp hfw).1
    rw [getElem?_update, if_pos ⟨rfl, hlt⟩] at hgw'
    exact hlive (Option.some.inj hgw' ▸ rfl)
  absent := by
    intro packet hloop
    show (s.portMap.erase fw.source).lookup packet.source = none
    rw [HashMap.lookup_erase_eq, hR.absent packet hloop]
    exact ite_self none
  pushing := by
    intro packet g hloop
    rw [show s.loop = .pushing packet g from hloop] at hguard
    cases hguard

/-- Only the loop's place changes. -/
theorem State.Routed.atLoop (hR : s.Routed) {loop : Loop}
    (habsent : ∀ packet, loop = .creating packet ∨ loop = .connecting packet →
      s.portMap.lookup packet.source = none)
    (hpushing : ∀ packet f, loop = .pushing packet f →
      s.portMap.lookup packet.source = some f) : State.Routed { s with loop := loop } where
  owner := hR.owner
  live := hR.live
  absent := habsent
  pushing := hpushing

theorem State.Routed.insert (hR : s.Routed) {packet : UdpTraffic}
    (hnone : s.portMap.lookup packet.source = none) :
    State.Routed { s with
      portMap := s.portMap.insert packet.source s.forwarders.length
      forwarders := s.forwarders ++ [⟨packet.source, .running, []⟩]
      loop := .rereading packet false } where
  owner := by
    intro peer g hg
    rw [HashMap.lookup_insert_eq] at hg
    split at hg
    · rename_i heq
      obtain rfl := Option.some.inj hg
      exact ⟨_, List.getElem?_concat_length, heq.symm⟩
    · obtain ⟨gw, hgw, hsource⟩ := hR.owner peer g hg
      have hlt := (List.getElem?_eq_some_iff.mp hgw).1
      exact ⟨gw, (List.getElem?_append_left hlt).trans hgw, hsource⟩
  live := by
    intro g gw hgw hlive
    rw [HashMap.lookup_insert_eq]
    rcases Nat.lt_or_ge g s.forwarders.length with hlt | hge
    · rw [List.getElem?_append_left hlt] at hgw
      have hg := hR.live g gw hgw hlive
      rw [if_neg, hg]
      intro heq
      rw [heq, hnone] at hg
      cases hg
    · rw [List.getElem?_append_right hge] at hgw
      obtain ⟨hlen, hgw⟩ := List.getElem?_eq_some_iff.mp hgw
      have hg : g = s.forwarders.length := by
        rw [List.length_singleton] at hlen
        omega
      rw [← hgw, List.getElem_singleton, if_pos rfl, hg]
  absent := nofun
  pushing := nofun

theorem State.Routed.step (hR : s.Routed) (h : step s label = some t) : t.Routed := by
  rcases step_cases h with hloop | ⟨f, event, fw, rfl, hfw, hevent⟩ | ⟨_, _, _, rfl, _, _, rfl⟩
  · cases hloop with
    | missing _ hnone =>
        refine hR.atLoop ?_ nofun
        rintro packet' (hnext | hnext)
        · rwa [← Loop.creating.inj hnext]
        · cases hnext
    | locked hloop =>
        refine hR.atLoop ?_ nofun
        rintro packet' (hnext | hnext)
        · cases hnext
        · rw [← Loop.connecting.inj hnext]
          exact hR.absent _ (.inl hloop)
    | connected hloop => exact hR.insert (hR.absent _ (.inr hloop))
    | reread _ _ hsome =>
        refine hR.atLoop nofun ?_
        intro packet' f' hnext
        obtain ⟨rfl, rfl⟩ := Loop.pushing.inj hnext
        exact hsome
    | pushed _ hfw hphase => exact (hR.update _ hfw hphase (by rfl)).atLoop nofun nofun
    | _ => exact hR.atLoop nofun nofun
  · have hphase := hevent.phase_ne_ended
    rcases hevent.outcome with ⟨fw', outbound, hsource, -, -, rfl⟩ | ⟨hguard, rfl⟩ | ⟨-, rfl⟩
    · have hkept := hR.update fw' hfw hphase hsource
      exact ⟨hkept.owner, hkept.live, hkept.absent, hkept.pushing⟩
    · exact hR.remove hfw hphase hguard
    · exact hR.update _ hfw hphase rfl
  · exact ⟨hR.owner, hR.live, hR.absent, hR.pushing⟩

/-! ### What the sessions hold -/

/-- A forwarder that changes is the one behind its peer's entry. -/
theorem State.Routed.entry_update (hR : s.Routed) (fw' : Forwarder)
    (hfw : s.forwarders[f]? = some fw) (hphase : fw.phase ≠ .ended) :
    (s.update f fw').entry peer = if peer = fw.source then some fw' else s.entry peer := by
  have hentry := hR.live f fw hfw hphase
  have hlt := (List.getElem?_eq_some_iff.mp hfw).1
  show ((s.portMap.lookup peer).bind fun g => (s.update f fw').forwarders[g]?) = _
  split
  · rename_i hpeer
    rw [hpeer, hentry, Option.bind_some, getElem?_update, if_pos ⟨rfl, hlt⟩]
  · rename_i hpeer
    unfold State.entry
    cases hg : s.portMap.lookup peer with
    | none => rfl
    | some g =>
        obtain ⟨gw, hgw, hsource⟩ := hR.owner peer g hg
        rw [Option.bind_some, Option.bind_some, getElem?_update, if_neg]
        rintro ⟨rfl, -⟩
        rw [hfw] at hgw
        exact hpeer (hsource.symm.trans (congrArg Forwarder.source (Option.some.inj hgw).symm))

theorem State.Routed.entry_live (hR : s.Routed) (hfw : s.forwarders[f]? = some fw)
    (hphase : fw.phase ≠ .ended) : s.entry fw.source = some fw := by
  rw [State.entry, hR.live f fw hfw hphase, Option.bind_some, hfw]

/-- A new forwarder holds nothing. -/
theorem State.Routed.entry_insert (hR : s.Routed) {packet : UdpTraffic} {φ : Forwarder → List Bytes}
    (hφ : φ ⟨packet.source, .running, []⟩ = [])
    (hnone : s.portMap.lookup packet.source = none) {loop : Loop} :
    (State.entry { s with
      portMap := s.portMap.insert packet.source s.forwarders.length
      forwarders := s.forwarders ++ [⟨packet.source, .running, []⟩]
      loop := loop } peer).elim [] φ = (s.entry peer).elim [] φ := by
  show (((s.portMap.insert packet.source s.forwarders.length).lookup peer).bind fun g =>
    (s.forwarders ++ [⟨packet.source, .running, []⟩])[g]?).elim [] φ = _
  rw [HashMap.lookup_insert_eq]
  unfold State.entry
  split
  · rename_i hpeer
    rw [hpeer, hnone, Option.bind_some, List.getElem?_concat_length]
    exact hφ
  · cases hg : s.portMap.lookup peer with
    | none => rfl
    | some g =>
        obtain ⟨gw, hgw, -⟩ := hR.owner peer g hg
        have hlt := (List.getElem?_eq_some_iff.mp hgw).1
        rw [Option.bind_some, Option.bind_some, List.getElem?_append_left hlt]

/-- One forwarder's event, seen by one peer. -/
theorem State.Routed.elim_entry (hR : s.Routed) {φ : Forwarder → List Bytes}
    (hφ : ∀ fw : Forwarder, fw.phase = .ended → φ fw = []) (hfw : s.forwarders[f]? = some fw)
    (hphase : fw.phase ≠ .ended) (hforwarders : t.forwarders = s.forwarders.set f fw')
    (hmap : t.portMap = s.portMap ∨ t.portMap = s.portMap.erase fw.source ∧ fw'.phase = .ended) :
    (t.entry peer).elim [] φ = if peer = fw.source then φ fw' else (s.entry peer).elim [] φ := by
  have hupdate : (s.update f fw').entry peer = _ := hR.entry_update fw' hfw hphase
  rcases hmap with hmap | ⟨hmap, hended⟩
  · have hentry : t.entry peer = (s.update f fw').entry peer := by
      unfold State.entry
      rw [hmap, hforwarders]
      rfl
    rw [hentry, hupdate]
    split <;> rfl
  · unfold State.entry at hupdate ⊢
    rw [hmap, hforwarders, HashMap.lookup_erase_eq]
    split
    · exact (hφ fw' hended).symm
    · rename_i hpeer
      rw [if_neg hpeer] at hupdate
      exact congrArg (fun o : Option Forwarder => o.elim [] φ) hupdate

/-- A forwarder sends on what it holds, in order, or drops it. -/
theorem State.Routed.inward_forwarder (hR : s.Routed) (hfw : s.forwarders[f]? = some fw)
    {event : Event} (h : ForwarderStep s f fw event t) :
    ((delivered peer s (.forwarder f event)).toList ++ t.inward peer).Sublist (s.inward peer) := by
  have hphase := h.phase_ne_ended
  obtain ⟨fw', queued, -, hforwarders, hloop, -, -, hmap, hsub, -⟩ := h.moves
  have hended : ∀ fw : Forwarder, fw.phase = .ended → fw.carried = [] := fun fw hfw => by
    rw [Forwarder.carried, hfw]
  unfold State.inward
  rw [hloop, hR.elim_entry hended hfw hphase hforwarders hmap, ← List.append_assoc]
  refine List.Sublist.append_right ?_ _
  rw [delivered, ofPeer, hfw, Option.bind_some]
  by_cases hpeer : peer = fw.source
  · subst hpeer
    rw [if_pos rfl, if_pos rfl, hR.entry_live hfw hphase]
    exact hsub
  · rw [if_neg hpeer, if_neg fun heq => hpeer heq.symm]
    exact List.Sublist.refl _

/-- A forwarder queues what its socket gets, in order, or drops it. -/
theorem State.Routed.outward_forwarder (hR : s.Routed) (hfw : s.forwarders[f]? = some fw)
    {event : Event} (h : ForwarderStep s f fw event t) :
    (t.outward peer).Sublist
      (s.outward peer ++ (answered peer s (.forwarder f event)).toList) := by
  have hphase := h.phase_ne_ended
  obtain ⟨fw', queued, -, hforwarders, -, -, houtbound, hmap, -, hsub⟩ := h.moves
  have hended : ∀ fw : Forwarder, fw.phase = .ended → fw.reply = [] := fun fw hfw => by
    rw [Forwarder.reply, hfw]
  unfold State.outward
  rw [houtbound, hR.elim_entry hended hfw hphase hforwarders hmap, payloads_append,
    List.append_assoc, List.append_assoc]
  refine List.Sublist.append_left ?_ _
  rw [answered, ofPeer, hfw, Option.bind_some]
  by_cases hpeer : peer = fw.source
  · subst hpeer
    have hqueued : payloads fw.source (queued.map (UdpTraffic.mk fw.source)) = queued := by
      simp [payloads, List.filter_map, Function.comp_def]
    rw [if_pos rfl, if_pos rfl, hqueued, hR.entry_live hfw hphase]
    exact hsub
  · have hqueued : payloads peer (queued.map (UdpTraffic.mk fw.source)) = [] := by
      simp [payloads, List.filter_map, Function.comp_def, Ne.symm hpeer]
    rw [if_neg hpeer, if_neg fun heq => hpeer heq.symm, hqueued]
    simp

/-- The guard the loop holds keeps the entry it has read. -/
theorem State.Routed.source_of_pushing (hR : s.Routed) {packet : UdpTraffic}
    (hloop : s.loop = .pushing packet f) (hfw : s.forwarders[f]? = some fw) :
    fw.source = packet.source := by
  obtain ⟨gw, hgw, hsource⟩ := hR.owner _ _ (hR.pushing packet f hloop)
  rw [hfw] at hgw
  rw [Option.some.inj hgw, hsource]

/-- A step of the loop takes in what it reads, passes it on to the peer's forwarder, or
drops it. -/
theorem State.Routed.inward_loop (hR : s.Routed) (h : LoopStep s label t) :
    (t.inward peer).Sublist (s.inward peer ++ payloads peer label.received?.toList) := by
  unfold State.inward
  cases h with
  | received hloop =>
      rw [hloop, List.append_assoc]
      exact List.Sublist.refl _
  | channelFailed hloop | missing hloop | present hloop | locked hloop | unconnected hloop
  | reread hloop =>
      rw [hloop]
      exact List.sublist_append_left _ _
  | connected hloop =>
      rw [hR.entry_insert rfl (hR.absent _ (.inr hloop)), hloop]
      exact List.sublist_append_left _ _
  | unserved | unpushed =>
      rw [List.append_assoc]
      exact List.Sublist.append_left (List.nil_sublist _) _
  | @pushed packet f fw hloop hfw hphase =>
      have hentry : State.entry { s.update f { fw with inbound := fw.inbound ++ [packet.data] } with
          loop := .reading } peer = _ := hR.entry_update _ hfw hphase
      have hsource := hR.source_of_pushing hloop hfw
      rw [hentry, hloop, List.append_assoc]
      by_cases hpeer : peer = fw.source
      · subst hpeer
        rw [if_pos rfl, hR.entry_live hfw hphase, ← List.append_assoc]
        refine List.Sublist.trans ?_ (List.sublist_append_left _ _)
        simp only [Loop.packet?, Option.toList, payloads, Option.elim_some, hsource,
          List.filter_cons, decide_true, if_true, List.filter_nil, List.map_cons, List.map_nil,
          List.append_nil]
        unfold Forwarder.carried
        dsimp only
        split <;> simp
      · rw [if_neg hpeer]
        exact List.Sublist.append_left (List.nil_sublist _) _

/-- The loop does not touch replies. -/
theorem State.Routed.outward_loop (hR : s.Routed) (h : LoopStep s label t) :
    t.outward peer = s.outward peer := by
  cases h with
  | connected hloop =>
      unfold State.outward
      rw [hR.entry_insert rfl (hR.absent _ (.inr hloop))]
  | @pushed packet f fw hloop hfw hphase =>
      have hentry : State.entry { s.update f { fw with inbound := fw.inbound ++ [packet.data] } with
          loop := .reading } peer = _ := hR.entry_update _ hfw hphase
      unfold State.outward
      rw [hentry]
      by_cases hpeer : peer = fw.source
      · subst hpeer
        rw [if_pos rfl, hR.entry_live hfw hphase]
        rfl
      · rw [if_neg hpeer]
        rfl
  | _ => rfl

/-- What a step takes in and gives out of a visitor's payloads. -/
theorem State.Routed.inward_step (hR : s.Routed) (h : UdpSessions.step s label = some t) :
    ((delivered peer s label).toList ++ t.inward peer).Sublist
      (s.inward peer ++ payloads peer label.received?.toList) := by
  rcases step_cases h with hloop | ⟨f, event, fw, rfl, hfw, hevent⟩ | ⟨ok, _, _, rfl, _, _, rfl⟩
  · have hnone : delivered peer s label = none := by cases hloop <;> rfl
    rw [hnone]
    exact hR.inward_loop hloop
  · exact (hR.inward_forwarder hfw hevent).trans (List.sublist_append_left _ _)
  · exact List.sublist_append_left _ _

/-- What a step takes in of the replies, if it is not the writer's. -/
theorem State.Routed.outward_step (hR : s.Routed) (h : UdpSessions.step s label = some t)
    (hwrite : ∀ ok, label ≠ .writeOut ok) :
    (t.outward peer).Sublist (s.outward peer ++ (answered peer s label).toList) := by
  rcases step_cases h with hloop | ⟨f, event, fw, rfl, hfw, hevent⟩ | ⟨ok, _, _, rfl, _, _, _⟩
  · rw [hR.outward_loop hloop]
    exact List.sublist_append_left _ _
  · exact hR.outward_forwarder hfw hevent
  · exact absurd rfl (hwrite ok)

/-! ### What is written can be read -/

theorem State.Sendable.forwarder (hS : s.Sendable) (hfw : s.forwarders[f]? = some fw)
    {event : Event} (h : ForwarderStep s f fw event t) : t.Sendable := by
  obtain ⟨fw', queued, hsource, hforwarders, hloop, -, houtbound, -, -, hsub⟩ :=
    h.moves
  have hfwMem : fw ∈ s.forwarders := List.mem_of_getElem? hfw
  have hsize : ∀ data ∈ queued ++ fw'.reply, data.length ≤ udpBufferSize := by
    intro data hdata
    rcases List.mem_append.mp (hsub.subset hdata) with hold | hnew
    · exact hS.replies fw hfwMem data hold
    · cases event with
      | answer bytes =>
          obtain rfl := List.mem_singleton.mp hnew
          exact List.length_take_le udpBufferSize bytes
      | _ => cases hnew
  refine ⟨?_, ?_, ?_, ?_⟩
  · intro gw hgw
    rw [hforwarders] at hgw
    rcases List.mem_or_eq_of_mem_set hgw with hgw | rfl
    · exact hS.sources gw hgw
    · rw [hsource]
      exact hS.sources fw hfwMem
  · intro gw hgw data hdata
    rw [hforwarders] at hgw
    rcases List.mem_or_eq_of_mem_set hgw with hgw | rfl
    · exact hS.replies gw hgw data hdata
    · exact hsize data (List.mem_append_right _ hdata)
  · rw [hloop]
    exact hS.packet
  · intro u hu
    rw [houtbound] at hu
    rcases List.mem_append.mp hu with hu | hu
    · exact hS.outbound u hu
    · obtain ⟨data, hdata, rfl⟩ := List.mem_map.mp hu
      have hle := hsize data (List.mem_append_left _ hdata)
      exact ⟨hS.sources fw hfwMem, Nat.le_trans hle (by decide)⟩

/-- Only the loop's place changes. -/
theorem State.Sendable.atLoop (hS : s.Sendable) {loop : Loop}
    (hpacket : ∀ packet ∈ loop.packet?, packet.source.Plain) :
    State.Sendable { s with loop := loop } :=
  ⟨hS.sources, hS.replies, hpacket, hS.outbound⟩

theorem State.Sendable.step (hS : s.Sendable)
    (hreceive : ∀ packet ∈ label.received?, packet.source.Plain)
    (h : UdpSessions.step s label = some t) : t.Sendable := by
  rcases step_cases h with hloop | ⟨f, event, fw, rfl, hfw, hevent⟩ |
    ⟨ok, u, outbound, rfl, houtbound, -, rfl⟩
  · cases hloop with
    | received => exact hS.atLoop hreceive
    | channelFailed | unserved | unpushed => exact hS.atLoop fun _ hp => by cases hp
    | missing hloop | present hloop | locked hloop | unconnected hloop | reread hloop =>
        refine hS.atLoop fun p hp => hS.packet p ?_
        rw [hloop]
        exact hp
    | @connected packet hloop =>
        have hpacket : s.loop.packet? = some packet := by rw [hloop]; rfl
        refine ⟨?_, ?_, fun p hp => hS.packet p (hpacket.trans hp), hS.outbound⟩
        · intro fw hfw
          rcases List.mem_append.mp hfw with hfw | hfw
          · exact hS.sources fw hfw
          · rw [List.mem_singleton.mp hfw]
            exact hS.packet packet hpacket
        · intro fw hfw data hdata
          rcases List.mem_append.mp hfw with hfw | hfw
          · exact hS.replies fw hfw data hdata
          · rw [List.mem_singleton.mp hfw] at hdata
            cases hdata
    | @pushed packet f fw hloop hfw hphase =>
        have hfwMem : fw ∈ s.forwarders := List.mem_of_getElem? hfw
        refine ⟨?_, ?_, fun p hp => (by cases hp), hS.outbound⟩
        · intro gw hgw
          rcases List.mem_or_eq_of_mem_set hgw with hgw | rfl
          · exact hS.sources gw hgw
          · exact hS.sources fw hfwMem
        · intro gw hgw data hdata
          rcases List.mem_or_eq_of_mem_set hgw with hgw | rfl
          · exact hS.replies gw hgw data hdata
          · exact hS.replies fw hfwMem data hdata
  · exact hS.forwarder hfw hevent
  · refine ⟨hS.sources, hS.replies, hS.packet, fun v hv => hS.outbound v ?_⟩
    cases ok with
    | true => exact houtbound ▸ List.mem_cons_of_mem u hv
    | false => cases hv

end Sessions

end UdpSessions

end Kdct
