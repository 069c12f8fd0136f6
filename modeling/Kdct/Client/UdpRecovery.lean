/-
When the sessions of a UDP data channel recover.

An entry without a forwarder is one way to lose a peer.  The other is a loop that waits for a
forwarder which waits for the loop: the loop reads the map a second time with the guard of the
first in its hand while a forwarder waits for the lock (`Jammed.reading`), or it sends to a
forwarder that has left its loop with a full queue (`Jammed.sending`).  Nothing gets out of
these states, so all sessions of the channel are lost.
-/
import Kdct.Client.UdpSessions

namespace Kdct.UdpSessions

namespace State

/-- A forwarder of the peer that is out of its loop and has an entry to take out. -/
def Leaving (s : State) (f : Nat) (peer : SocketAddr) : Prop :=
  ∃ fw, s.forwarders[f]? = some fw ∧ fw.source = peer ∧ fw.phase.isOut = true

/-- A forwarder that is out of its loop, with no room in its queue. -/
def Clogged (s : State) (f : Nat) : Prop :=
  ∃ fw, s.forwarders[f]? = some fw ∧ fw.phase.isOut = true ∧ udpSendqSize ≤ fw.inbound.length

def Full (s : State) (f : Nat) : Prop :=
  ∃ fw, s.forwarders[f]? = some fw ∧ udpSendqSize ≤ fw.inbound.length

/-- The forwarder that the loop sends to under the guard it holds. -/
def receiver (s : State) : Option Nat :=
  match s.loop with
  | .pushing _ f => some f
  | .rereading packet true => s.portMap.lookup packet.source
  | _ => none

end State

/-! ## Sessions that recover -/

/-- Every entry has a forwarder that is there; one that is out of its loop can still take it
out; for a peer without a forwarder, a datagram makes the loop create one; and no datagram is
pushed to one that has ended. -/
structure Recovering (s : State) : Prop where
  served : ∀ peer f, s.portMap.lookup peer = some f → s.Live f peer
  removed : ∀ peer f, s.portMap.lookup peer = some f → s.Leaving f peer →
    machine.Can (fun t => t.portMap.lookup peer ≠ some f) s
  renewed : ∀ packet t, s.loop = .lookingUp packet → (∀ f, ¬s.Live f packet.source) →
    step s .lookUp = some t → t.loop = .creating packet
  kept : ∀ packet f, s.loop = .pushing packet f → s.Live f packet.source

/-- No send to a socket fails and no reply is queued behind a writer that has ended; no
forwarder asks for the lock between the two reads of the map; none whose queue is full leaves
its loop while the loop of the channel is about to send to it, and none is found there once it
has left. -/
def Sound (s : State) : Label → Prop
  | .forwarder _ (.sent ok) => ok = true
  | .forwarder _ .queueReply => s.writerRuns = true
  | .forwarder _ .ask => ∀ packet, s.loop ≠ .rereading packet true
  | .forwarder f .recvFails | .forwarder f .timeout => s.receiver = some f → ¬s.Full f
  | .lookUp => ∀ packet f, s.loop = .lookingUp packet →
      s.portMap.lookup packet.source = some f → ¬s.Clogged f
  | _ => True

/-- The loop holds a guard and waits for a forwarder that waits for the guard. -/
inductive Jammed (s : State) : Prop
  | reading {packet} {f : Nat} {fw : Forwarder} (hloop : s.loop = .rereading packet true)
      (hfw : s.forwarders[f]? = some fw) (hphase : fw.phase = .locking)
  | sending {f} (hreceiver : s.receiver = some f) (hclogged : s.Clogged f)

structure Inv (s : State) : Prop where
  entry : ∀ peer f, s.portMap.lookup peer = some f ↔ s.Live f peer
  absent : ∀ packet, s.loop = .creating packet ∨ s.loop = .connecting packet →
    s.portMap.lookup packet.source = none
  pushing : ∀ packet f, s.loop = .pushing packet f → s.portMap.lookup packet.source = some f
  /-- Nothing has been sent to a forwarder that the loop has just created. -/
  fresh : ∀ packet f fw, s.loop = .rereading packet false →
    s.portMap.lookup packet.source = some f → s.forwarders[f]? = some fw → fw.inbound = []

variable {s t : State} {f g : Nat} {fw fw' : Forwarder} {peer : SocketAddr} {label : Label}

/-! ## Entries and forwarders -/

theorem inv_update (hI : Inv s) (hfw : s.forwarders[f]? = some fw) (hphase : fw.phase ≠ .ended)
    (hsource : fw'.source = fw.source) (hphase' : fw'.phase ≠ .ended)
    (hfresh : ∀ packet, s.loop = .rereading packet false → fw.inbound = [] → fw'.inbound = []) :
    Inv (s.update f fw') where
  entry := fun peer g =>
    (hI.entry peer g).trans (live_update_of_kept hfw hphase hsource hphase').symm
  absent := hI.absent
  pushing := hI.pushing
  fresh := by
    intro packet g gw hloop hentry hgw
    rw [getElem?_update] at hgw
    split at hgw
    · rename_i hfg
      obtain ⟨rfl, -⟩ := hfg
      rw [← Option.some.inj hgw]
      exact hfresh packet hloop (hI.fresh packet f fw hloop hentry hfw)
    · exact hI.fresh packet g gw hloop hentry hgw

/-- A forwarder that takes its entry out takes out no other. -/
theorem inv_remove (hI : Inv s) (hfw : s.forwarders[f]? = some fw) (hphase : fw.phase ≠ .ended)
    (hguard : s.loop.holdsGuard = false) :
    Inv { s.update f { fw with phase := .ended } with
      portMap := s.portMap.erase fw.source } where
  entry := by
    intro peer g
    have hlive : (s.update f { fw with phase := .ended }).Live g peer ↔ g ≠ f ∧ s.Live g peer :=
      live_update_of_ended hfw rfl
    refine HashMap.lookup_erase_eq_some.trans (Iff.trans ?_ hlive.symm)
    rw [hI.entry]
    constructor
    · rintro ⟨hpeer, hg⟩
      refine ⟨?_, hg⟩
      rintro rfl
      exact hpeer ((live_iff_of_getElem? hfw hphase).mp hg).symm
    · rintro ⟨hne, hg⟩
      refine ⟨?_, hg⟩
      rintro rfl
      have hown := (hI.entry fw.source f).mpr ((live_iff_of_getElem? hfw hphase).mpr rfl)
      have hother := (hI.entry fw.source g).mpr hg
      exact hne (Option.some.inj (hother.symm.trans hown))
  absent := by
    intro packet hloop
    show (s.portMap.erase fw.source).lookup packet.source = none
    rw [HashMap.lookup_erase_eq, hI.absent packet hloop]
    exact ite_self none
  pushing := by
    intro packet g hloop
    have hheld : s.loop.holdsGuard = true := by
      rw [show s.loop = .pushing packet g from hloop]
      rfl
    rw [hguard] at hheld
    cases hheld
  fresh := by
    intro packet g gw hloop hentry hgw
    have hg := (HashMap.lookup_erase_eq_some.mp hentry).2
    change (s.update f { fw with phase := .ended }).forwarders[g]? = some gw at hgw
    rw [getElem?_update] at hgw
    split at hgw
    · rename_i hfg
      obtain ⟨rfl, -⟩ := hfg
      rw [← Option.some.inj hgw]
      exact hI.fresh packet f fw hloop hg hfw
    · exact hI.fresh packet g gw hloop hg hgw

/-- The loop's place matters where it knows what the map holds. -/
theorem inv_loop (hI : Inv s) {loop : Loop}
    (habsent : ∀ packet, loop = .creating packet ∨ loop = .connecting packet →
      s.portMap.lookup packet.source = none)
    (hpushing : ∀ packet f, loop = .pushing packet f →
      s.portMap.lookup packet.source = some f)
    (hfresh : ∀ packet f fw, loop = .rereading packet false →
      s.portMap.lookup packet.source = some f → s.forwarders[f]? = some fw → fw.inbound = []) :
    Inv { s with loop := loop } where
  entry := hI.entry
  absent := habsent
  pushing := hpushing
  fresh := hfresh

/-- A new entry goes to a peer that had none. -/
theorem inv_insert (hI : Inv s) {packet : UdpTraffic}
    (hnone : s.portMap.lookup packet.source = none) :
    Inv { s with
      portMap := s.portMap.insert packet.source s.forwarders.length
      forwarders := s.forwarders ++ [⟨packet.source, .running, []⟩]
      loop := .rereading packet false } where
  entry := by
    intro peer g
    rw [live_append_iff (s := s) rfl, ← hI.entry]
    show (s.portMap.insert packet.source s.forwarders.length).lookup peer = some g ↔ _
    rw [HashMap.lookup_insert_eq]
    split
    · rename_i heq
      subst heq
      rw [hnone]
      simp only [Option.some.injEq, reduceCtorEq, false_or, and_true]
      exact eq_comm
    · rename_i hne
      exact (or_iff_left fun h => hne h.2).symm
  absent := nofun
  pushing := nofun
  fresh := by
    intro packet' g gw hloop hentry hgw
    obtain ⟨rfl, -⟩ := Loop.rereading.inj hloop
    change (s.portMap.insert packet.source s.forwarders.length).lookup packet.source = _ at hentry
    rw [HashMap.lookup_insert_eq, if_pos rfl] at hentry
    obtain rfl := Option.some.inj hentry
    change (s.forwarders ++ [_])[s.forwarders.length]? = _ at hgw
    rw [List.getElem?_concat_length] at hgw
    rw [← Option.some.inj hgw]

theorem inv_loopStep (hI : Inv s) (h : LoopStep s label t) : Inv t := by
  cases h with
  | received | channelFailed | present | unserved | unpushed =>
      exact inv_loop hI nofun nofun nofun
  | missing _ hnone =>
      refine inv_loop hI ?_ nofun nofun
      rintro packet' (hnext | hnext)
      · rwa [← Loop.creating.inj hnext]
      · cases hnext
  | locked hloop =>
      refine inv_loop hI ?_ nofun nofun
      rintro packet' (hnext | hnext)
      · cases hnext
      · rw [← Loop.connecting.inj hnext]
        exact hI.absent _ (.inl hloop)
  | @unconnected packet hloop =>
      refine inv_loop hI nofun nofun ?_
      intro packet' f fw hnext hentry
      obtain ⟨rfl, -⟩ := Loop.rereading.inj hnext
      rw [hI.absent packet (.inr hloop)] at hentry
      cases hentry
  | connected hloop => exact inv_insert hI (hI.absent _ (.inr hloop))
  | reread _ _ hsome =>
      refine inv_loop hI nofun ?_ nofun
      intro packet' f' hnext
      obtain ⟨rfl, rfl⟩ := Loop.pushing.inj hnext
      exact hsome
  | @pushed packet f fw hloop hfw hphase =>
      have hkept : Inv (s.update f { fw with inbound := fw.inbound ++ [packet.data] }) := by
        refine inv_update hI hfw hphase rfl hphase fun packet' hnext => ?_
        rw [hloop] at hnext
        cases hnext
      exact inv_loop hkept nofun nofun nofun

/-- A forwarder that ends on its way leaves its entry behind. -/
theorem inv_forwarderStep {event : Event} (hI : Inv s) (hfw : s.forwarders[f]? = some fw)
    (hsound : Sound s (.forwarder f event)) (h : ForwarderStep s f fw event t) : Inv t := by
  rcases h.outcome with ⟨fw', outbound, hsource, hphase', hnil, rfl⟩ | ⟨hguard, rfl⟩ |
    ⟨rfl | ⟨rfl, hended⟩, -⟩
  · have hkept := inv_update hI hfw h.phase_ne_ended hsource hphase' fun _ _ => hnil
    exact ⟨hkept.entry, hkept.absent, hkept.pushing, hkept.fresh⟩
  · exact inv_remove hI hfw h.phase_ne_ended hguard
  · exact absurd hsound Bool.false_ne_true
  · have hruns : s.writerRuns = true := hsound
    rw [hended] at hruns
    cases hruns

theorem inv_step (hI : Inv s) (hsound : Sound s label) (h : step s label = some t) : Inv t := by
  rcases step_cases h with hloop | ⟨f, event, fw, rfl, hfw, hevent⟩ | ⟨_, _, _, rfl, _, _, rfl⟩
  · exact inv_loopStep hI hloop
  · exact inv_forwarderStep hI hfw hsound hevent
  · exact ⟨hI.entry, hI.absent, hI.pushing, hI.fresh⟩

theorem inv_init : Inv State.init where
  entry := by
    intro peer f
    refine iff_of_false nofun ?_
    rintro ⟨fw, hfw, -⟩
    cases hfw
  absent := nofun
  pushing := nofun
  fresh := nofun

/-! ## A jammed loop -/

theorem not_writeAwaited (hfree : s.writeAwaited = false) (hfw : s.forwarders[f]? = some fw) :
    fw.phase ≠ .locking := by
  intro hphase
  have hnone := List.any_eq_false.mp hfree fw (List.mem_of_getElem? hfw)
  exact hnone (decide_eq_true hphase)

theorem getElem?_update_of_ne (hne : f ≠ g) (fw : Forwarder) :
    (s.update f fw).forwarders[g]? = s.forwarders[g]? := by
  rw [getElem?_update, if_neg fun h => hne h.1]

theorem getElem?_update_self (hfw : s.forwarders[f]? = some fw) (fw' : Forwarder) :
    (s.update f fw').forwarders[f]? = some fw' := by
  rw [getElem?_update, if_pos ⟨rfl, (List.getElem?_eq_some_iff.mp hfw).1⟩]

theorem holdsGuard_of_receiver (h : s.receiver = some f) : s.loop.holdsGuard = true := by
  unfold State.receiver at h
  split at h
  · rename_i hloop
    rw [hloop]
    rfl
  · rename_i hloop
    rw [hloop]
    rfl
  · cases h

/-- An event leaves the other forwarders alone. -/
theorem ForwarderStep.other {event : Event} (h : ForwarderStep s f fw event t) (hne : f ≠ g) :
    t.forwarders[g]? = s.forwarders[g]? := by
  rcases h.outcome with ⟨_, _, _, _, _, rfl⟩ | ⟨_, rfl⟩ | ⟨_, rfl⟩
  · exact getElem?_update_of_ne hne _
  · exact getElem?_update_of_ne hne _
  · exact getElem?_update_of_ne hne _

/-- A forwarder that is out of its loop asks for the lock, and takes its entry out once it
has it. -/
theorem ForwarderStep.of_isOut {event : Event} (h : ForwarderStep s f fw event t)
    (hout : fw.phase.isOut = true) :
    (t = s.update f { fw with phase := .locking } ∧ fw.phase = .leaving) ∨
      (event = .remove ∧ s.loop.holdsGuard = false) := by
  cases h with
  | taken hphase | sent hphase | unsent hphase | closed hphase | answered hphase
  | left hphase | queued hphase | unqueued hphase =>
      rw [hphase] at hout
      cases hout
  | asked hphase => exact .inl ⟨rfl, hphase⟩
  | removed _ hguard => exact .inr ⟨rfl, hguard⟩

/-- While the loop holds a guard, nobody changes the map. -/
theorem ForwarderStep.portMap {event : Event} (h : ForwarderStep s f fw event t)
    (hguard : s.loop.holdsGuard = true) : t.portMap = s.portMap ∧ t.loop = s.loop := by
  rcases h.outcome with ⟨_, _, _, _, _, rfl⟩ | ⟨hfree, _⟩ | ⟨_, rfl⟩
  · exact ⟨rfl, rfl⟩
  · rw [hguard] at hfree
    cases hfree
  · exact ⟨rfl, rfl⟩

theorem receiver_congr (hmap : t.portMap = s.portMap) (hloop : t.loop = s.loop) :
    t.receiver = s.receiver := by
  unfold State.receiver
  rw [hmap, hloop]

/-- A forwarder with a full queue that is out of its loop stays so under the loop's guard. -/
theorem ForwarderStep.clogged {event : Event} (h : ForwarderStep s f fw event t)
    (hfw : s.forwarders[f]? = some fw) (hguard : s.loop.holdsGuard = true)
    (hclogged : s.Clogged g) : t.Clogged g := by
  obtain ⟨gw, hgw, hout, hfull⟩ := hclogged
  by_cases hfg : f = g
  · subst hfg
    rw [hfw] at hgw
    obtain rfl := Option.some.inj hgw
    rcases h.of_isOut hout with ⟨rfl, -⟩ | ⟨-, hfree⟩
    · exact ⟨_, getElem?_update_self hfw _, rfl, hfull⟩
    · rw [hguard] at hfree
      cases hfree
  · exact ⟨gw, (h.other hfg).trans hgw, hout, hfull⟩

theorem jammed_loopStep (hJ : Jammed s) (h : LoopStep s label t) :
    Jammed t ∧ t.portMap = s.portMap := by
  cases hJ with
  | reading hloop hfw hphase =>
      cases h with
      | reread _ hfree | unserved _ hfree => exact absurd hphase (not_writeAwaited hfree hfw)
      | received hloop' | channelFailed hloop' | missing hloop' | present hloop' | locked hloop'
      | unconnected hloop' | connected hloop' | unpushed hloop' | pushed hloop' =>
          rw [hloop] at hloop'
          cases hloop'
  | sending hreceiver hclogged =>
      have hguard := holdsGuard_of_receiver hreceiver
      unfold State.receiver at hreceiver
      cases h with
      | received hloop | channelFailed hloop | missing hloop | present hloop | locked hloop =>
          rw [hloop] at hguard
          cases hguard
      | unconnected hloop | connected hloop =>
          rw [hloop] at hreceiver
          cases hreceiver
      | @reread packet guard f hloop _ hsome =>
          rw [hloop] at hguard hreceiver
          obtain rfl : guard = true := hguard
          obtain rfl := Option.some.inj (hsome.symm.trans hreceiver)
          exact ⟨.sending (f := f) rfl hclogged, rfl⟩
      | @unserved packet guard hloop _ hnone =>
          rw [hloop] at hguard hreceiver
          obtain rfl : guard = true := hguard
          cases hnone.symm.trans hreceiver
      | unpushed hloop hfw hphase =>
          rw [hloop] at hreceiver
          obtain rfl := Option.some.inj hreceiver
          obtain ⟨gw, hgw, hout, -⟩ := hclogged
          rw [hfw] at hgw
          rw [← Option.some.inj hgw, hphase] at hout
          cases hout
      | pushed hloop hfw _ hroom =>
          rw [hloop] at hreceiver
          obtain rfl := Option.some.inj hreceiver
          obtain ⟨gw, hgw, -, hfull⟩ := hclogged
          rw [hfw] at hgw
          rw [← Option.some.inj hgw] at hfull
          exact absurd hroom (Nat.not_lt.mpr hfull)

theorem jammed_forwarderStep {event : Event} (hJ : Jammed s) (hfw : s.forwarders[f]? = some fw)
    (h : ForwarderStep s f fw event t) : Jammed t ∧ t.portMap = s.portMap := by
  cases hJ with
  | @reading packet g gw hloop hgw hphase =>
      have hguard : s.loop.holdsGuard = true := by
        rw [hloop]
        rfl
      obtain ⟨hmap, hloop'⟩ := h.portMap hguard
      by_cases hfg : f = g
      · subst hfg
        rw [hfw] at hgw
        obtain rfl := Option.some.inj hgw
        rcases h.of_isOut (by rw [hphase]; rfl) with ⟨-, hleaving⟩ | ⟨-, hfree⟩
        · rw [hphase] at hleaving
          cases hleaving
        · rw [hguard] at hfree
          cases hfree
      · exact ⟨.reading (hloop'.trans hloop) ((h.other hfg).trans hgw) hphase, hmap⟩
  | sending hreceiver hclogged =>
      have hguard := holdsGuard_of_receiver hreceiver
      obtain ⟨hmap, hloop⟩ := h.portMap hguard
      exact ⟨.sending ((receiver_congr hmap hloop).trans hreceiver) (h.clogged hfw hguard hclogged),
        hmap⟩

/-- A jammed loop stays jammed, and all entries stay where they are. -/
theorem jammed_step (hJ : Jammed s) (h : step s label = some t) :
    Jammed t ∧ t.portMap = s.portMap := by
  rcases step_cases h with hloop | ⟨f, event, fw, rfl, hfw, hevent⟩ | ⟨_, _, _, rfl, _, _, rfl⟩
  · exact jammed_loopStep hJ hloop
  · exact jammed_forwarderStep hJ hfw hevent
  · refine ⟨?_, rfl⟩
    cases hJ with
    | reading hloop hfw hphase => exact .reading hloop hfw hphase
    | sending hreceiver hclogged => exact .sending hreceiver hclogged

/-- A forwarder that has left does not get rid of its entry while the loop is jammed. -/
theorem not_recovering_of_jammed (hJ : Jammed s) (hentry : s.portMap.lookup peer = some f)
    (hleaving : s.Leaving f peer) : ¬Recovering s := by
  intro hrec
  have hkeeps : ∀ u label v, Jammed u ∧ u.portMap = s.portMap → step u label = some v →
      Jammed v ∧ v.portMap = s.portMap := by
    rintro u label v ⟨hu, hmap⟩ h
    obtain ⟨hv, hmap'⟩ := jammed_step hu h
    exact ⟨hv, hmap'.trans hmap⟩
  refine Machine.not_can_of_closed (M := machine) hkeeps ?_ ⟨hJ, rfl⟩
    (hrec.removed peer f hentry hleaving)
  rintro u ⟨-, hmap⟩ hgone
  rw [hmap] at hgone
  exact hgone hentry

/-! ## What jams the loop -/

/-- An event that clogs its forwarder is the end of its loop, with a full queue. -/
theorem ForwarderStep.of_clogged {event : Event} (h : ForwarderStep s f fw event t)
    (hfw : s.forwarders[f]? = some fw) (hclogged : t.Clogged f) :
    s.Clogged f ∨ (event = .recvFails ∨ event = .timeout) ∧ s.Full f := by
  obtain ⟨fw', hfw', hout, hfull⟩ := hclogged
  cases h with
  | closed hphase hin =>
      rw [getElem?_update_self hfw] at hfw'
      rw [← Option.some.inj hfw', hin] at hfull
      exact absurd hfull (by decide)
  | left hphase hevent =>
      rw [getElem?_update_self hfw] at hfw'
      rw [← Option.some.inj hfw'] at hfull
      exact .inr ⟨hevent, fw, hfw, hfull⟩
  | asked hphase =>
      rw [getElem?_update_self hfw] at hfw'
      rw [← Option.some.inj hfw'] at hfull
      exact .inl ⟨fw, hfw, by rw [hphase]; rfl, hfull⟩
  | taken | sent | unsent | answered | unqueued =>
      rw [getElem?_update_self hfw] at hfw'
      rw [← Option.some.inj hfw'] at hout
      cases hout
  | queued | removed =>
      have hupdate := (getElem?_update_self hfw _).symm.trans hfw'
      rw [← Option.some.inj hupdate] at hout
      cases hout

/-- Nobody but one who asks comes to wait for the lock. -/
theorem ForwarderStep.locking {event : Event} (h : ForwarderStep s f fw event t)
    (hfw : s.forwarders[f]? = some fw) (hfw' : t.forwarders[f]? = some fw')
    (hphase : fw'.phase = .locking) : event = .ask := by
  cases h with
  | asked => rfl
  | taken | sent | unsent | closed | answered | left | unqueued =>
      rw [getElem?_update_self hfw] at hfw'
      rw [← Option.some.inj hfw'] at hphase
      cases hphase
  | queued | removed =>
      have hupdate := (getElem?_update_self hfw _).symm.trans hfw'
      rw [← Option.some.inj hupdate] at hphase
      cases hphase

theorem not_jammed_loopStep (hI : Inv s) (hfree : ¬Jammed s) (hsound : Sound s label)
    (h : LoopStep s label t) : ¬Jammed t := by
  intro hJ
  cases h with
  | received | channelFailed | missing | locked | unconnected | connected | unserved
  | unpushed | pushed =>
      cases hJ with
      | reading hloop => cases hloop
      | sending hreceiver => cases hreceiver
  | @present packet f hloop hunlocked hsome =>
      cases hJ with
      | reading _ hfw hphase => exact not_writeAwaited hunlocked hfw hphase
      | sending hreceiver hclogged =>
          obtain rfl := Option.some.inj (hsome.symm.trans hreceiver)
          exact hsound packet f hloop hsome hclogged
  | @reread packet guard f hloop _ hsome =>
      cases hJ with
      | reading hloop' => cases hloop'
      | sending hreceiver hclogged =>
          obtain rfl := Option.some.inj hreceiver
          cases guard with
          | true =>
              refine hfree (.sending (f := f) ?_ hclogged)
              unfold State.receiver
              rw [hloop]
              exact hsome
          | false =>
              obtain ⟨fw, hfw, -, hfull⟩ := hclogged
              rw [hI.fresh packet f fw hloop hsome hfw] at hfull
              exact absurd hfull (by decide)

theorem not_jammed_forwarderStep {event : Event} (hfree : ¬Jammed s)
    (hsound : Sound s (.forwarder f event)) (hfw : s.forwarders[f]? = some fw)
    (h : ForwarderStep s f fw event t) : ¬Jammed t := by
  intro hJ
  have hguard : t.loop.holdsGuard = true := by
    cases hJ with
    | reading hloop =>
        rw [hloop]
        rfl
    | sending hreceiver => exact holdsGuard_of_receiver hreceiver
  have hloopEq : t.loop = s.loop := by
    rcases h.outcome with ⟨_, _, _, _, _, rfl⟩ | ⟨_, rfl⟩ | ⟨_, rfl⟩ <;> rfl
  obtain ⟨hmap, -⟩ := h.portMap (hloopEq ▸ hguard)
  cases hJ with
  | @reading packet g gw hloop hgw hphase =>
      rw [hloopEq] at hloop
      by_cases hfg : f = g
      · subst hfg
        obtain rfl := h.locking hfw hgw hphase
        exact hsound packet hloop
      · exact hfree (.reading hloop ((h.other hfg).symm.trans hgw) hphase)
  | @sending g hreceiver hclogged =>
      rw [receiver_congr hmap hloopEq] at hreceiver
      by_cases hfg : f = g
      · subst hfg
        rcases h.of_clogged hfw hclogged with hold | ⟨rfl | rfl, hfull⟩
        · exact hfree (.sending hreceiver hold)
        · exact hsound hreceiver hfull
        · exact hsound hreceiver hfull
      · obtain ⟨gw, hgw, hout, hfull⟩ := hclogged
        exact hfree (.sending hreceiver ⟨gw, (h.other hfg).symm.trans hgw, hout, hfull⟩)

theorem not_jammed_step (hI : Inv s) (hfree : ¬Jammed s) (hsound : Sound s label)
    (h : step s label = some t) : ¬Jammed t := by
  rcases step_cases h with hloop | ⟨f, event, fw, rfl, hfw, hevent⟩ | ⟨_, _, _, rfl, _, _, rfl⟩
  · exact not_jammed_loopStep hI hfree hsound hloop
  · exact not_jammed_forwarderStep hfree hsound hfw hevent
  · intro hJ
    cases hJ with
    | reading hloop hfw hphase => exact hfree (.reading hloop hfw hphase)
    | sending hreceiver hclogged => exact hfree (.sending hreceiver hclogged)

/-! ## Entries that are taken out -/

/-- Some run from here takes the forwarder's entry out. -/
abbrev State.CanRemove (s : State) (f : Nat) (peer : SocketAddr) : Prop :=
  machine.Can (fun t => t.portMap.lookup peer ≠ some f) s

theorem canRemove_of_step (h : step s label = some t) (ht : t.CanRemove f peer) :
    s.CanRemove f peer :=
  Machine.can_of_step (M := machine) h ht

/-- A forwarder that has left its loop is there until it takes its entry out. -/
theorem leaving_step (hleaving : s.Leaving f peer) (h : step s label = some t)
    (hlabel : label ≠ .forwarder f .remove) : t.Leaving f peer := by
  obtain ⟨fw, hfw, hsource, hout⟩ := hleaving
  rcases step_cases h with hloop | ⟨g, event, gw, rfl, hgw, hevent⟩ | ⟨_, _, _, rfl, _, _, rfl⟩
  · cases hloop with
    | connected =>
        have hlt := (List.getElem?_eq_some_iff.mp hfw).1
        exact ⟨fw, (List.getElem?_append_left hlt).trans hfw, hsource, hout⟩
    | @pushed packet g gw _ hgw =>
        by_cases hgf : g = f
        · subst hgf
          rw [hgw] at hfw
          obtain rfl := Option.some.inj hfw
          exact ⟨_, getElem?_update_self hgw _, hsource, hout⟩
        · exact ⟨fw, (getElem?_update_of_ne hgf _).trans hfw, hsource, hout⟩
    | _ => exact ⟨fw, hfw, hsource, hout⟩
  · by_cases hgf : g = f
    · subst hgf
      rw [hgw] at hfw
      obtain rfl := Option.some.inj hfw
      rcases hevent.of_isOut hout with ⟨rfl, -⟩ | ⟨rfl, -⟩
      · exact ⟨_, getElem?_update_self hgw _, hsource, rfl⟩
      · exact absurd rfl hlabel
    · exact ⟨fw, (hevent.other hgf).trans hfw, hsource, hout⟩
  · exact ⟨fw, hfw, hsource, hout⟩

theorem step_forwarder (hfw : s.forwarders[f]? = some fw) (event : Event) :
    step s (.forwarder f event) = stepForwarder s f fw event := by
  show (s.forwarders[f]?).bind _ = _
  rw [hfw]
  rfl

theorem canRemove_of_locking (hfw : s.forwarders[f]? = some fw) (hsource : fw.source = peer)
    (hphase : fw.phase = .locking) (hguard : s.loop.holdsGuard = false) : s.CanRemove f peer := by
  have hstep : step s (.forwarder f .remove) =
      some { s.update f { fw with phase := .ended } with
        portMap := s.portMap.erase fw.source } := by
    rw [step_forwarder hfw]
    exact if_pos ⟨hphase, by rw [hguard]; nofun⟩
  refine canRemove_of_step hstep (Machine.can_of_self fun hentry => ?_)
  exact (HashMap.lookup_erase_eq_some.mp hentry).1 hsource.symm

/-- Without a guard in the loop's hand, a forwarder asks for the lock and gets it. -/
theorem canRemove_of_unguarded (hleaving : s.Leaving f peer)
    (hguard : s.loop.holdsGuard = false) : s.CanRemove f peer := by
  obtain ⟨fw, hfw, hsource, hout⟩ := hleaving
  cases hphase : fw.phase with
  | locking => exact canRemove_of_locking hfw hsource hphase hguard
  | leaving =>
      have hstep : step s (.forwarder f .ask) =
          some (s.update f { fw with phase := .locking }) := by
        rw [step_forwarder hfw]
        exact if_pos hphase
      refine canRemove_of_step hstep ?_
      exact canRemove_of_locking (getElem?_update_self hfw _) hsource rfl hguard
  | running | sending | replying | ended =>
      rw [hphase] at hout
      cases hout

/-- The loop gives its guards back when it gets its datagram off its hands. -/
theorem canRemove_of_push {packet : UdpTraffic} (hloop : s.loop = .pushing packet g)
    (hgw : s.forwarders[g]? = some fw)
    (hready : fw.phase = .ended ∨ fw.inbound.length < udpSendqSize)
    (hleaving : s.Leaving f peer) : s.CanRemove f peer := by
  obtain ⟨t, hstep, ht⟩ : ∃ t, step s .push = some t ∧ t.loop = .reading := by
    by_cases hended : fw.phase = .ended
    · refine ⟨{ s with loop := .reading }, ?_, rfl⟩
      simp only [step, push, hloop, hgw, if_pos hended]
    · have hroom := hready.resolve_left hended
      refine ⟨{ s.update g { fw with inbound := fw.inbound ++ [packet.data] } with
        loop := .reading }, ?_, rfl⟩
      simp only [step, push, hloop, hgw, if_neg hended, if_pos hroom]
  refine canRemove_of_step hstep ?_
  refine canRemove_of_unguarded (leaving_step hleaving hstep (by simp)) ?_
  rw [ht]
  rfl

/-- A forwarder that runs makes room in its queue. -/
theorem canRemove_of_running {packet : UdpTraffic} (hloop : s.loop = .pushing packet g)
    (hgw : s.forwarders[g]? = some fw) (hphase : fw.phase = .running)
    (hleaving : s.Leaving f peer) : s.CanRemove f peer := by
  obtain ⟨source, phase, inbound⟩ := fw
  obtain rfl : phase = .running := hphase
  induction inbound generalizing s with
  | nil => exact canRemove_of_push hloop hgw (.inr (show 0 < udpSendqSize by decide)) hleaving
  | cons data inbound ih =>
      have htake : step s (.forwarder g .take) =
          some (s.update g ⟨source, .sending data, inbound⟩) := by
        rw [step_forwarder hgw]
        rfl
      have htaken := getElem?_update_self hgw ⟨source, .sending data, inbound⟩
      have hsent := (step_forwarder htaken (.sent true)).trans rfl
      refine canRemove_of_step htake (canRemove_of_step hsent ?_)
      have hleaving' := leaving_step (leaving_step hleaving htake (by simp)) hsent (by simp)
      exact ih hloop hleaving' (getElem?_update_self htaken _)

theorem canRemove_of_sending {packet : UdpTraffic} {data : Bytes}
    (hloop : s.loop = .pushing packet g) (hgw : s.forwarders[g]? = some fw)
    (hphase : fw.phase = .sending data) (hleaving : s.Leaving f peer) : s.CanRemove f peer := by
  have hsent : step s (.forwarder g (.sent true)) =
      some (s.update g { fw with phase := .running }) := by
    rw [step_forwarder hgw]
    simp only [stepForwarder, hphase, if_true]
  refine canRemove_of_step hsent ?_
  exact canRemove_of_running hloop (getElem?_update_self hgw _) rfl
    (leaving_step hleaving hsent (by simp))

/-- A forwarder with a reply waits for the writer, or ends if there is none. -/
theorem canRemove_of_replying {packet : UdpTraffic} {data : Bytes}
    (hloop : s.loop = .pushing packet g) (hgw : s.forwarders[g]? = some fw)
    (hphase : fw.phase = .replying data) (hleaving : s.Leaving f peer) : s.CanRemove f peer := by
  by_cases hruns : s.writerRuns = true
  · induction houtbound : s.outbound generalizing s with
    | nil =>
        have hqueue : step s (.forwarder g .queueReply) =
            some { s.update g { fw with phase := .running } with
              outbound := s.outbound ++ [⟨fw.source, data⟩] } := by
          rw [step_forwarder hgw]
          simp [stepForwarder, hphase, hruns, houtbound, udpSendqSize]
        refine canRemove_of_step hqueue ?_
        exact canRemove_of_running hloop (getElem?_update_self hgw _) rfl
          (leaving_step hleaving hqueue (by simp))
    | cons u outbound ih =>
        have hwrite : step s (.writeOut true) = some { s with outbound := outbound } := by
          simp only [step, writeOut, hruns, houtbound, if_true]
        refine canRemove_of_step hwrite ?_
        exact ih hloop hgw (leaving_step hleaving hwrite (by simp)) hruns rfl
  · have hqueue : step s (.forwarder g .queueReply) =
        some (s.update g { fw with phase := .ended }) := by
      rw [step_forwarder hgw]
      simp [stepForwarder, hphase, hruns]
    refine canRemove_of_step hqueue ?_
    exact canRemove_of_push hloop (getElem?_update_self hgw _) (.inl rfl)
      (leaving_step hleaving hqueue (by simp))

theorem canRemove_of_pushing {packet : UdpTraffic} (hI : Inv s) (hclogged : ¬s.Clogged g)
    (hloop : s.loop = .pushing packet g) (hleaving : s.Leaving f peer) : s.CanRemove f peer := by
  obtain ⟨fw, hgw, -, -⟩ := (hI.entry packet.source g).mp (hI.pushing packet g hloop)
  by_cases hroom : fw.inbound.length < udpSendqSize
  · exact canRemove_of_push hloop hgw (.inr hroom) hleaving
  · have hfull := Nat.not_lt.mp hroom
    cases hphase : fw.phase with
    | running => exact canRemove_of_running hloop hgw hphase hleaving
    | sending => exact canRemove_of_sending hloop hgw hphase hleaving
    | replying => exact canRemove_of_replying hloop hgw hphase hleaving
    | leaving | locking => exact absurd ⟨fw, hgw, by rw [hphase]; rfl, hfull⟩ hclogged
    | ended => exact canRemove_of_push hloop hgw (.inl hphase) hleaving

/-- A loop that reads the map again gets its guard, as nobody waits for the lock. -/
theorem canRemove_of_rereading {packet : UdpTraffic} (hI : Inv s) (hfree : ¬Jammed s)
    (hloop : s.loop = .rereading packet true) (hleaving : s.Leaving f peer) :
    s.CanRemove f peer := by
  have hunlocked : s.writeAwaited = false := by
    refine List.any_eq_false.mpr fun fw hfw hphase => hfree ?_
    obtain ⟨g, hg⟩ := List.getElem?_of_mem hfw
    exact .reading hloop hg (of_decide_eq_true hphase)
  cases hentry : s.portMap.lookup packet.source with
  | none =>
      have hreread : step s .reread = some { s with loop := .reading } := by
        simp only [step, reread, hloop, hunlocked, hentry, Bool.false_eq_true, if_false]
      refine canRemove_of_step hreread ?_
      exact canRemove_of_unguarded (leaving_step hleaving hreread (by simp)) rfl
  | some g =>
      have hreread : step s .reread = some { s with loop := .pushing packet g } := by
        simp only [step, reread, hloop, hunlocked, hentry, Bool.false_eq_true, if_false]
      have hclogged : ¬s.Clogged g := by
        refine fun h => hfree (.sending ?_ h)
        unfold State.receiver
        rw [hloop]
        exact hentry
      have hI' := inv_step hI (show Sound s .reread from trivial) hreread
      refine canRemove_of_step hreread ?_
      exact canRemove_of_pushing hI' hclogged rfl (leaving_step hleaving hreread (by simp))

/-- Unless the loop is jammed, a forwarder that has left can take its entry out. -/
theorem canRemove_of_leaving (hI : Inv s) (hfree : ¬Jammed s) (hleaving : s.Leaving f peer) :
    s.CanRemove f peer := by
  cases hloop : s.loop with
  | reading | lookingUp | creating | ended =>
      exact canRemove_of_unguarded hleaving (by rw [hloop]; rfl)
  | connecting packet =>
      have hconnect : step s (.connect false) =
          some { s with loop := .rereading packet false } := by
        simp only [step, connect, hloop, Bool.false_eq_true, if_false]
      refine canRemove_of_step hconnect ?_
      exact canRemove_of_unguarded (leaving_step hleaving hconnect (by simp)) rfl
  | rereading packet guard =>
      cases guard with
      | false => exact canRemove_of_unguarded hleaving (by rw [hloop]; rfl)
      | true => exact canRemove_of_rereading hI hfree hloop hleaving
  | pushing packet g =>
      refine canRemove_of_pushing hI (fun h => hfree (.sending ?_ h)) hloop hleaving
      unfold State.receiver
      rw [hloop]

/-! ## All runs -/

theorem recovering_of_inv (hI : Inv s) (hfree : ¬Jammed s) : Recovering s where
  served := fun peer f => (hI.entry peer f).mp
  removed := fun _ _ _ hleaving => canRemove_of_leaving hI hfree hleaving
  renewed := by
    intro packet t hloop hnone h
    rcases step_cases h with hstep | ⟨_, _, _, hlabel, _⟩ | ⟨_, _, _, hlabel, _⟩
    · cases hstep with
      | missing hloop' =>
          rw [hloop] at hloop'
          rw [Loop.lookingUp.inj hloop']
      | @present packet' f hloop' _ hsome =>
          rw [hloop] at hloop'
          obtain rfl := Loop.lookingUp.inj hloop'
          exact absurd ((hI.entry _ f).mp hsome) (hnone f)
    · cases hlabel
    · cases hlabel
  kept := fun packet f hloop => (hI.entry packet.source f).mp (hI.pushing packet f hloop)

/-- A forwarder that comes to be out of its loop has its entry. -/
theorem not_recovering_of_left (hI : Inv s) (hfw : s.forwarders[f]? = some fw)
    (hphase : fw.phase ≠ .ended) {phase : Phase} (hout : phase.isOut = true)
    (hJ : Jammed (s.update f { fw with phase := phase })) :
    ¬Recovering (s.update f { fw with phase := phase }) := by
  have hentry := (hI.entry fw.source f).mpr ((live_iff_of_getElem? hfw hphase).mpr rfl)
  exact not_recovering_of_jammed hJ hentry ⟨_, getElem?_update_self hfw _, rfl, hout⟩

/-- An event that is not sound leaves an entry that nobody takes out. -/
theorem sound_of_recovering_forwarder {event : Event} (hI : Inv s)
    (hfw : s.forwarders[f]? = some fw) (h : ForwarderStep s f fw event t) (ht : Recovering t) :
    Sound s (.forwarder f event) := by
  have hphase := h.phase_ne_ended
  have hstranded : t ≠ s.update f { fw with phase := .ended } := by
    rintro rfl
    have hentry := (hI.entry fw.source f).mpr ((live_iff_of_getElem? hfw hphase).mpr rfl)
    have hlive := ht.served fw.source f hentry
    exact ((live_update_of_ended hfw rfl).mp hlive).1 rfl
  cases h with
  | taken | closed | answered | removed => trivial
  | sent => rfl
  | unsent => exact absurd rfl hstranded
  | queued _ hruns => exact hruns
  | unqueued => exact absurd rfl hstranded
  | asked =>
      intro packet hloop
      refine not_recovering_of_left hI hfw hphase rfl ?_ ht
      exact .reading hloop (getElem?_update_self hfw _) rfl
  | left _ hevent =>
      have hroom : s.receiver = some f → ¬s.Full f := by
        rintro hreceiver ⟨gw, hgw, hfull⟩
        rw [hfw] at hgw
        obtain rfl := Option.some.inj hgw
        refine not_recovering_of_left hI hfw hphase rfl ?_ ht
        exact .sending (f := f) hreceiver ⟨_, getElem?_update_self hfw _, rfl, hfull⟩
      rcases hevent with rfl | rfl
      · exact hroom
      · exact hroom

theorem sound_of_recovering (hI : Inv s) (h : step s label = some t) (ht : Recovering t) :
    Sound s label := by
  rcases step_cases h with hloop | ⟨f, event, fw, rfl, hfw, hevent⟩ | ⟨_, _, _, rfl, _, _, _⟩
  · cases hloop with
    | missing hloop hnone =>
        intro packet f hloop' hsome
        rw [hloop] at hloop'
        obtain rfl := Loop.lookingUp.inj hloop'
        rw [hnone] at hsome
        cases hsome
    | @present packet _ hloop =>
        rintro packet' f hloop' hsome ⟨fw, hfw, hout, hfull⟩
        rw [hloop] at hloop'
        obtain rfl := Loop.lookingUp.inj hloop'
        obtain ⟨fw', hfw', hsource, -⟩ := (hI.entry _ f).mp hsome
        rw [hfw] at hfw'
        obtain rfl := Option.some.inj hfw'
        have hJ : Jammed { s with loop := .rereading packet true } :=
          .sending (f := f) hsome ⟨fw, hfw, hout, hfull⟩
        exact not_recovering_of_jammed hJ hsome ⟨fw, hfw, hsource, hout⟩ ht
    | _ => trivial
  · exact sound_of_recovering_forwarder hI hfw hevent ht
  · trivial

theorem not_jammed_init : ¬Jammed State.init := by
  intro hJ
  cases hJ with
  | reading hloop => cases hloop
  | sending hreceiver => cases hreceiver

/-- In every run all sessions recover in all states exactly when all its steps are sound. -/
theorem always_recovering_iff (labels : List Label) :
    machine.Always Recovering machine.init labels ↔ machine.Meets Sound machine.init labels :=
  Machine.always_iff_meets (I := fun s => Inv s ∧ ¬Jammed s)
    (fun _ _ _ hI hsound h => ⟨inv_step hI.1 hsound h, not_jammed_step hI.1 hI.2 hsound h⟩)
    (fun _ hI => recovering_of_inv hI.1 hI.2)
    (fun _ _ _ hI h ht => sound_of_recovering hI.1 h ht) ⟨inv_init, not_jammed_init⟩

/-- A datagram whose send fails, and the next one from the same peer. -/
def lostSession (packet : UdpTraffic) : List Label :=
  [.receive packet, .lookUp, .lock, .connect true, .reread, .push, .forwarder 0 .take,
    .forwarder 0 (.sent false), .receive packet, .lookUp, .reread, .push]

def lostPacket : UdpTraffic := ⟨.v4 ⟨⟨[10, 0, 0, 1], rfl⟩, 5000⟩, [1]⟩

/-- The next datagram finds the entry of the forwarder that has ended, and is dropped. -/
theorem lostSession_not_recovering :
    ¬machine.Always Recovering machine.init (lostSession lostPacket) := by
  intro h
  obtain ⟨t, hrun, hentry, hended⟩ : ∃ t,
      machine.run machine.init (lostSession lostPacket) = some t ∧
        t.portMap.lookup lostPacket.source = some 0 ∧
          t.forwarders[0]? = some ⟨lostPacket.source, .ended, []⟩ :=
    ⟨_, rfl, rfl, rfl⟩
  obtain ⟨fw, hfw, -, hphase⟩ := (h.last hrun).served _ _ hentry
  rw [hended] at hfw
  rw [← Option.some.inj hfw] at hphase
  exact hphase rfl

end Kdct.UdpSessions
