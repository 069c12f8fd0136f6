/-
Which visitor a data channel serves.

A visitor is with the loop that has accepted it or in the queue of the pool until a channel
comes, and then with this channel.  `Inv` says so with a function from visitors to owners;
that no two channels and no two tasks have the same visitor follows.
-/
import Kdct.TcpTunnel.Sides

namespace Kdct

namespace TcpTunnel

structure ChannelOk (b : Bincode) (service : ClientService)
    (visitors : VisitorId → Option Visitor) (ch : DataChannel) : Prop where
  unvisited : ch.visitor = none → Unvisited b ch ∧ Answers b service .startForwardUdp ch
  visited : ∀ v, ch.visitor = some v →
    ∃ vis, visitors v = some vis ∧ Serves b vis ch ∧ Answers b service vis.command ch

/-- The server has not read from the visitor and has written nothing to it. -/
structure Untouched (vis : Visitor) : Prop where
  inward : vis.inward.received = []
  outward : vis.outward.sent = []
  outward_open : vis.outward.closed = false

/-- Which task has a visitor. -/
inductive Owner
  | loop (l : LoopId)
  | queue
  | channel (c : ChannelId)
  deriving DecidableEq

structure Inv (b : Bincode) (service : ClientService) (s : State)
    (owner : VisitorId → Option Owner) : Prop where
  loop : ∀ l loop v, s.loops l = some loop → loop.phase.visitor = some v →
    owner v = some (.loop l)
  queue : ∀ v ∈ s.queue, owner v = some .queue
  channel : ∀ c ch v, s.channels c = some ch → ch.visitor = some v →
    owner v = some (.channel c)
  served : ∀ v c, owner v = some (.channel c) →
    ∃ ch, s.channels c = some ch ∧ ch.visitor = some v
  known : ∀ v, owner v ≠ none → s.visitors v ≠ none
  waits : ∀ v vis, s.visitors v = some vis → (∀ c, owner v ≠ some (.channel c)) →
    Untouched vis
  queue_nodup : s.queue.Nodup
  parked_nodup : s.parked.Nodup
  parked : ∀ c ∈ s.parked, ∃ ch, s.channels c = some ch ∧ ch.server = .parked
  ok : ∀ c ch, s.channels c = some ch → ChannelOk b service s.visitors ch

variable {b : Bincode} {service : ClientService} {vis vis' : Visitor} {ch ch' : DataChannel}
  {portion : Link.Portion} {s t : State} {owner : VisitorId → Option Owner} {c : ChannelId}
  {v : VisitorId} {l : LoopId} {loop' : Loop}

/-- What is found where one value has been set. -/
theorem of_update {α β : Type} [DecidableEq α] {f : α → Option β} {a x : α} {y z : β}
    (h : Function.update f a (some y) x = some z) : x = a ∧ y = z ∨ x ≠ a ∧ f x = some z := by
  by_cases hx : x = a
  · rw [hx, Function.update_self] at h
    exact .inl ⟨hx, Option.some.inj h⟩
  · rw [Function.update_of_ne hx] at h
    exact .inr ⟨hx, h⟩

/-- A channel on which nothing was connected is open to any command. -/
theorem Answers.of_udp (h : Answers b service .startForwardUdp ch) (cmd : DataChannelCmd) :
    Answers b service cmd ch where
  reading := h.reading
  connecting addr hc := by cases (h.connecting addr hc).2.1
  noContainer := h.noContainer
  container k hk := by cases (h.container k hk).1

theorem Inv.server_of_parked (h : Inv b service s owner) (hch : s.channels c = some ch)
    (hmem : c ∈ s.parked) : ch.server = .parked := by
  obtain ⟨ch₁, hch₁, hserver⟩ := h.parked c hmem
  obtain rfl := Option.some.inj (hch.symm.trans hch₁)
  exact hserver

/-- A channel changes that keeps its visitor. -/
theorem Inv.setChannel (h : Inv b service s owner) (hch : s.channels c = some ch)
    (hvisitor : ch'.visitor = ch.visitor) (hserver : c ∈ s.parked → ch'.server = .parked)
    (hok : ChannelOk b service s.visitors ch') : Inv b service (s.setChannel c ch') owner where
  loop := h.loop
  queue := h.queue
  channel c₁ ch₁ v₁ hc₁ hv₁ := by
    rcases of_update hc₁ with ⟨rfl, rfl⟩ | ⟨-, hc₁⟩
    · exact h.channel c₁ ch v₁ hch (hvisitor ▸ hv₁)
    · exact h.channel c₁ ch₁ v₁ hc₁ hv₁
  served v₁ c₁ hv₁ := by
    obtain ⟨ch₁, hch₁, hvis₁⟩ := h.served v₁ c₁ hv₁
    by_cases hc : c₁ = c
    · subst hc
      obtain rfl := Option.some.inj (hch.symm.trans hch₁)
      exact ⟨ch', Function.update_self .., hvisitor.trans hvis₁⟩
    · exact ⟨ch₁, (Function.update_of_ne hc ..).trans hch₁, hvis₁⟩
  known := h.known
  waits := h.waits
  queue_nodup := h.queue_nodup
  parked_nodup := h.parked_nodup
  parked c₁ hc₁ := by
    obtain ⟨ch₁, hch₁, hparked⟩ := h.parked c₁ hc₁
    by_cases hc : c₁ = c
    · subst hc
      exact ⟨ch', Function.update_self .., hserver hc₁⟩
    · exact ⟨ch₁, (Function.update_of_ne hc ..).trans hch₁, hparked⟩
  ok c₁ ch₁ hc₁ := by
    rcases of_update hc₁ with ⟨rfl, rfl⟩ | ⟨-, hc₁⟩
    · exact hok
    · exact h.ok c₁ ch₁ hc₁

/-- A visitor changes in a way that its channel, if it has one, allows. -/
theorem Inv.setVisitor (h : Inv b service s owner) (hv : s.visitors v = some vis)
    (hport : vis'.port = vis.port)
    (hwaits : (∀ c, owner v ≠ some (.channel c)) → Untouched vis')
    (hserves : ∀ c ch, s.channels c = some ch → ch.visitor = some v → Serves b vis' ch) :
    Inv b service (s.setVisitor v vis') owner where
  loop := h.loop
  queue := h.queue
  channel := h.channel
  served := h.served
  known v₁ hv₁ := by
    by_cases heq : v₁ = v
    · subst heq
      show Function.update s.visitors v₁ (some vis') v₁ ≠ none
      simp
    · show Function.update s.visitors v (some vis') v₁ ≠ none
      rw [Function.update_of_ne heq]
      exact h.known v₁ hv₁
  waits v₁ vis₁ hv₁ hfree := by
    rcases of_update hv₁ with ⟨rfl, rfl⟩ | ⟨-, hv₁⟩
    · exact hwaits hfree
    · exact h.waits v₁ vis₁ hv₁ hfree
  queue_nodup := h.queue_nodup
  parked_nodup := h.parked_nodup
  parked := h.parked
  ok c₁ ch₁ hc₁ := by
    refine ⟨(h.ok c₁ ch₁ hc₁).unvisited, fun v₁ hv₁ => ?_⟩
    obtain ⟨vis₁, hvis₁, hserves₁, hanswers₁⟩ := (h.ok c₁ ch₁ hc₁).visited v₁ hv₁
    by_cases heq : v₁ = v
    · subst heq
      obtain rfl := Option.some.inj (hv.symm.trans hvis₁)
      refine ⟨vis', Function.update_self .., hserves c₁ ch₁ hc₁ hv₁, ?_⟩
      rwa [Visitor.command, hport]
    · exact ⟨vis₁, (Function.update_of_ne heq ..).trans hvis₁, hserves₁, hanswers₁⟩

/-- A loop goes on, with a visitor of its own or with none. -/
theorem Inv.setLoop (h : Inv b service s owner)
    (hphase : ∀ v, loop'.phase.visitor = some v → owner v = some (.loop l)) :
    Inv b service (s.setLoop l loop') owner where
  loop l₁ loop₁ v₁ hl₁ hv₁ := by
    rcases of_update hl₁ with ⟨rfl, rfl⟩ | ⟨-, hl₁⟩
    · exact hphase v₁ hv₁
    · exact h.loop l₁ loop₁ v₁ hl₁ hv₁
  queue := h.queue
  channel := h.channel
  served := h.served
  known := h.known
  waits := h.waits
  queue_nodup := h.queue_nodup
  parked_nodup := h.parked_nodup
  parked := h.parked
  ok := h.ok

/-- A channel and its visitor change together. -/
theorem Inv.setBoth (h : Inv b service s owner) (hch : s.channels c = some ch)
    (hv : ch.visitor = some v) (hvis : s.visitors v = some vis) (hvisitor : ch'.visitor = some v)
    (hport : vis'.port = vis.port) (hserver : ch.server ≠ .parked)
    (hserves : Serves b vis' ch') (hanswers : Answers b service vis.command ch') :
    Inv b service ((s.setChannel c ch').setVisitor v vis') owner where
  loop := h.loop
  queue := h.queue
  channel c₁ ch₁ v₁ hc₁ hv₁ := by
    rcases of_update hc₁ with ⟨rfl, rfl⟩ | ⟨-, hc₁⟩
    · obtain rfl := Option.some.inj (hvisitor.symm.trans hv₁)
      exact h.channel c₁ ch v hch hv
    · exact h.channel c₁ ch₁ v₁ hc₁ hv₁
  served v₁ c₁ hv₁ := by
    obtain ⟨ch₁, hch₁, hvis₁⟩ := h.served v₁ c₁ hv₁
    by_cases hc : c₁ = c
    · subst hc
      obtain rfl := Option.some.inj (hch.symm.trans hch₁)
      exact ⟨ch', Function.update_self .., hvisitor.trans (hv.symm.trans hvis₁)⟩
    · exact ⟨ch₁, (Function.update_of_ne hc ..).trans hch₁, hvis₁⟩
  known v₁ hv₁ := by
    show Function.update s.visitors v (some vis') v₁ ≠ none
    by_cases heq : v₁ = v
    · rw [heq, Function.update_self]
      exact Option.some_ne_none vis'
    · rw [Function.update_of_ne heq]
      exact h.known v₁ hv₁
  waits v₁ vis₁ hv₁ hfree := by
    rcases of_update hv₁ with ⟨rfl, rfl⟩ | ⟨-, hv₁⟩
    · exact absurd (h.channel c ch v₁ hch hv) (hfree c)
    · exact h.waits v₁ vis₁ hv₁ hfree
  queue_nodup := h.queue_nodup
  parked_nodup := h.parked_nodup
  parked c₁ hc₁ := by
    obtain ⟨ch₁, hch₁, hparked⟩ := h.parked c₁ hc₁
    by_cases hc : c₁ = c
    · subst hc
      obtain rfl := Option.some.inj (hch.symm.trans hch₁)
      exact absurd hparked hserver
    · exact ⟨ch₁, (Function.update_of_ne hc ..).trans hch₁, hparked⟩
  ok c₁ ch₁ hc₁ := by
    rcases of_update hc₁ with ⟨rfl, rfl⟩ | ⟨hne, hold⟩
    · refine ⟨fun hnone => (by cases hvisitor.symm.trans hnone), fun v₁ hv₁ => ?_⟩
      obtain rfl := Option.some.inj (hvisitor.symm.trans hv₁)
      refine ⟨vis', Function.update_self .., hserves, ?_⟩
      rwa [Visitor.command, hport]
    · refine ⟨(h.ok c₁ ch₁ hold).unvisited, fun v₁ hv₁ => ?_⟩
      have hv₁ne : v₁ ≠ v := by
        intro heq
        have howner := h.channel c₁ ch₁ v₁ hold hv₁
        rw [heq, h.channel c ch v hch hv] at howner
        exact hne (Owner.channel.inj (Option.some.inj howner)).symm
      obtain ⟨vis₁, hvis₁, hrest⟩ := (h.ok c₁ ch₁ hold).visited v₁ hv₁
      exact ⟨vis₁, (Function.update_of_ne hv₁ne ..).trans hvis₁, hrest⟩

/-- A visitor comes, to a loop or to the pool. -/
theorem Inv.arrive {port : Option Port} (who : Owner) (h : Inv b service s owner)
    (hnew : s.visitors v = none) (hwho : ∀ c, who ≠ .channel c)
    (hvisitors : t.visitors = Function.update s.visitors v (some (.new port)))
    (hchannels : t.channels = s.channels) (hparked : t.parked = s.parked)
    (hloops : ∀ l loop v', t.loops l = some loop → loop.phase.visitor = some v' →
      v' = v ∧ who = .loop l ∨ owner v' = some (.loop l))
    (hqueue : ∀ v' ∈ t.queue, v' = v ∧ who = .queue ∨ owner v' = some .queue)
    (hnodup : t.queue.Nodup) : Inv b service t (Function.update owner v (some who)) := by
  have hfree : owner v = none := by
    by_contra hne
    exact h.known v hne hnew
  have hother {v' : VisitorId} {o : Owner} (ho : owner v' = some o) :
      Function.update owner v (some who) v' = some o := by
    rw [Function.update_of_ne, ho]
    rintro rfl
    cases hfree.symm.trans ho
  refine ⟨fun l loop v' hl hv' => ?_, fun v' hv' => ?_, fun c ch v' hc hv' => ?_,
    fun v' c hv' => ?_, fun v' hv' => ?_, fun v' vis hv' hnot => ?_, hnodup,
    hparked ▸ h.parked_nodup, ?_, fun c ch hc => ?_⟩
  · rcases hloops l loop v' hl hv' with ⟨rfl, rfl⟩ | ho
    · exact Function.update_self ..
    · exact hother ho
  · rcases hqueue v' hv' with ⟨rfl, rfl⟩ | ho
    · exact Function.update_self ..
    · exact hother ho
  · exact hother (h.channel c ch v' (hchannels ▸ hc) hv')
  · rw [hchannels]
    by_cases heq : v' = v
    · rw [heq, Function.update_self] at hv'
      exact absurd (Option.some.inj hv') (hwho c)
    · rw [Function.update_of_ne heq] at hv'
      exact h.served v' c hv'
  · rw [hvisitors]
    by_cases heq : v' = v
    · rw [heq, Function.update_self]
      exact Option.some_ne_none _
    · rw [Function.update_of_ne heq] at hv' ⊢
      exact h.known v' hv'
  · rw [hvisitors] at hv'
    rcases of_update hv' with ⟨rfl, rfl⟩ | ⟨hne, hv'⟩
    · exact ⟨rfl, rfl, rfl⟩
    · exact h.waits v' vis hv' fun c ho => hnot c (hother ho)
  · rw [hparked, hchannels]
    exact h.parked
  · rw [hchannels] at hc
    refine ⟨(h.ok c ch hc).unvisited, fun v' hv' => ?_⟩
    obtain ⟨vis, hvis, hrest⟩ := (h.ok c ch hc).visited v' hv'
    refine ⟨vis, ?_, hrest⟩
    rw [hvisitors, Function.update_of_ne]
    · exact hvis
    · rintro rfl
      cases hnew.symm.trans hvis

/-- A task that has a visitor gets a channel for it. -/
theorem Inv.claim {who : Owner} (ch' : DataChannel) (h : Inv b service s owner)
    (howner : owner v = some who) (hwho : ∀ c, who ≠ .channel c)
    (hch : s.channels c = some ch) (hnone : ch.visitor = none)
    (hvisitor : ch'.visitor = some v) (hvisitors : t.visitors = s.visitors)
    (hchannels : t.channels = Function.update s.channels c (some ch'))
    (hloops : ∀ l loop v', t.loops l = some loop → loop.phase.visitor = some v' →
      v' ≠ v ∧ owner v' = some (.loop l))
    (hqueue : ∀ v' ∈ t.queue, v' ≠ v ∧ owner v' = some .queue) (hqueueNodup : t.queue.Nodup)
    (hparked : ∀ c' ∈ t.parked, c' ≠ c ∧ c' ∈ s.parked) (hparkedNodup : t.parked.Nodup)
    (hok : ChannelOk b service s.visitors ch') :
    Inv b service t (Function.update owner v (some (.channel c))) := by
  have hother {v' : VisitorId} {o : Owner} (hv' : v' ≠ v ∧ owner v' = some o) :
      Function.update owner v (some (.channel c)) v' = some o :=
    (Function.update_of_ne hv'.1 ..).trans hv'.2
  have hwaits {c₁ : ChannelId} {ch₁ : DataChannel} {v₁ : VisitorId}
      (hc₁ : s.channels c₁ = some ch₁) (hv₁ : ch₁.visitor = some v₁) : v₁ ≠ v := by
    intro heq
    have hchannel := h.channel c₁ ch₁ v₁ hc₁ hv₁
    rw [heq, howner] at hchannel
    exact hwho c₁ (Option.some.inj hchannel)
  refine ⟨fun l loop v' hl hv' => hother (hloops l loop v' hl hv'),
    fun v' hv' => hother (hqueue v' hv'), fun c₁ ch₁ v₁ hc₁ hv₁ => ?_, fun v₁ c₁ hv₁ => ?_,
    fun v₁ hv₁ => ?_, fun v₁ vis₁ hv₁ hnot => ?_, hqueueNodup, hparkedNodup, fun c₁ hc₁ => ?_,
    fun c₁ ch₁ hc₁ => ?_⟩
  · rw [hchannels] at hc₁
    rcases of_update hc₁ with ⟨rfl, rfl⟩ | ⟨-, hold⟩
    · obtain rfl := Option.some.inj (hvisitor.symm.trans hv₁)
      exact Function.update_self ..
    · exact hother ⟨hwaits hold hv₁, h.channel c₁ ch₁ v₁ hold hv₁⟩
  · rw [hchannels]
    by_cases heq : v₁ = v
    · rw [heq, Function.update_self] at hv₁
      obtain rfl := Owner.channel.inj (Option.some.inj hv₁)
      exact ⟨ch', Function.update_self .., heq ▸ hvisitor⟩
    · rw [Function.update_of_ne heq] at hv₁
      obtain ⟨ch₁, hch₁, hvis₁⟩ := h.served v₁ c₁ hv₁
      refine ⟨ch₁, (Function.update_of_ne ?_ ..).trans hch₁, hvis₁⟩
      rintro rfl
      obtain rfl := Option.some.inj (hch.symm.trans hch₁)
      cases hnone.symm.trans hvis₁
  · rw [hvisitors]
    by_cases heq : v₁ = v
    · exact h.known v₁ (by rw [heq, howner]; exact Option.some_ne_none who)
    · rw [Function.update_of_ne heq] at hv₁
      exact h.known v₁ hv₁
  · rw [hvisitors] at hv₁
    by_cases heq : v₁ = v
    · exact absurd (heq ▸ Function.update_self ..) (hnot c)
    · exact h.waits v₁ vis₁ hv₁ fun c' ho => hnot c' (hother ⟨heq, ho⟩)
  · obtain ⟨hne, hold⟩ := hparked c₁ hc₁
    obtain ⟨ch₁, hch₁, hserver⟩ := h.parked c₁ hold
    exact ⟨ch₁, hchannels ▸ (Function.update_of_ne hne ..).trans hch₁, hserver⟩
  · rw [hchannels] at hc₁
    rw [hvisitors]
    rcases of_update hc₁ with ⟨rfl, rfl⟩ | ⟨-, hold⟩
    · exact hok
    · exact h.ok c₁ ch₁ hold

/-! ### Steps -/

theorem DataChannel.ServerMoves.drop (ch : DataChannel) (complete : Bool) :
    ch.ServerMoves (ch.dropServer complete) :=
  ⟨rfl, rfl, rfl, rfl, rfl, rfl, fun hf => by simp [DataChannel.dropServer, hf]⟩

theorem DataChannel.ClientMoves.drop (ch : DataChannel) (complete : Bool) :
    ch.ClientMoves (ch.dropClient complete) :=
  ⟨rfl, rfl, rfl, rfl, rfl, rfl, fun hf => by simp [DataChannel.dropClient, hf]⟩

theorem DataChannel.ClientMoves.readCommand (h : ch.readCommand b service = some ch') :
    ch.ClientMoves ch' := by
  unfold DataChannel.readCommand at h
  split at h
  · cases h
  · dsimp only at h
    split at h
    · obtain rfl := Option.some.inj h
      exact ⟨rfl, rfl, rfl, rfl, rfl, rfl, id⟩
    · obtain rfl := Option.some.inj h
      exact ⟨rfl, rfl, rfl, rfl, rfl, rfl, id⟩
    · obtain rfl := Option.some.inj h
      exact ⟨rfl, rfl, rfl, rfl, rfl, rfl, fun hf => by simp [DataChannel.dropClient, hf]⟩

/-- A step of the client's. -/
theorem ChannelOk.client (h : ChannelOk b service s.visitors ch) (hm : ch.ClientMoves ch')
    (hanswers : ∀ cmd, (ch.down.sent = [] ∨ ∃ rest, ch.down.sent = writeDataCmd b cmd ++ rest) →
      Answers b service cmd ch → Answers b service cmd ch') :
    ChannelOk b service s.visitors ch' where
  unvisited hnone := by
    obtain ⟨hun, hudp⟩ := h.unvisited (hm.visitor ▸ hnone)
    refine ⟨⟨hm.server ▸ hun.not_copying, hm.sent ▸ hun.sent, ?_⟩, hanswers _ ?_ hudp⟩
    · rw [hm.server, hm.sent, hm.closed]
      exact hun.fresh
    · exact hun.sent.imp_right fun heq => ⟨[], by rw [heq, List.append_nil]⟩
  visited v hv := by
    obtain ⟨vis, hvis, hserves, hvisAnswers⟩ := h.visited v (hm.visitor ▸ hv)
    refine ⟨vis, hvis, hserves.congr hm, hanswers _ ?_ hvisAnswers⟩
    exact hserves.begun.imp (fun hfresh => hfresh.2.1) fun hbegun => ⟨_, hbegun.2.sent⟩

theorem Inv.client (h : Inv b service s owner) (hch : s.channels c = some ch)
    (hm : ch.ClientMoves ch')
    (hanswers : ∀ cmd, (ch.down.sent = [] ∨ ∃ rest, ch.down.sent = writeDataCmd b cmd ++ rest) →
      Answers b service cmd ch → Answers b service cmd ch') :
    Inv b service (s.setChannel c ch') owner :=
  h.setChannel hch hm.visitor (fun hp => hm.server.trans (h.server_of_parked hch hp))
    ((h.ok c ch hch).client hm hanswers)

theorem Inv.clientHop {inward : Bool} (h : Inv b service s owner) (hch : s.channels c = some ch)
    (hstep : stepClientHop s c ch inward portion = some t) : Inv b service t owner := by
  unfold stepClientHop at hstep
  split at hstep
  · rename_i k hclient hk
    cases inward with
    | true =>
        obtain ⟨p, hp, rfl⟩ := Option.map_eq_some_iff.mp hstep
        obtain ⟨hsent, hclosed, -, -⟩ := Link.pass_ends hp
        exact h.client hch ⟨rfl, rfl, hsent, hclosed, rfl, rfl, id⟩ fun _ _ ha =>
          ha.hopIn hclient hk hp
    | false =>
        obtain ⟨p, hp, rfl⟩ := Option.map_eq_some_iff.mp hstep
        obtain ⟨-, -, hreceived, hended⟩ := Link.pass_ends hp
        exact h.client hch ⟨rfl, rfl, rfl, rfl, hreceived, hended, id⟩ fun _ _ ha =>
          ha.hopOut hclient hk hp
  · cases hstep

theorem Inv.stopClient (h : Inv b service s owner) (hch : s.channels c = some ch)
    (hstep : stepStopClient s c ch = some t) : Inv b service t owner := by
  unfold stepStopClient at hstep
  split at hstep
  · cases hstep
  · rename_i k hclient hk
    obtain rfl := Option.some.inj hstep
    refine h.client hch (.drop ch _) fun _ _ ha => ha.drop fun hcomplete => ?_
    obtain ⟨hdown, hout⟩ := Bool.and_eq_true_iff.mp hcomplete
    exact ⟨hdown, k, hk, hout⟩
  · obtain rfl := Option.some.inj hstep
    exact h.client hch (.drop ch _) fun _ _ ha => ha.drop nofun

/-- A step of a task that copies between a visitor and its channel. -/
theorem Inv.server (h : Inv b service s owner) (hch : s.channels c = some ch)
    (hv : ch.visitor = some v) (hvis : s.visitors v = some vis) (hm : ch.ServerMoves ch')
    (hvisitor : ch'.visitor = ch.visitor) (hport : vis'.port = vis.port)
    (hserves : Serves b vis ch → Serves b vis' ch') :
    Inv b service ((s.setChannel c ch').setVisitor v vis') owner := by
  obtain ⟨vis₁, hvis₁, hold, hanswers⟩ := (h.ok c ch hch).visited v hv
  obtain rfl := Option.some.inj (hvis.symm.trans hvis₁)
  exact h.setBoth hch hv hvis (hvisitor.trans hv) hport hold.taken.2 (hserves hold)
    (hanswers.congr hm)

theorem Inv.serverHop {inward : Bool} (h : Inv b service s owner) (hch : s.channels c = some ch)
    (hstep : stepServerHop s c ch inward portion = some t) : Inv b service t owner := by
  unfold stepServerHop at hstep
  split at hstep
  · rename_i v hserver hv
    split at hstep
    · cases hstep
    · rename_i vis hvis
      cases inward with
      | true =>
          obtain ⟨p, hp, rfl⟩ := Option.map_eq_some_iff.mp hstep
          obtain ⟨-, -, hreceived, hended⟩ := Link.pass_ends hp
          exact h.server hch hv hvis ⟨rfl, rfl, hreceived, hended, rfl, rfl, id⟩ rfl rfl
            fun hs => hs.hopIn hserver hp
      | false =>
          obtain ⟨p, hp, rfl⟩ := Option.map_eq_some_iff.mp hstep
          obtain ⟨hsent, hclosed, -, -⟩ := Link.pass_ends hp
          exact h.server hch hv hvis ⟨rfl, rfl, rfl, rfl, hsent, hclosed, id⟩ rfl rfl
            fun hs => hs.hopOut hp
  · cases hstep

theorem Unvisited.drop {complete : Bool} (h : Unvisited b ch) :
    Unvisited b (ch.dropServer complete) where
  not_copying := nofun
  sent := h.sent
  fresh := by rintro (hs | hs | hs) <;> cases hs

/-- A channel without a visitor is dropped. -/
theorem Inv.dropUnvisited (h : Inv b service s owner) (hch : s.channels c = some ch)
    (hnone : ch.visitor = none) (hmem : c ∉ s.parked) :
    Inv b service (s.setChannel c (ch.dropServer false)) owner := by
  obtain ⟨hun, hudp⟩ := (h.ok c ch hch).unvisited hnone
  refine h.setChannel hch rfl (fun hp => absurd hp hmem) ⟨fun _ => ?_, fun v hv => ?_⟩
  · exact ⟨hun.drop, hudp.congr (.drop ch false)⟩
  · cases hnone.symm.trans hv

theorem Inv.stopServer (h : Inv b service s owner) (hch : s.channels c = some ch)
    (hstep : stepStopServer s c ch = some t) : Inv b service t owner := by
  unfold stepStopServer at hstep
  split at hstep
  · rename_i hserver hnone
    obtain rfl := Option.some.inj hstep
    refine h.dropUnvisited hch hnone fun hmem => ?_
    cases hserver.symm.trans (h.server_of_parked hch hmem)
  · rename_i v hserver hv
    split at hstep
    · cases hstep
    · rename_i vis hvis
      obtain rfl := Option.some.inj hstep
      refine h.server hch hv hvis (.drop ch _) rfl rfl fun hs => hs.drop fun hcomplete => ?_
      obtain ⟨hin, hup⟩ := Bool.and_eq_true_iff.mp hcomplete
      exact ⟨hserver, hin, hup⟩
  · cases hstep

theorem Inv.command {written : Bool} (h : Inv b service s owner) (hch : s.channels c = some ch)
    (hserver : ch.server = .claimed) (hstep : stepCommand b s c ch written = some t) :
    Inv b service t owner := by
  have hparked : c ∉ s.parked := by
    intro hmem
    cases hserver.symm.trans (h.server_of_parked hch hmem)
  unfold stepCommand at hstep
  split at hstep
  · rename_i hnone
    obtain ⟨hun, hudp⟩ := (h.ok c ch hch).unvisited hnone
    split at hstep
    · obtain ⟨down, hdown, rfl⟩ := Option.map_eq_some_iff.mp hstep
      obtain ⟨-, hsent, hreceived, -, hended⟩ := Link.send_cases hdown
      refine h.setChannel hch rfl (fun hp => absurd hp hparked) ⟨fun _ => ⟨⟨nofun, ?_, ?_⟩, ?_⟩,
        fun v hv => ?_⟩
      · exact .inr (by rw [hsent, (hun.fresh (.inr (.inr hserver))).1, List.nil_append])
      · rintro (hs | hs | hs) <;> cases hs
      · exact hudp.congr ⟨rfl, rfl, hreceived, hended, rfl, rfl, id⟩
      · cases hnone.symm.trans hv
    · obtain rfl := Option.some.inj hstep
      exact h.dropUnvisited hch hnone hparked
  · rename_i v hv
    split at hstep
    · cases hstep
    · rename_i vis hvis
      split at hstep
      · obtain ⟨down, hdown, rfl⟩ := Option.map_eq_some_iff.mp hstep
        obtain ⟨-, -, hreceived, -, hended⟩ := Link.send_cases hdown
        obtain ⟨vis₁, hvis₁, hold, hanswers⟩ := (h.ok c ch hch).visited v hv
        obtain rfl := Option.some.inj (hvis.symm.trans hvis₁)
        refine h.setChannel hch rfl (fun hp => absurd hp hparked)
          ⟨fun hnone => ?_, fun v' hv' => ?_⟩
        · cases hv.symm.trans hnone
        · obtain rfl := Option.some.inj (hv.symm.trans hv')
          exact ⟨vis, hvis, hold.command hserver hdown,
            hanswers.congr ⟨rfl, rfl, hreceived, hended, rfl, rfl, id⟩⟩
      · obtain rfl := Option.some.inj hstep
        exact h.server hch hv hvis (.drop ch false) rfl rfl fun hs => hs.drop nofun

theorem Answers.up_sent (h : Answers b service .startForwardUdp ch) : ch.up.sent = [] := by
  cases hk : ch.container with
  | none => exact (h.noContainer hk).1
  | some k => cases (h.container k hk).1

/-- A task takes a new channel for a visitor it has not read from. -/
theorem Serves.start (hun : Unvisited b ch) (hudp : Answers b service .startForwardUdp ch)
    (hserver : ch.server = .opened ∨ ch.server = .parked) (hvis : Untouched vis) :
    Serves b vis { ch with server := .claimed, visitor := some v } := by
  obtain ⟨hdown, hopen⟩ := hun.fresh (hserver.imp_right .inl)
  have hup : ch.up.received = [] := List.prefix_nil.mp (hudp.up_sent ▸ ch.up.received_prefix)
  refine ⟨⟨nofun, nofun⟩, .inl ⟨nofun, hdown, hvis.inward, fun hc => ?_⟩, Nat.zero_le _, ?_,
    fun hc => ?_⟩
  · cases hopen.symm.trans hc
  · show vis.outward.sent = [] ++ ch.up.received.drop 0
    rw [hvis.outward, hup]
    rfl
  · cases hvis.outward_open.symm.trans hc

theorem Inv.unvisited_of_new (h : Inv b service s owner) (hch : s.channels c = some ch)
    (hserver : ch.server = .opened ∨ ch.server = .parked) :
    ch.visitor = none ∧ Unvisited b ch ∧ Answers b service .startForwardUdp ch := by
  cases hv : ch.visitor with
  | none => exact ⟨rfl, (h.ok c ch hch).unvisited hv⟩
  | some v =>
      obtain ⟨_, -, hserves, -⟩ := (h.ok c ch hch).visited v hv
      rcases hserver with hs | hs
      · exact absurd hs hserves.taken.1
      · exact absurd hs hserves.taken.2

/-- The channel of a visitor that waits, once a task has both. -/
theorem Inv.claimed (h : Inv b service s owner) (hch : s.channels c = some ch)
    (hserver : ch.server = .opened ∨ ch.server = .parked) {who : Owner} (hwho : owner v = some who)
    (hnot : ∀ c, who ≠ .channel c) :
    ∃ vis, s.visitors v = some vis ∧
      Serves b vis { ch with server := .claimed, visitor := some v } ∧
      Answers b service vis.command { ch with server := .claimed, visitor := some v } := by
  obtain ⟨-, hun, hudp⟩ := h.unvisited_of_new hch hserver
  have hknown : s.visitors v ≠ none := h.known v (by rw [hwho]; exact Option.some_ne_none who)
  obtain ⟨vis, hvis⟩ := Option.ne_none_iff_exists'.mp hknown
  have huntouched : Untouched vis := by
    refine h.waits v vis hvis fun c hc => hnot c ?_
    exact Option.some.inj (hwho.symm.trans hc)
  exact ⟨vis, hvis, .start hun hudp hserver huntouched,
    (hudp.of_udp _).congr ⟨rfl, rfl, rfl, rfl, rfl, rfl, id⟩⟩

theorem Inv.setCallbacks (h : Inv b service s owner) (callbacks : List LoopId) :
    Inv b service { s with callbacks := callbacks } owner :=
  ⟨h.loop, h.queue, h.channel, h.served, h.known, h.waits, h.queue_nodup, h.parked_nodup,
    h.parked, h.ok⟩

theorem Inv.handshake (h : Inv b service s owner) (hch : s.channels c = some ch)
    (hserver : ch.server = .opened) :
    ∃ owner', Inv b service (stepHandshake s c ch) owner' := by
  obtain ⟨hnone, hun, hudp⟩ := h.unvisited_of_new hch (.inl hserver)
  have hnotMem : c ∉ s.parked := by
    intro hmem
    cases hserver.symm.trans (h.server_of_parked hch hmem)
  have hstays (srv : ServerEnd) (hsrv : srv ≠ .copying) :
      ChannelOk b service s.visitors { ch with server := srv, visitor := none } :=
    ⟨fun _ => ⟨⟨hsrv, hun.sent, fun _ => hun.fresh (.inl hserver)⟩,
      hudp.congr ⟨rfl, rfl, rfl, rfl, rfl, rfl, id⟩⟩, nofun⟩
  unfold stepHandshake
  split
  · -- No callback waits.
    have hnext : Inv b service (s.setChannel c { ch with server := .parked }) owner :=
      h.setChannel hch rfl (fun _ => rfl) (hnone ▸ hstays .parked nofun)
    refine ⟨owner, hnext.loop, hnext.queue, hnext.channel, hnext.served, hnext.known,
      hnext.waits, hnext.queue_nodup, ?_, fun c' hc' => ?_, hnext.ok⟩
    · exact h.parked_nodup.append (List.nodup_singleton c) (by simpa using hnotMem)
    · rcases List.mem_append.mp hc' with hold | hnew
      · exact hnext.parked c' hold
      · obtain rfl := List.mem_singleton.mp hnew
        exact ⟨_, Function.update_self .., rfl⟩
  · rename_i l callbacks hcallbacks
    dsimp only
    split
    · rename_i kind port x hloop
      cases x with
      | none =>
          refine ⟨owner, ((h.setCallbacks callbacks).setChannel hch hnone.symm
            (fun hp => absurd hp hnotMem) (hstays .claimed nofun)).setLoop nofun⟩
      | some v =>
          have howner := h.loop l _ v hloop rfl
          obtain ⟨vis, hvis, hserves, hanswers⟩ := h.claimed hch (.inl hserver) howner nofun
          refine ⟨_, h.claim { ch with server := .claimed, visitor := some v } howner nofun hch
            hnone rfl rfl rfl (fun l' loop' v' hl' hv' => ?_)
            (fun v' hv' => ?_) h.queue_nodup (fun c' hc' => ?_) h.parked_nodup
            ⟨nofun, fun v' hv' => ?_⟩⟩
          · rcases of_update hl' with ⟨-, rfl⟩ | ⟨hne, hold⟩
            · cases hv'
            · have howner' := h.loop l' loop' v' hold hv'
              refine ⟨fun heq => hne ?_, howner'⟩
              rw [heq, howner] at howner'
              exact (Owner.loop.inj (Option.some.inj howner')).symm
          · have howner' := h.queue v' hv'
            refine ⟨fun heq => ?_, howner'⟩
            rw [heq, howner] at howner'
            cases howner'
          · exact ⟨fun heq => hnotMem (heq ▸ hc'), hc'⟩
          · obtain rfl := Option.some.inj hv'
            exact ⟨vis, hvis, hserves, hanswers⟩
    · exact ⟨owner, (h.setCallbacks callbacks).dropUnvisited hch hnone hnotMem⟩

theorem Inv.pool {written : Bool} (h : Inv b service s owner)
    (hstep : stepPool b s written = some t) : ∃ owner', Inv b service t owner' := by
  unfold stepPool at hstep
  split at hstep
  · rename_i v queue c parked hqueue hparked
    split at hstep
    · rename_i vis ch hvis hch
      have hmem : c ∈ s.parked := hparked ▸ List.mem_cons_self
      have hserver := h.server_of_parked hch hmem
      have hnone := (h.unvisited_of_new hch (.inr hserver)).1
      have howner := h.queue v (hqueue ▸ List.mem_cons_self)
      obtain ⟨hv, hqueueNodup⟩ := List.nodup_cons.mp (hqueue ▸ h.queue_nodup)
      obtain ⟨hc, hparkedNodup⟩ := List.nodup_cons.mp (hparked ▸ h.parked_nodup)
      have hstill {c' : ChannelId} (hc' : c' ∈ parked) : c' ∈ s.parked :=
        hparked ▸ List.mem_cons_of_mem c hc'
      split at hstep
      · obtain ⟨down, hdown, rfl⟩ := Option.map_eq_some_iff.mp hstep
        obtain ⟨-, -, hreceived, -, hended⟩ := Link.send_cases hdown
        obtain ⟨vis₁, hvis₁, hserves, hanswers⟩ := h.claimed hch (.inr hserver) howner nofun
        obtain rfl := Option.some.inj (hvis.symm.trans hvis₁)
        refine ⟨_, h.claim { ch with down := down, server := .copying, visitor := some v } howner
          nofun hch hnone rfl rfl rfl
          (fun l loop v' hl hv' => ?_) (fun v' hv' => ?_) hqueueNodup (fun c' hc' => ?_)
          hparkedNodup ⟨nofun, fun v' hv' => ?_⟩⟩
        · have howner' := h.loop l loop v' hl hv'
          refine ⟨fun heq => ?_, howner'⟩
          rw [heq, howner] at howner'
          cases howner'
        · exact ⟨fun heq => hv (heq ▸ hv'), h.queue v' (hqueue ▸ List.mem_cons_of_mem v hv')⟩
        · exact ⟨fun heq => hc (heq ▸ hc'), hstill hc'⟩
        · obtain rfl := Option.some.inj hv'
          exact ⟨vis, hvis, hserves.command rfl hdown,
            hanswers.congr ⟨rfl, rfl, hreceived, hended, rfl, rfl, id⟩⟩
      · obtain rfl := Option.some.inj hstep
        have hpopped : Inv b service { s with parked := parked } owner :=
          ⟨h.loop, h.queue, h.channel, h.served, h.known, h.waits, h.queue_nodup, hparkedNodup,
            fun c' hc' => h.parked c' (hstill hc'), h.ok⟩
        exact ⟨owner, hpopped.dropUnvisited hch hnone hc⟩
    · cases hstep
  · cases hstep

theorem Inv.opens (h : Inv b service s owner) (hnew : s.channels c = none) :
    Inv b service (s.setChannel c .new) owner where
  loop := h.loop
  queue := h.queue
  channel c₁ ch₁ v₁ hc₁ hv₁ := by
    rcases of_update hc₁ with ⟨rfl, rfl⟩ | ⟨-, hold⟩
    · cases hv₁
    · exact h.channel c₁ ch₁ v₁ hold hv₁
  served v₁ c₁ hv₁ := by
    obtain ⟨ch₁, hch₁, hvis₁⟩ := h.served v₁ c₁ hv₁
    refine ⟨ch₁, (Function.update_of_ne ?_ ..).trans hch₁, hvis₁⟩
    rintro rfl
    cases hnew.symm.trans hch₁
  known := h.known
  waits := h.waits
  queue_nodup := h.queue_nodup
  parked_nodup := h.parked_nodup
  parked c₁ hc₁ := by
    obtain ⟨ch₁, hch₁, hserver⟩ := h.parked c₁ hc₁
    refine ⟨ch₁, (Function.update_of_ne ?_ ..).trans hch₁, hserver⟩
    rintro rfl
    cases hnew.symm.trans hch₁
  ok c₁ ch₁ hc₁ := by
    rcases of_update hc₁ with ⟨rfl, rfl⟩ | ⟨-, hold⟩
    · exact ⟨fun _ => ⟨⟨nofun, .inl rfl, fun _ => ⟨rfl, rfl⟩⟩,
        ⟨fun _ => ⟨rfl, rfl⟩, nofun, fun _ => ⟨rfl, nofun, nofun⟩, nofun⟩⟩, nofun⟩
    · exact h.ok c₁ ch₁ hold

theorem Inv.peer {e : PeerEvent} (h : Inv b service s owner) (hv : s.visitors v = some vis)
    {p : Link UInt8 × Link UInt8} (hact : e.act vis.inward vis.outward = some p) :
    Inv b service (s.setVisitor v { vis with inward := p.1, outward := p.2 }) owner := by
  refine h.setVisitor hv rfl (fun hfree => ?_) fun c ch hch hvisitor => ?_
  · obtain ⟨hreceived, -, hsent, hclosed⟩ := PeerEvent.act_cases hact
    obtain ⟨hin, hout, hopen⟩ := h.waits v vis hv hfree
    exact ⟨hreceived.trans hin, hsent.trans hout, hclosed.trans hopen⟩
  · obtain ⟨vis₁, hvis₁, hserves, -⟩ := (h.ok c ch hch).visited v hvisitor
    obtain rfl := Option.some.inj (hv.symm.trans hvis₁)
    exact hserves.peer hact

theorem inv_init : Inv b service .init fun _ => none where
  loop _ _ _ hl := by cases hl
  queue _ hv := by cases hv
  channel _ _ _ hc := by cases hc
  served _ _ hv := by cases hv
  known _ hv := absurd rfl hv
  waits _ _ hv := by cases hv
  queue_nodup := List.nodup_nil
  parked_nodup := List.nodup_nil
  parked _ hc := by cases hc
  ok _ _ hc := by cases hc

theorem Inv.step {label : Label} (h : Inv b service s owner)
    (hstep : step b service s label = some t) : ∃ owner', Inv b service t owner' := by
  cases label with
  | spawn l kind port =>
      simp only [TcpTunnel.step] at hstep
      split at hstep
      · obtain rfl := Option.some.inj hstep
        exact ⟨owner, h.setLoop nofun⟩
      · cases hstep
  | accept l v =>
      simp only [TcpTunnel.step] at hstep
      split at hstep
      · rename_i port hloop hnew
        obtain rfl := Option.some.inj hstep
        refine ⟨_, h.arrive (.loop l) hnew nofun rfl rfl rfl (fun l' loop v' hl' hv' => ?_)
          (fun v' hv' => .inr (h.queue v' hv')) h.queue_nodup⟩
        rcases of_update hl' with ⟨rfl, rfl⟩ | ⟨-, hold⟩
        · exact .inl ⟨(Option.some.inj hv').symm, rfl⟩
        · exact .inr (h.loop l' loop v' hold hv')
      · cases hstep
  | bind l =>
      simp only [TcpTunnel.step] at hstep
      split at hstep
      · obtain rfl := Option.some.inj hstep
        exact ⟨owner, h.setLoop nofun⟩
      · cases hstep
  | register l =>
      simp only [TcpTunnel.step] at hstep
      split at hstep
      · rename_i kind port x hloop
        obtain rfl := Option.some.inj hstep
        have hwaits : Inv b service (s.setLoop l ⟨kind, port, .waiting x⟩) owner :=
          h.setLoop fun v hv => h.loop l _ v hloop hv
        exact ⟨owner, hwaits.setCallbacks _⟩
      · cases hstep
  | listen v =>
      simp only [TcpTunnel.step] at hstep
      split at hstep
      · rename_i hnew
        obtain rfl := Option.some.inj hstep
        have hnot : v ∉ s.queue := fun hmem =>
          h.known v (by rw [h.queue v hmem]; exact Option.some_ne_none _) hnew
        refine ⟨_, h.arrive .queue hnew nofun rfl rfl rfl
          (fun l loop v' hl hv' => .inr (h.loop l loop v' hl hv')) (fun v' hv' => ?_)
          (h.queue_nodup.append (List.nodup_singleton v) (by simpa using hnot))⟩
        rcases List.mem_append.mp hv' with hold | hv'
        · exact .inr (h.queue v' hold)
        · exact .inl ⟨List.mem_singleton.mp hv', rfl⟩
      · cases hstep
  | opens c =>
      simp only [TcpTunnel.step] at hstep
      split at hstep
      · rename_i hnew
        obtain rfl := Option.some.inj hstep
        exact ⟨owner, h.opens hnew⟩
      · cases hstep
  | handshake c =>
      obtain ⟨ch, hch, hstep⟩ := Option.bind_eq_some_iff.mp hstep
      split at hstep
      · rename_i hserver
        obtain rfl := Option.some.inj hstep
        exact h.handshake hch hserver
      · cases hstep
  | pool written => exact h.pool hstep
  | command c written =>
      obtain ⟨ch, hch, hstep⟩ := Option.bind_eq_some_iff.mp hstep
      split at hstep
      · rename_i hserver
        exact ⟨owner, h.command hch hserver hstep⟩
      · cases hstep
  | next l =>
      simp only [TcpTunnel.step] at hstep
      split at hstep
      · rename_i kind port c hloop
        split at hstep
        · obtain rfl := Option.some.inj hstep
          refine ⟨owner, h.setLoop fun v hv => ?_⟩
          cases kind <;> cases hv
        · cases hstep
      · cases hstep
  | read c =>
      obtain ⟨ch, hch, hstep⟩ := Option.bind_eq_some_iff.mp hstep
      split at hstep
      · rename_i hclient
        obtain ⟨ch', hread, rfl⟩ := Option.map_eq_some_iff.mp hstep
        exact ⟨owner, h.client hch (.readCommand hread) fun _ hsent ha =>
          ha.readCommand hclient hsent hread⟩
      · cases hstep
  | connect c ok =>
      obtain ⟨ch, hch, hstep⟩ := Option.bind_eq_some_iff.mp hstep
      split at hstep
      · rename_i addr hclient
        obtain rfl := Option.some.inj hstep
        refine ⟨owner, h.client hch ?_ fun _ _ ha => ha.connect hclient⟩
        cases ok with
        | false => exact .drop ch false
        | true => exact ⟨rfl, rfl, rfl, rfl, rfl, rfl, id⟩
      · cases hstep
  | pass c hop portion =>
      obtain ⟨ch, hch, hstep⟩ := Option.bind_eq_some_iff.mp hstep
      cases hop with
      | visitorToChannel => exact ⟨owner, h.serverHop hch hstep⟩
      | channelToVisitor => exact ⟨owner, h.serverHop hch hstep⟩
      | channelToContainer => exact ⟨owner, h.clientHop hch hstep⟩
      | containerToChannel => exact ⟨owner, h.clientHop hch hstep⟩
  | stopServer c =>
      obtain ⟨ch, hch, hstep⟩ := Option.bind_eq_some_iff.mp hstep
      exact ⟨owner, h.stopServer hch hstep⟩
  | stopClient c =>
      obtain ⟨ch, hch, hstep⟩ := Option.bind_eq_some_iff.mp hstep
      exact ⟨owner, h.stopClient hch hstep⟩
  | visitor v e =>
      obtain ⟨vis, hvis, hstep⟩ := Option.bind_eq_some_iff.mp hstep
      obtain ⟨p, hact, rfl⟩ := Option.map_eq_some_iff.mp hstep
      exact ⟨owner, h.peer hvis hact⟩
  | container c e =>
      obtain ⟨ch, hch, hstep⟩ := Option.bind_eq_some_iff.mp hstep
      obtain ⟨k, hk, hstep⟩ := Option.bind_eq_some_iff.mp hstep
      obtain ⟨p, hact, rfl⟩ := Option.map_eq_some_iff.mp hstep
      exact ⟨owner, h.client hch ⟨rfl, rfl, rfl, rfl, rfl, rfl, id⟩ fun _ _ ha => ha.peer hk hact⟩

/-! ### What follows -/

theorem Carries.of_ok {k : Container} (hserves : Serves b vis ch)
    (hanswers : Answers b service vis.command ch) (hk : ch.container = some k) :
    Carries vis ch k := by
  obtain ⟨-, hin, hout⟩ := hanswers.container k hk
  have hbegun : Link.Passes ch.failed 0 (writeDataCmd b vis.command) vis.inward ch.down := by
    rcases hserves.begun with ⟨-, hsent, -⟩ | ⟨-, hbegun⟩
    · have hlen := hin.skip_le
      have hnil : ch.down.received = [] := List.prefix_nil.mp (hsent ▸ ch.down.received_prefix)
      rw [hnil] at hlen
      exact absurd (List.length_eq_zero_iff.mp (Nat.le_zero.mp hlen)) (writeDataCmd_ne_nil b _)
    · exact hbegun
  have hread : vis.inward.received = k.inward.received ++ k.inward.flight ++ ch.down.flight := by
    have hpassed := hin.sent_eq
    rwa [hbegun.sent, List.drop_left, List.drop_zero, List.nil_append,
      ← k.inward.received_append_flight] at hpassed
  have hinward : vis.inward.sent =
      k.inward.received ++ k.inward.flight ++ ch.down.flight ++ vis.inward.flight := by
    rw [← hread, vis.inward.received_append_flight]
  have houtward : k.outward.sent =
      vis.outward.received ++ vis.outward.flight ++ ch.up.flight ++ k.outward.flight := by
    have hpassed := hout.sent_eq
    have hback := hserves.back.sent_eq
    rw [List.drop_zero, List.nil_append] at hpassed hback
    rw [hpassed, hback, vis.outward.received_append_flight]
  refine ⟨hinward, houtward, fun hended => ?_, fun hended => ?_⟩
  · rcases hin.closed (k.inward.all_of_ended hended).1 with hfailed | hdown
    · exact .inl hfailed
    · refine (hbegun.closed (ch.down.all_of_ended hdown).1).imp_right fun hvis => ?_
      refine ⟨(vis.inward.all_of_ended hvis).1, ?_⟩
      rw [hinward, Link.flight_of_ended hended, Link.flight_of_ended hdown,
        Link.flight_of_ended hvis, List.append_nil, List.append_nil, List.append_nil]
  · rcases hserves.back.closed (vis.outward.all_of_ended hended).1 with hfailed | hup
    · exact .inl hfailed
    · refine (hout.closed (ch.up.all_of_ended hup).1).imp_right fun hcontainer => ?_
      refine ⟨(k.outward.all_of_ended hcontainer).1, ?_⟩
      rw [houtward, Link.flight_of_ended hended, Link.flight_of_ended hup,
        Link.flight_of_ended hcontainer, List.append_nil, List.append_nil, List.append_nil]

theorem Inv.forwarded (h : Inv b service s owner) : Forwarded service s where
  container c ch k hch hk := by
    cases hv : ch.visitor with
    | none => cases (((h.ok c ch hch).unvisited hv).2.container k hk).1
    | some v =>
        obtain ⟨vis, hvis, hserves, hanswers⟩ := (h.ok c ch hch).visited v hv
        exact ⟨v, vis, rfl, hvis, (hanswers.container k hk).1, .of_ok hserves hanswers hk⟩
  channel c c' ch ch' v hch hch' hv hv' := by
    have howner := (h.channel c ch v hch hv).symm.trans (h.channel c' ch' v hch' hv')
    exact Owner.channel.inj (Option.some.inj howner)
  visitor v vis hvis hreceived := by
    have hsent : vis.outward.sent ≠ [] := fun hnil =>
      hreceived (List.prefix_nil.mp (hnil ▸ vis.outward.received_prefix))
    obtain ⟨c, hc⟩ : ∃ c, owner v = some (.channel c) := by
      by_contra hnot
      exact hsent (h.waits v vis hvis (not_exists.mp hnot)).outward
    obtain ⟨ch, hch, hv⟩ := h.served v c hc
    obtain ⟨vis₁, hvis₁, hserves, hanswers⟩ := (h.ok c ch hch).visited v hv
    obtain rfl := Option.some.inj (hvis.symm.trans hvis₁)
    cases hk : ch.container with
    | some k => exact ⟨c, ch, k, hch, hv, hk⟩
    | none =>
        have hup : ch.up.received = [] :=
          List.prefix_nil.mp ((hanswers.noContainer hk).1 ▸ ch.up.received_prefix)
        refine absurd ?_ hsent
        rw [hserves.back.sent, hup, List.drop_nil, List.nil_append]

end TcpTunnel

/-- In every run, whatever loops and channels there are and whichever of them fail. -/
theorem tcpTunnel_forwards (b : Bincode) (service : ClientService)
    (is : List TcpTunnel.Label) :
    (tcpTunnel b service).Always (TcpTunnel.Forwarded service) (tcpTunnel b service).init is := by
  have hinv : (tcpTunnel b service).Always (fun s => ∃ owner, TcpTunnel.Inv b service s owner)
      (tcpTunnel b service).init is := by
    refine Machine.always_of_step (fun s label t hs hstep => ?_) is ⟨_, TcpTunnel.inv_init⟩
    obtain ⟨owner, h⟩ := hs
    exact h.step hstep
  exact hinv.mono fun s hs => hs.elim fun _ h => h.forwarded

end Kdct
