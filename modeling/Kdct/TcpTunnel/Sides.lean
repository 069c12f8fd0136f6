/-
The two sides of a data channel.

What the server writes and reads of a channel, and what the client does, touch in the two
links only.  So there is one invariant for each side, and the steps of the other side leave
it alone (`Serves.congr`, `Answers.congr`).
-/
import Kdct.TcpTunnel

namespace Kdct

namespace TcpTunnel

/-- The server's side: nothing has been written, or the command and then what the visitor
has sent. -/
structure Serves (b : Bincode) (vis : Visitor) (ch : DataChannel) : Prop where
  taken : ch.server ≠ .opened ∧ ch.server ≠ .parked
  begun :
    (ch.server ≠ .copying ∧ ch.down.sent = [] ∧ vis.inward.received = [] ∧
      (ch.down.closed = true → ch.failed = true)) ∨
    (ch.server ≠ .claimed ∧
      Link.Passes ch.failed 0 (writeDataCmd b vis.command) vis.inward ch.down)
  back : Link.Passes ch.failed 0 [] ch.up vis.outward

/-- The server's side of a channel that no visitor has. -/
structure Unvisited (b : Bincode) (ch : DataChannel) : Prop where
  not_copying : ch.server ≠ .copying
  sent : ch.down.sent = [] ∨ ch.down.sent = writeDataCmd b .startForwardUdp
  fresh : ch.server = .opened ∨ ch.server = .parked ∨ ch.server = .claimed →
    ch.down.sent = [] ∧ ch.down.closed = false

/-- The client's side of a channel on which the command is `cmd`, if there is any. -/
structure Answers (b : Bincode) (service : ClientService) (cmd : DataChannelCmd)
    (ch : DataChannel) : Prop where
  reading : ch.client = .reading → ch.down.received = [] ∧ ch.container = none
  connecting : ∀ addr, ch.client = .connecting addr →
    ch.down.received = writeDataCmd b cmd ∧ addressOf service cmd = some addr ∧
      ch.container = none
  noContainer : ch.container = none →
    ch.up.sent = [] ∧ (ch.up.closed = true → ch.failed = true) ∧ ch.client ≠ .copying
  container : ∀ k, ch.container = some k →
    addressOf service cmd = some k.addr ∧
      Link.Passes ch.failed (writeDataCmd b cmd).length [] ch.down k.inward ∧
      Link.Passes ch.failed 0 [] k.outward ch.up

variable {b : Bincode} {service : ClientService} {cmd : DataChannelCmd} {vis vis' : Visitor}
  {ch ch' : DataChannel} {portion : Link.Portion}

/-- A peer changes only its own ends of the links. -/
theorem PeerEvent.act_cases {out inn out' inn' : Link UInt8} {e : PeerEvent}
    (h : e.act out inn = some (out', inn')) :
    out'.received = out.received ∧ out'.ended = out.ended ∧ inn'.sent = inn.sent ∧
      inn'.closed = inn.closed := by
  cases e with
  | send data =>
      obtain ⟨m, hm, heq⟩ := Option.map_eq_some_iff.mp h
      obtain ⟨rfl, rfl⟩ := Prod.mk.inj heq
      obtain ⟨-, -, hreceived, -, hended⟩ := Link.send_cases hm
      exact ⟨hreceived, hended, rfl, rfl⟩
  | close =>
      obtain ⟨rfl, rfl⟩ := Prod.mk.inj (Option.some.inj h)
      exact ⟨rfl, rfl, rfl, rfl⟩
  | receive n =>
      obtain ⟨rfl, rfl⟩ := Prod.mk.inj (Option.some.inj h)
      exact ⟨rfl, rfl, rfl, rfl⟩
  | finish =>
      obtain ⟨m, hm, heq⟩ := Option.map_eq_some_iff.mp h
      obtain ⟨rfl, rfl⟩ := Prod.mk.inj heq
      obtain ⟨hsent, -, hclosed, -⟩ := Link.finish_cases hm
      exact ⟨rfl, rfl, hsent, hclosed⟩

theorem readDataCmd_append (b : Bincode) (cmd : DataChannelCmd) (rest : Bytes) :
    readDataCmd b (writeDataCmd b cmd ++ rest) = .ok (cmd, rest) := by
  have hfits : Framing.Fits (b.dataCmd.format fun _ => true) cmd :=
    ⟨rfl, Nat.lt_of_le_of_lt (b.dataCmd_length_le cmd) (by decide)⟩
  exact (readMessage_reads b.dataCmd "data cmd" _ cmd rest).mpr (Framing.read_frame _ hfits rest)

theorem writeDataCmd_ne_nil (b : Bincode) (cmd : DataChannelCmd) : writeDataCmd b cmd ≠ [] := by
  simp [writeDataCmd, writeLenPrefixed, Framing.beU16]

/-! ### What the server does -/

/-- What the client leaves alone on a channel. -/
structure DataChannel.ClientMoves (ch ch' : DataChannel) : Prop where
  visitor : ch'.visitor = ch.visitor
  server : ch'.server = ch.server
  sent : ch'.down.sent = ch.down.sent
  closed : ch'.down.closed = ch.down.closed
  received : ch'.up.received = ch.up.received
  ended : ch'.up.ended = ch.up.ended
  failed : ch.failed = true → ch'.failed = true

/-- What the server leaves alone on a channel. -/
structure DataChannel.ServerMoves (ch ch' : DataChannel) : Prop where
  client : ch'.client = ch.client
  container : ch'.container = ch.container
  received : ch'.down.received = ch.down.received
  ended : ch'.down.ended = ch.down.ended
  sent : ch'.up.sent = ch.up.sent
  closed : ch'.up.closed = ch.up.closed
  failed : ch.failed = true → ch'.failed = true

/-- What the client does is not seen at the server but for what it sends. -/
theorem Serves.congr (h : Serves b vis ch) (hm : ch.ClientMoves ch') : Serves b vis ch' where
  taken := hm.server ▸ h.taken
  begun := by
    rcases h.begun with ⟨hcopying, hdown, hin, hwrong⟩ | ⟨hclaimed, hpasses⟩
    · exact .inl ⟨hm.server ▸ hcopying, hm.sent ▸ hdown, hin,
        fun hc => hm.failed (hwrong (hm.closed ▸ hc))⟩
    · exact .inr ⟨hm.server ▸ hclaimed,
        (hpasses.of_wrong hm.failed).congr rfl rfl hm.sent fun hc => .inr (hm.closed ▸ hc)⟩
  back := (h.back.of_wrong hm.failed).congr hm.received hm.ended rfl .inr

/-- Neither is what the visitor does. -/
theorem Serves.peer {e : PeerEvent} {inward outward : Link UInt8} (h : Serves b vis ch)
    (hact : e.act vis.inward vis.outward = some (inward, outward)) :
    Serves b { vis with inward := inward, outward := outward } ch := by
  obtain ⟨hreceived, hended, hsent, hclosed⟩ := PeerEvent.act_cases hact
  refine ⟨h.taken, ?_, h.back.congr rfl rfl hsent fun hc => .inr (hclosed ▸ hc)⟩
  rcases h.begun with ⟨hcopying, hdown, hin, hwrong⟩ | ⟨hclaimed, hpasses⟩
  · exact .inl ⟨hcopying, hdown, hreceived.trans hin, hwrong⟩
  · exact .inr ⟨hclaimed, hpasses.congr hreceived hended rfl .inr⟩

theorem Serves.command {down : Link UInt8} (h : Serves b vis ch) (hserver : ch.server = .claimed)
    (hsend : ch.down.send (writeDataCmd b vis.command) = some down) :
    Serves b vis { ch with down := down, server := .copying } := by
  obtain ⟨hopen, hsent, -, hclosed, -⟩ := Link.send_cases hsend
  rcases h.begun with ⟨-, hdown, hin, -⟩ | ⟨hclaimed, -⟩
  · refine ⟨⟨nofun, nofun⟩, .inr ⟨nofun, ?_⟩, h.back⟩
    refine ⟨Nat.zero_le _, ?_, fun hc => ?_⟩
    · rw [hsent, hdown, hin, List.nil_append, List.drop_nil, List.append_nil]
    · exact absurd (hopen.symm.trans (hclosed ▸ hc)) Bool.false_ne_true
  · exact absurd hserver hclaimed

theorem Serves.hopIn {inward down : Link UInt8} (h : Serves b vis ch)
    (hserver : ch.server = .copying)
    (hpass : Link.pass vis.inward ch.down portion = some (inward, down)) :
    Serves b { vis with inward := inward } { ch with down := down } := by
  rcases h.begun with ⟨hcopying, -⟩ | ⟨hclaimed, hpasses⟩
  · exact absurd hserver hcopying
  · exact ⟨h.taken, .inr ⟨hclaimed, hpasses.pass hpass⟩, h.back⟩

theorem Serves.hopOut {up outward : Link UInt8} (h : Serves b vis ch)
    (hpass : Link.pass ch.up vis.outward portion = some (up, outward)) :
    Serves b { vis with outward := outward } { ch with up := up } :=
  ⟨h.taken, h.begun, h.back.pass hpass⟩

/-- Both sockets close when the copying is over. -/
theorem Serves.drop {complete : Bool} (h : Serves b vis ch)
    (hcomplete : complete = true → ch.server = .copying ∧ vis.inward.ended = true ∧
      ch.up.ended = true) :
    Serves b { vis with outward := vis.outward.close } (ch.dropServer complete) := by
  have hfailed : ch.failed = true → (ch.dropServer complete).failed = true := fun hf => by
    simp [DataChannel.dropServer, hf]
  have hor : (ch.dropServer complete).failed = true ∨ complete = true := by
    cases complete <;> simp [DataChannel.dropServer]
  refine ⟨⟨nofun, nofun⟩, ?_, ?_⟩
  · rcases h.begun with ⟨hcopying, hdown, hin, -⟩ | ⟨-, hpasses⟩
    · exact .inl ⟨nofun, hdown, hin, fun _ => hor.resolve_right fun hc =>
        hcopying (hcomplete hc).1⟩
    · refine .inr ⟨nofun, hpasses.skip_le, hpasses.sent, fun _ => ?_⟩
      exact hor.imp_right fun hc => (hcomplete hc).2.1
  · exact ⟨h.back.skip_le, h.back.sent, fun _ => hor.imp_right fun hc => (hcomplete hc).2.2⟩

/-! ### What the client does -/

theorem Answers.congr (h : Answers b service cmd ch) (hm : ch.ServerMoves ch') :
    Answers b service cmd ch' where
  reading hr := by
    obtain ⟨hdown, hnone⟩ := h.reading (hm.client ▸ hr)
    exact ⟨hm.received.trans hdown, hm.container.trans hnone⟩
  connecting addr hc := by
    obtain ⟨hdown, haddr, hnone⟩ := h.connecting addr (hm.client ▸ hc)
    exact ⟨hm.received.trans hdown, haddr, hm.container.trans hnone⟩
  noContainer hnone := by
    obtain ⟨hup, hwrong, hcopying⟩ := h.noContainer (hm.container ▸ hnone)
    exact ⟨hm.sent.trans hup, fun hc => hm.failed (hwrong (hm.closed ▸ hc)),
      hm.client ▸ hcopying⟩
  container k hk := by
    obtain ⟨haddr, hin, hout⟩ := h.container k (hm.container ▸ hk)
    exact ⟨haddr, (hin.of_wrong hm.failed).congr hm.received hm.ended rfl .inr,
      (hout.of_wrong hm.failed).congr rfl rfl hm.sent fun hc => .inr (hm.closed ▸ hc)⟩

theorem Answers.drop {complete : Bool} (h : Answers b service cmd ch)
    (hcomplete : complete = true → ch.down.ended = true ∧
      ∃ k, ch.container = some k ∧ k.outward.ended = true) :
    Answers b service cmd (ch.dropClient complete) := by
  have hor : (ch.dropClient complete).failed = true ∨ complete = true := by
    cases complete <;> simp [DataChannel.dropClient]
  have hfailed : ch.failed = true → (ch.dropClient complete).failed = true := fun hf => by
    simp [DataChannel.dropClient, hf]
  refine ⟨nofun, nofun, fun hnone => ?_, fun k' hk' => ?_⟩
  · have hnone : ch.container = none := Option.map_eq_none_iff.mp hnone
    refine ⟨(h.noContainer hnone).1, fun _ => hor.resolve_right fun hc => ?_, nofun⟩
    obtain ⟨-, k, hk, -⟩ := hcomplete hc
    cases hnone.symm.trans hk
  · obtain ⟨k, hk, rfl⟩ := Option.map_eq_some_iff.mp hk'
    obtain ⟨haddr, hin, hout⟩ := h.container k hk
    refine ⟨haddr, ⟨hin.skip_le, hin.sent, fun _ => hor.imp_right fun hc => (hcomplete hc).1⟩,
      ⟨hout.skip_le, hout.sent, fun _ => hor.imp_right fun hc => ?_⟩⟩
    obtain ⟨-, k', hk', hended⟩ := hcomplete hc
    obtain rfl := Option.some.inj (hk.symm.trans hk')
    exact hended

theorem addressOf_of_runDataChannel {rest : Bytes} {addr : String}
    (h : runDataChannel b service (writeDataCmd b cmd ++ rest) = .ok (.tcp, addr)) :
    addressOf service cmd = some addr := by
  unfold runDataChannel at h
  rw [readDataCmd_append] at h
  match cmd with
  | .startForwardTcp (some port) =>
      obtain ⟨-, rfl⟩ := Prod.mk.inj (Except.ok.inj h)
      rfl
  | .startForwardTcp none =>
      dsimp only at h
      split at h
      · rename_i found haddr
        obtain ⟨-, rfl⟩ := Prod.mk.inj (Except.ok.inj h)
        exact haddr
      · cases h
  | .startForwardUdp =>
      dsimp only at h
      split at h <;> cases h

/-- The command that is read is the one that was written. -/
theorem Answers.readCommand (h : Answers b service cmd ch) (hclient : ch.client = .reading)
    (hsent : ch.down.sent = [] ∨ ∃ rest, ch.down.sent = writeDataCmd b cmd ++ rest)
    (hread : ch.readCommand b service = some ch') : Answers b service cmd ch' := by
  obtain ⟨hreceived, hnone⟩ := h.reading hclient
  obtain ⟨hup, hwrong, hcopying⟩ := h.noContainer hnone
  have hflight : ch.down.flight = ch.down.sent := by
    rw [← ch.down.received_append_flight, hreceived, List.nil_append]
  unfold DataChannel.readCommand at hread
  rw [hflight] at hread
  rcases hsent with hsent | ⟨rest, hsent⟩
  · rw [hsent] at hread
    cases hread
  · rw [hsent, readDataCmd_append] at hread
    have htaken : (ch.down.receive ((writeDataCmd b cmd ++ rest).length - rest.length)).received =
        writeDataCmd b cmd := by
      rw [Link.receive_received, hreceived, hflight, hsent, List.length_append, Nat.add_sub_cancel,
        List.take_left, List.nil_append]
    have hread' : Answers b service cmd { ch with
        client := .stopped
        down := ch.down.receive ((writeDataCmd b cmd ++ rest).length - rest.length) } :=
      ⟨nofun, nofun, fun _ => ⟨hup, hwrong, nofun⟩, fun k hk => (by cases hnone.symm.trans hk)⟩
    dsimp only at hread
    split at hread
    · rename_i addr hrun
      obtain rfl := Option.some.inj hread
      refine ⟨nofun, fun addr' haddr => ?_, fun _ => ⟨hup, hwrong, nofun⟩, hread'.container⟩
      obtain rfl := ClientEnd.connecting.inj haddr
      exact ⟨htaken, addressOf_of_runDataChannel hrun, hnone⟩
    · obtain rfl := Option.some.inj hread
      exact ⟨nofun, nofun, fun _ => ⟨hup, hwrong, nofun⟩, hread'.container⟩
    · obtain rfl := Option.some.inj hread
      exact hread'.drop nofun

theorem Answers.connect {addr : String} {ok : Bool} (h : Answers b service cmd ch)
    (hclient : ch.client = .connecting addr) : Answers b service cmd (ch.connect addr ok) := by
  obtain ⟨hreceived, haddr, hnone⟩ := h.connecting addr hclient
  cases ok with
  | false => exact h.drop nofun
  | true =>
      obtain ⟨hup, hwrong, -⟩ := h.noContainer hnone
      refine ⟨nofun, nofun, nofun, fun k hk => ?_⟩
      obtain rfl := Option.some.inj hk
      refine ⟨haddr, ⟨hreceived ▸ Nat.le_refl _, ?_, nofun⟩, ⟨Nat.le_refl _, hup, ?_⟩⟩
      · show [] = [] ++ ch.down.received.drop _
        rw [hreceived, List.drop_length, List.append_nil]
      · exact fun hc => .inl (hwrong hc)

theorem Answers.hopIn {k : Container} {down inward : Link UInt8} (h : Answers b service cmd ch)
    (hclient : ch.client = .copying) (hk : ch.container = some k)
    (hpass : Link.pass ch.down k.inward portion = some (down, inward)) :
    Answers b service cmd
      { ch with down := down, container := some { k with inward := inward } } := by
  obtain ⟨haddr, hin, hout⟩ := h.container k hk
  refine ⟨fun hr => ?_, fun addr hc => ?_, nofun, fun k' hk' => ?_⟩
  · cases hclient.symm.trans hr
  · cases hclient.symm.trans hc
  · obtain rfl := Option.some.inj hk'
    exact ⟨haddr, hin.pass hpass, hout⟩

theorem Answers.hopOut {k : Container} {up outward : Link UInt8} (h : Answers b service cmd ch)
    (hclient : ch.client = .copying) (hk : ch.container = some k)
    (hpass : Link.pass k.outward ch.up portion = some (outward, up)) :
    Answers b service cmd
      { ch with up := up, container := some { k with outward := outward } } := by
  obtain ⟨haddr, hin, hout⟩ := h.container k hk
  refine ⟨fun hr => ?_, fun addr hc => ?_, nofun, fun k' hk' => ?_⟩
  · cases hclient.symm.trans hr
  · cases hclient.symm.trans hc
  · obtain rfl := Option.some.inj hk'
    exact ⟨haddr, hin, hout.pass hpass⟩

theorem Answers.peer {k : Container} {e : PeerEvent} {outward inward : Link UInt8}
    (h : Answers b service cmd ch) (hk : ch.container = some k)
    (hact : e.act k.outward k.inward = some (outward, inward)) :
    Answers b service cmd
      { ch with container := some { k with outward := outward, inward := inward } } := by
  obtain ⟨hreceived, hended, hsent, hclosed⟩ := PeerEvent.act_cases hact
  obtain ⟨haddr, hin, hout⟩ := h.container k hk
  refine ⟨fun hr => ?_, fun addr hc => ?_, nofun, fun k' hk' => ?_⟩
  · cases hk.symm.trans (h.reading hr).2
  · cases hk.symm.trans (h.connecting addr hc).2.2
  · obtain rfl := Option.some.inj hk'
    exact ⟨haddr, hin.congr rfl rfl hsent fun hc => .inr (hclosed ▸ hc),
      hout.congr hreceived hended rfl .inr⟩

end TcpTunnel

end Kdct
