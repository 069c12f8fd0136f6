/-
A UDP port from its visitors to the service behind a client.

The loop that `spawn_port_udp_loop` (`crates/tunnel/src/server.rs`) spawns has one socket
and one data channel: what visitors send goes down the channel with the visitor's address
in front, and what comes back goes to the address it names.  At the other end are the
sessions of `UdpSessions`.  The channel is a stream of bytes in each direction, and a
write that fails leaves a part of a datagram on it and ends its writer.

`forwards_in_order` and `replies_in_order` follow the payloads of one visitor through all of
it, in runs in which sockets and writers may fail and forwarders time out.  Datagrams get
lost, but none reaches the service from another visitor's socket, twice, or before one
that was sent earlier, and no visitor gets a reply to another.
-/
import Kdct.Client.UdpFlow
import Kdct.Lib.Flow

namespace Kdct

/-! ## Streams of datagrams -/

namespace UdpTraffic

variable {stream rest more : Bytes} {t : UdpTraffic} {whole : Bool}

/-- Whole datagrams and a part of one, which is empty as long as the writer runs. -/
def Framed (stream : Bytes) (whole : Bool) : Prop :=
  ∃ (ts : List UdpTraffic) (tail : Bytes), (∀ t ∈ ts, t.Sendable) ∧
    stream = ts.flatMap write ++ tail ∧ next tail = none ∧ (whole = true → tail = [])

/-- The datagrams that are whole. -/
def carried (stream : Bytes) : List UdpTraffic := (readLoop stream).1

theorem carried_of_none (h : next stream = none) : carried stream = [] := by
  unfold carried
  rw [readLoop]
  split
  · rfl
  · rename_i hsome
    rw [h] at hsome
    cases hsome

theorem carried_of_next (h : next stream = some (t, rest)) :
    carried stream = t :: carried rest := by
  unfold carried
  rw [readLoop]
  split
  · rename_i hnone
    rw [h] at hnone
    cases hnone
  · rename_i hsome
    rw [h] at hsome
    obtain ⟨rfl, rfl⟩ := Prod.mk.inj (Option.some.inj hsome)
    rfl

theorem Sendable.next_write (ht : t.Sendable) (rest : Bytes) :
    next (t.write ++ rest) = some (t, rest) := by
  rw [UdpTraffic.next_write ht.2, delivered_of_plain ht.1]

theorem carried_flatMap_write {ts : List UdpTraffic} (hts : ∀ t ∈ ts, t.Sendable)
    {tail : Bytes} (htail : next tail = none) : carried (ts.flatMap write ++ tail) = ts := by
  induction ts with
  | nil => exact carried_of_none htail
  | cons t ts ih =>
      have hnext := (hts t List.mem_cons_self).next_write (ts.flatMap write ++ tail)
      rw [List.flatMap_cons, List.append_assoc, carried_of_next hnext,
        ih fun u hu => hts u (List.mem_cons_of_mem t hu)]

/-- What is read does not depend on what is written later. -/
theorem next_append (h : next stream = some (t, rest)) (more : Bytes) :
    next (stream ++ more) = some (t, rest ++ more) := by
  cases stream with
  | nil => cases h
  | cons hdrLen reader =>
      obtain ⟨⟨buf, mid⟩, hbuf, h⟩ := Option.bind_eq_some_iff.mp h
      obtain ⟨hdr, hhdr, h⟩ := Option.bind_eq_some_iff.mp h
      obtain ⟨⟨data, back⟩, hdata, h⟩ := Option.bind_eq_some_iff.mp h
      obtain ⟨rfl, rfl⟩ := Prod.mk.inj (Option.some.inj h)
      obtain ⟨hbufLen, rfl⟩ := Codec.takeExact_eq_some hbuf
      obtain ⟨hdataLen, rfl⟩ := Codec.takeExact_eq_some hdata
      simp only [next, List.cons_append, read, List.append_assoc, Codec.takeExact_append hbufLen,
        Codec.takeExact_append hdataLen, hhdr, Option.bind_eq_bind, Option.bind_some]

/-- A part of a datagram is not read as one. -/
theorem Sendable.next_take (ht : t.Sendable) {n : Nat} (hn : n < t.write.length) :
    next (t.write.take n) = none := by
  cases hnext : next (t.write.take n) with
  | none => rfl
  | some p =>
      have hwhole := next_append hnext (t.write.drop n)
      have hwrite := ht.next_write []
      rw [List.take_append_drop] at hwhole
      rw [List.append_nil, hwhole] at hwrite
      have hrest : p.2 ++ t.write.drop n = [] := (Prod.mk.inj (Option.some.inj hwrite)).2
      have hdrop := congrArg List.length (List.append_eq_nil_iff.mp hrest).2
      rw [List.length_drop, List.length_nil] at hdrop
      omega

theorem framed_nil : Framed [] true := ⟨[], [], by simp, rfl, rfl, fun _ => rfl⟩

theorem Framed.carried_eq (h : Framed stream whole) :
    ∃ tail, (∀ t ∈ carried stream, t.Sendable) ∧ stream = (carried stream).flatMap write ++ tail ∧
      next tail = none ∧ (whole = true → tail = []) := by
  obtain ⟨ts, tail, hts, rfl, htail, hwhole⟩ := h
  rw [carried_flatMap_write hts htail]
  exact ⟨tail, hts, rfl, htail, hwhole⟩

/-- A datagram is written. -/
theorem Framed.write (h : Framed stream true) (ht : t.Sendable) :
    Framed (stream ++ t.write) true ∧ carried (stream ++ t.write) = carried stream ++ [t] := by
  obtain ⟨tail, hts, hstream, -, hwhole⟩ := h.carried_eq
  obtain rfl := hwhole rfl
  have hall : ∀ u ∈ carried stream ++ [t], u.Sendable := by
    intro u hu
    rcases List.mem_append.mp hu with hu | hu
    · exact hts u hu
    · exact List.mem_singleton.mp hu ▸ ht
  have heq : stream ++ t.write = (carried stream ++ [t]).flatMap UdpTraffic.write ++ [] := by
    rw [List.flatMap_append, List.flatMap_singleton, List.append_nil]
    exact congrArg (· ++ t.write) (hstream.trans (List.append_nil _))
  exact ⟨⟨carried stream ++ [t], [], hall, heq, rfl, fun _ => rfl⟩,
    heq ▸ carried_flatMap_write hall rfl⟩

/-- A part of a datagram is written, and the writer ends. -/
theorem Framed.cut (h : Framed stream true) (ht : t.Sendable) {n : Nat}
    (hn : n < t.write.length) :
    Framed (stream ++ t.write.take n) false ∧
      carried (stream ++ t.write.take n) = carried stream := by
  obtain ⟨tail, hts, hstream, -, hwhole⟩ := h.carried_eq
  obtain rfl := hwhole rfl
  have htail := ht.next_take hn
  have heq : stream ++ t.write.take n =
      (carried stream).flatMap UdpTraffic.write ++ t.write.take n :=
    congrArg (· ++ t.write.take n) (hstream.trans (List.append_nil _))
  exact ⟨⟨carried stream, _, hts, heq, htail, fun hfalse => by cases hfalse⟩,
    heq ▸ carried_flatMap_write hts htail⟩

/-- The writer ends between two datagrams. -/
theorem Framed.stop (h : Framed stream whole) : Framed stream false := by
  obtain ⟨ts, tail, hts, heq, htail, -⟩ := h
  exact ⟨ts, tail, hts, heq, htail, fun hfalse => by cases hfalse⟩

/-- A datagram is read. -/
theorem Framed.next (h : Framed stream whole) (hnext : next stream = some (t, rest)) :
    Framed rest whole ∧ carried stream = t :: carried rest ∧ t.Sendable := by
  obtain ⟨ts, tail, hts, rfl, htail, hwhole⟩ := h
  cases ts with
  | nil => cases htail.symm.trans hnext
  | cons u ts =>
      have hu := (hts u List.mem_cons_self).next_write (ts.flatMap UdpTraffic.write ++ tail)
      rw [List.flatMap_cons, List.append_assoc] at hnext
      obtain ⟨rfl, rfl⟩ := Prod.mk.inj (Option.some.inj (hu.symm.trans hnext))
      refine ⟨⟨ts, tail, fun v hv => hts v (List.mem_cons_of_mem _ hv), rfl, htail, hwhole⟩, ?_,
        hts u List.mem_cons_self⟩
      rw [List.flatMap_cons, List.append_assoc, carried_of_next hu]

end UdpTraffic

/-! ## The two ends -/

namespace UdpTunnel

open UdpTraffic (carried Framed)
open UdpSessions (payloads udpBufferSize)

structure State where
  /-- Whether the server's loop runs. -/
  relays : Bool
  client : UdpSessions.State
  /-- What the server has written and the client has not read. -/
  up : Bytes
  /-- What the client has written and the server has not read. -/
  down : Bytes

def State.init : State := ⟨true, .init, [], []⟩

inductive Label
  /-- `recv_from` and `write_slice`. -/
  | visitor (source : SocketAddrV4) (data : Bytes)
  /-- The write fails behind some bytes, and the loop ends. -/
  | visitorFails (source : SocketAddrV4) (data : Bytes) (written : Nat)
  /-- The client's loop reads a datagram. -/
  | receive
  | client (label : UdpSessions.Label)
  | writeOut
  | writeFails (written : Nat)
  /-- The server's loop reads a datagram and sends it on. -/
  | reply
  /-- A shutdown, or an error of the socket or the channel. -/
  | relayEnds

/-- What `recv_from` makes of a visitor's datagram. -/
def received (source : SocketAddrV4) (data : Bytes) : UdpTraffic :=
  ⟨.v4 source, data.take udpBufferSize⟩

def step (s : State) : Label → Option State
  | .visitor source data =>
      let t := received source data
      if s.relays then some { s with up := s.up ++ UdpTraffic.writeSlice t.source t.data } else none
  | .visitorFails source data written =>
      let t := received source data
      let bytes := UdpTraffic.writeSlice t.source t.data
      if s.relays ∧ written < bytes.length then
        some { s with up := s.up ++ bytes.take written, relays := false }
      else none
  | .receive =>
      (UdpTraffic.next s.up).bind fun (packet, rest) =>
        (UdpSessions.step s.client (.receive packet)).map fun c =>
        { s with client := c, up := rest }
  | .client label =>
      match label with
      | .receive _ | .writeOut _ => none
      | label => (UdpSessions.step s.client label).map fun c => { s with client := c }
  | .writeOut =>
      s.client.outbound.head?.bind fun t =>
        (UdpSessions.step s.client (.writeOut true)).map fun c =>
          { s with client := c, down := s.down ++ t.write }
  | .writeFails written =>
      s.client.outbound.head?.bind fun t =>
        if written < t.write.length then
          (UdpSessions.step s.client (.writeOut false)).map fun c =>
            { s with client := c, down := s.down ++ t.write.take written }
        else none
  | .reply =>
      if s.relays then (UdpTraffic.next s.down).map fun (_, rest) => { s with down := rest }
      else none
  | .relayEnds => some { s with relays := false }

def machine : Machine State Label := ⟨State.init, step⟩

/-! ## What goes in and what comes out -/

/-- The payload of the peer that the server puts on the channel. -/
def sentBy (peer : SocketAddr) (_ : State) : Label → Option Bytes
  | .visitor source data => (payloads peer [received source data]).head?
  | _ => none

/-- The payload of the peer that its forwarder sends to the service. -/
def delivered (peer : SocketAddr) (s : State) : Label → Option Bytes
  | .client label => UdpSessions.delivered peer s.client label
  | _ => none

/-- The payload that the service sends to the peer's forwarder. -/
def answered (peer : SocketAddr) (s : State) : Label → Option Bytes
  | .client label => UdpSessions.answered peer s.client label
  | _ => none

/-- The payload that the server sends to the peer. -/
def replied (peer : SocketAddr) (s : State) : Label → Option Bytes
  | .reply => (UdpTraffic.next s.down).bind fun p => (payloads peer [p.1]).head?
  | _ => none

theorem received_sendable (source : SocketAddrV4) (data : Bytes) :
    (received source data).Sendable :=
  ⟨trivial, Nat.le_trans (List.length_take_le udpBufferSize data) (by decide)⟩

variable {s t : State} {label : Label} {peer : SocketAddr}

/-- The steps of the tunnel. -/
inductive Step (s : State) : Label → State → Prop
  | visitor {source data} (hrelays : s.relays = true) :
      Step s (.visitor source data) { s with up := s.up ++ (received source data).write }
  | visitorFails {source data written} (hrelays : s.relays = true)
      (hwritten : written < (received source data).write.length) :
      Step s (.visitorFails source data written)
        { s with up := s.up ++ (received source data).write.take written, relays := false }
  | receive {packet rest c} (hnext : UdpTraffic.next s.up = some (packet, rest))
      (hstep : UdpSessions.step s.client (.receive packet) = some c) :
      Step s .receive { s with client := c, up := rest }
  | client {label c} (hreceive : label.received? = none) (hwrite : ∀ ok, label ≠ .writeOut ok)
      (hstep : UdpSessions.step s.client label = some c) :
      Step s (.client label) { s with client := c }
  | writeOut {u outbound c} (houtbound : s.client.outbound = u :: outbound)
      (hruns : s.client.writerRuns = true)
      (hstep : UdpSessions.step s.client (.writeOut true) = some c)
      (hc : c = { s.client with outbound := outbound, writerRuns := true }) :
      Step s .writeOut { s with client := c, down := s.down ++ u.write }
  | writeFails {u outbound c written} (houtbound : s.client.outbound = u :: outbound)
      (hruns : s.client.writerRuns = true) (hwritten : written < u.write.length)
      (hstep : UdpSessions.step s.client (.writeOut false) = some c)
      (hc : c = { s.client with outbound := [], writerRuns := false }) :
      Step s (.writeFails written) { s with client := c, down := s.down ++ u.write.take written }
  | reply {u rest} (hnext : UdpTraffic.next s.down = some (u, rest)) :
      Step s .reply { s with down := rest }
  | relayEnds : Step s .relayEnds { s with relays := false }

theorem step_cases (h : step s label = some t) : Step s label t := by
  cases label with
  | visitor source data =>
      simp only [step] at h
      split at h
      · rename_i hrelays
        exact Option.some.inj h ▸ .visitor hrelays
      · cases h
  | visitorFails source data written =>
      simp only [step] at h
      split at h
      · rename_i hwritten
        exact Option.some.inj h ▸ .visitorFails hwritten.1 hwritten.2
      · cases h
  | receive =>
      obtain ⟨⟨packet, rest⟩, hnext, h⟩ := Option.bind_eq_some_iff.mp h
      obtain ⟨c, hstep, rfl⟩ := Option.map_eq_some_iff.mp h
      exact .receive hnext hstep
  | client label =>
      cases label with
      | receive packet => cases h
      | writeOut ok => cases h
      | _ =>
          obtain ⟨c, hstep, rfl⟩ := Option.map_eq_some_iff.mp h
          exact .client rfl (fun ok heq => by cases heq) hstep
  | writeOut =>
      obtain ⟨u, hu, h⟩ := Option.bind_eq_some_iff.mp h
      obtain ⟨c, hstep, rfl⟩ := Option.map_eq_some_iff.mp h
      obtain hloop | ⟨_, _, _, heq, _⟩ | ⟨ok, v, outbound, heq, houtbound, hruns, hc⟩ :=
        UdpSessions.step_cases hstep
      · cases hloop
      · cases heq
      · cases heq
        rw [houtbound] at hu
        obtain rfl := Option.some.inj hu
        exact .writeOut houtbound hruns hstep hc
  | writeFails written =>
      obtain ⟨u, hu, h⟩ := Option.bind_eq_some_iff.mp h
      split at h
      · rename_i hwritten
        obtain ⟨c, hstep, rfl⟩ := Option.map_eq_some_iff.mp h
        obtain hloop | ⟨_, _, _, heq, _⟩ | ⟨ok, v, outbound, heq, houtbound, hruns, hc⟩ :=
          UdpSessions.step_cases hstep
        · cases hloop
        · cases heq
        · cases heq
          rw [houtbound] at hu
          obtain rfl := Option.some.inj hu
          exact .writeFails houtbound hruns hwritten hstep hc
      · cases h
  | reply =>
      simp only [step] at h
      split at h
      · obtain ⟨⟨u, rest⟩, hnext, rfl⟩ := Option.map_eq_some_iff.mp h
        exact .reply hnext
      · cases h
  | relayEnds => exact Option.some.inj h ▸ .relayEnds

/-! ## The invariant -/

structure Inv (s : State) : Prop where
  up : Framed s.up s.relays
  down : Framed s.down s.client.writerRuns
  routed : s.client.Routed
  sendable : s.client.Sendable

theorem inv_init : Inv State.init where
  up := UdpTraffic.framed_nil
  down := UdpTraffic.framed_nil
  routed := ⟨nofun, nofun, nofun, nofun⟩
  sendable := ⟨nofun, nofun, nofun, nofun⟩

theorem inv_step (hI : Inv s) (h : step s label = some t) : Inv t := by
  cases step_cases h with
  | @visitor source data hrelays =>
      have hwhole : Framed s.up true := hrelays ▸ hI.up
      refine { hI with up := ?_ }
      rw [hrelays]
      exact (hwhole.write (received_sendable source data)).1
  | @visitorFails source data written hrelays hwritten =>
      have hwhole : Framed s.up true := hrelays ▸ hI.up
      exact { hI with up := (hwhole.cut (received_sendable source data) hwritten).1 }
  | @receive packet rest c hnext hstep =>
      obtain ⟨hrest, -, hpacket⟩ := hI.up.next hnext
      refine ⟨hrest, ?_, hI.routed.step hstep, hI.sendable.step ?_ hstep⟩
      · rw [UdpSessions.writerRuns_of_step hstep nofun]
        exact hI.down
      · intro p hp
        obtain rfl := Option.some.inj hp
        exact hpacket.1
  | @client label c hreceive hwrite hstep =>
      refine ⟨hI.up, ?_, hI.routed.step hstep, hI.sendable.step ?_ hstep⟩
      · rw [UdpSessions.writerRuns_of_step hstep hwrite]
        exact hI.down
      · intro p hp
        rw [hreceive] at hp
        cases hp
  | @writeOut u outbound c houtbound hruns hstep hc =>
      have hwhole : Framed s.down true := hruns ▸ hI.down
      have hu : u.Sendable := hI.sendable.outbound u (houtbound ▸ List.mem_cons_self)
      refine ⟨hI.up, ?_, hI.routed.step hstep, hI.sendable.step (fun p hp => by cases hp) hstep⟩
      rw [hc]
      exact (hwhole.write hu).1
  | @writeFails u outbound c written houtbound hruns hwritten hstep hc =>
      have hwhole : Framed s.down true := hruns ▸ hI.down
      have hu : u.Sendable := hI.sendable.outbound u (houtbound ▸ List.mem_cons_self)
      refine ⟨hI.up, ?_, hI.routed.step hstep, hI.sendable.step (fun p hp => by cases hp) hstep⟩
      rw [hc]
      exact (hwhole.cut hu hwritten).1
  | reply hnext => exact { hI with down := (hI.down.next hnext).1 }
  | relayEnds => exact { hI with up := hI.up.stop }

/-! ## From the visitors to the service -/

/-- The payloads of a visitor on their way to the service. -/
def onTheWayUp (peer : SocketAddr) (s : State) : List Bytes :=
  s.client.inward peer ++ payloads peer (carried s.up)

/-- The replies to a visitor on their way back. -/
def onTheWayDown (peer : SocketAddr) (s : State) : List Bytes :=
  payloads peer (carried s.down) ++ s.client.outward peer

/-- A peer takes a datagram or leaves it. -/
theorem toList_head?_payloads (peer : SocketAddr) (u : UdpTraffic) :
    (payloads peer [u]).head?.toList = payloads peer [u] := by
  unfold payloads
  rw [List.filter_cons]
  split <;> rfl

theorem up_step (hI : Inv s) (h : step s label = some t) :
    ((delivered peer s label).toList ++ onTheWayUp peer t).Sublist
      (onTheWayUp peer s ++ (sentBy peer s label).toList) := by
  have hclient : ∀ {label c}, UdpSessions.step s.client label = some c →
      ((UdpSessions.delivered peer s.client label).toList ++ c.inward peer).Sublist
        (s.client.inward peer ++ payloads peer label.received?.toList) :=
    fun hstep => hI.routed.inward_step hstep
  unfold onTheWayUp
  cases step_cases h with
  | @visitor source data hrelays =>
      have hwhole : Framed s.up true := hrelays ▸ hI.up
      rw [(hwhole.write (received_sendable source data)).2, UdpSessions.payloads_append,
        sentBy, toList_head?_payloads, List.append_assoc (s.client.inward peer)]
      exact List.Sublist.refl _
  | @visitorFails source data written hrelays hwritten =>
      have hwhole : Framed s.up true := hrelays ▸ hI.up
      rw [(hwhole.cut (received_sendable source data) hwritten).2]
      exact List.sublist_append_left _ _
  | @receive packet rest c hnext hstep =>
      have hsub := (hclient hstep).append_right (payloads peer (carried rest))
      rw [List.append_assoc (s.client.inward peer)] at hsub
      rw [UdpTraffic.carried_of_next hnext, UdpSessions.payloads_cons]
      exact hsub.trans (List.sublist_append_left _ _)
  | @client label c hreceive _ hstep =>
      have hsub := hclient hstep
      rw [hreceive] at hsub
      have hsub := hsub.append_right (payloads peer (carried s.up))
      rw [List.append_assoc, List.append_assoc] at hsub
      exact hsub.trans (List.sublist_append_left _ _)
  | writeOut _ _ hstep | writeFails _ _ _ hstep =>
      have hsub := (hclient hstep).append_right (payloads peer (carried s.up))
      rw [List.append_assoc (s.client.inward peer)] at hsub
      exact hsub.trans (List.sublist_append_left _ _)
  | reply | relayEnds => exact List.sublist_append_left _ _

theorem down_step (hI : Inv s) (h : step s label = some t) :
    ((replied peer s label).toList ++ onTheWayDown peer t).Sublist
      (onTheWayDown peer s ++ (answered peer s label).toList) := by
  unfold onTheWayDown
  cases step_cases h with
  | visitor | visitorFails | relayEnds => exact List.sublist_append_left _ _
  | @receive packet rest c hnext hstep =>
      have hout : (c.outward peer).Sublist _ := hI.routed.outward_step hstep nofun
      have hsub := hout.append_left (payloads peer (carried s.down))
      rw [← List.append_assoc] at hsub
      exact hsub
  | @client label c _ hwrite hstep =>
      have hout : (c.outward peer).Sublist _ := hI.routed.outward_step hstep hwrite
      have hsub := hout.append_left (payloads peer (carried s.down))
      rw [← List.append_assoc] at hsub
      exact hsub
  | @writeOut u outbound c houtbound hruns hstep hc =>
      have hwhole : Framed s.down true := hruns ▸ hI.down
      have hu : u.Sendable := hI.sendable.outbound u (houtbound ▸ List.mem_cons_self)
      have hout : s.client.outward peer = payloads peer [u] ++ c.outward peer := by
        unfold UdpSessions.State.outward
        rw [houtbound, UdpSessions.payloads_cons, hc, List.append_assoc]
        rfl
      rw [(hwhole.write hu).2, UdpSessions.payloads_append, hout, List.append_assoc]
      exact List.sublist_append_left _ _
  | @writeFails u outbound c written houtbound hruns hwritten hstep hc =>
      have hwhole : Framed s.down true := hruns ▸ hI.down
      have hu : u.Sendable := hI.sendable.outbound u (houtbound ▸ List.mem_cons_self)
      have hout : (c.outward peer).Sublist (s.client.outward peer) := by
        unfold UdpSessions.State.outward
        rw [hc]
        exact List.Sublist.append_right (List.nil_sublist _) _
      rw [(hwhole.cut hu hwritten).2]
      exact (hout.append_left _).trans (List.sublist_append_left _ _)
  | @reply u rest hnext =>
      rw [UdpTraffic.carried_of_next hnext, UdpSessions.payloads_cons, replied, hnext,
        Option.bind_some, toList_head?_payloads, ← List.append_assoc]
      exact List.sublist_append_left _ _

/-! ## Every run -/

theorem inv_run (labels : List Label) : machine.Always Inv machine.init labels :=
  Machine.always_of_step (fun _ _ _ hI h => inv_step hI h) labels inv_init

theorem onTheWayUp_init (peer : SocketAddr) : onTheWayUp peer State.init = [] := by
  unfold onTheWayUp
  rw [show State.init.up = [] from rfl, UdpTraffic.carried_of_none rfl]
  rfl

theorem onTheWayDown_init (peer : SocketAddr) : onTheWayDown peer State.init = [] := by
  unfold onTheWayDown
  rw [show State.init.down = [] from rfl, UdpTraffic.carried_of_none rfl]
  rfl

/-- In every run the service gets from a visitor's socket a part of what the visitor has
sent, in the order it was sent and nothing twice. -/
theorem forwards_in_order (peer : SocketAddr) (labels : List Label) :
    (machine.records (delivered peer) machine.init labels).Sublist
      (machine.records (sentBy peer) machine.init labels) := by
  have hsub := Machine.records_sublist (M := machine) (onTheWayUp peer)
    (fun _ _ _ hI h => inv_step hI h) (fun _ _ _ hI h => up_step hI h) inv_init labels
  rwa [onTheWayUp_init, List.nil_append] at hsub

/-- In every run a visitor gets a part of what the service has sent to its socket, in the
order it was sent and nothing twice. -/
theorem replies_in_order (peer : SocketAddr) (labels : List Label) :
    (machine.records (replied peer) machine.init labels).Sublist
      (machine.records (answered peer) machine.init labels) := by
  have hsub := Machine.records_sublist (M := machine) (onTheWayDown peer)
    (fun _ _ _ hI h => inv_step hI h) (fun _ _ _ hI h => down_step hI h) inv_init labels
  rwa [onTheWayDown_init, List.nil_append] at hsub

/-- In every state of every run at most one forwarder of each peer has not ended, and both
streams are whole datagrams up to a part of one behind which nothing is written. -/
theorem one_forwarder (labels : List Label) :
    machine.Always (fun s => s.client.OneForwarder ∧ Framed s.up s.relays ∧
      Framed s.down s.client.writerRuns) machine.init labels :=
  (inv_run labels).mono fun _ hI => ⟨hI.routed.oneForwarder, hI.up, hI.down⟩

end UdpTunnel

end Kdct
