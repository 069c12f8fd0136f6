/-
A visitor of a TCP port and the container behind a client.

The tasks are the accept loops and the UDP loops of one control channel, the pool of the
service's own listener (`crates/tunnel/src/server.rs`) and the client's data channels
(`crates/tunnel/src/client.rs`).  A loop registers a callback for the visitor it has accepted,
and whatever channel arrives next goes to the oldest callback.  Its task writes a command on
the channel, and from then on both sides only copy, until both directions have ended or
something fails.

The bytes of a visitor go over three links, to the server, over the data channel and to the
container, and come back over three more.  `Forwarded` says of every container that it is the
one the visitor's port stands for and that it is alone with this visitor, and accounts for
every byte in both directions.
-/
import Kdct.Client.Forwarding
import Kdct.Lib.Link

namespace Kdct

namespace TcpTunnel

abbrev VisitorId := Nat

abbrev ChannelId := Nat

abbrev LoopId := Nat

/-! ## The ends -/

structure Visitor where
  /-- The client port of the loop that accepted it, and none on the service's own listener. -/
  port : Option Port
  inward : Link UInt8
  outward : Link UInt8

def Visitor.new (port : Option Port) : Visitor := ⟨port, .empty, .empty⟩

/-- The connection that the client makes for a channel. -/
structure Container where
  addr : String
  inward : Link UInt8
  outward : Link UInt8

/-- What the other end of a connection does with it. -/
inductive PeerEvent
  | send (data : Bytes)
  | close
  | receive (n : Nat)
  | finish

/-- The links are the one that the peer writes to and the one that it reads from. -/
def PeerEvent.act (out inn : Link UInt8) : PeerEvent → Option (Link UInt8 × Link UInt8)
  | .send data => (out.send data).map fun out => (out, inn)
  | .close => some (out.close, inn)
  | .receive n => some (out, inn.receive n)
  | .finish => inn.finish.map fun inn => (out, inn)

/-! ## Data channels -/

/-- Where the server has a data channel. -/
inductive ServerEnd
  /-- On its way to `do_data_channel_handshake`. -/
  | opened
  /-- In the pool of the service. -/
  | parked
  /-- A task has it and writes the command next. -/
  | claimed
  | copying
  /-- A UDP loop has it. -/
  | datagrams
  | stopped
  deriving DecidableEq

/-- Where `run_data_channel` is. -/
inductive ClientEnd
  | reading
  | connecting (addr : String)
  | copying
  | datagrams (addr : String)
  | stopped
  deriving DecidableEq

structure DataChannel where
  down : Link UInt8
  up : Link UInt8
  server : ServerEnd
  /-- The visitor of the task that took it. -/
  visitor : Option VisitorId
  client : ClientEnd
  container : Option Container
  /-- One of its sides ended before both directions had. -/
  failed : Bool

namespace DataChannel

def new : DataChannel := ⟨.empty, .empty, .opened, none, .reading, none, false⟩

/-- The server's side ends, and its sockets close. -/
def dropServer (ch : DataChannel) (complete : Bool) : DataChannel :=
  { ch with server := .stopped, down := ch.down.close, failed := ch.failed || !complete }

/-- The client's side ends, and its sockets close. -/
def dropClient (ch : DataChannel) (complete : Bool) : DataChannel :=
  { ch with
    client := .stopped
    up := ch.up.close
    container := ch.container.map fun k => { k with inward := k.inward.close }
    failed := ch.failed || !complete }

/-- `run_data_channel` reads its command, once the whole of it is there. -/
def readCommand (b : Bincode) (service : ClientService) (ch : DataChannel) :
    Option DataChannel :=
  match readDataCmd b ch.down.flight with
  | .error _ => none
  | .ok (_, rest) =>
      let read := { ch with down := ch.down.receive (ch.down.flight.length - rest.length) }
      match runDataChannel b service ch.down.flight with
      | .ok (.tcp, addr) => some { read with client := .connecting addr }
      | .ok (.udp, addr) => some { read with client := .datagrams addr }
      | .error _ => some (read.dropClient false)

/-- `TcpStream::connect`. -/
def connect (ch : DataChannel) (addr : String) (ok : Bool) : DataChannel :=
  if ok then { ch with client := .copying, container := some ⟨addr, .empty, .empty⟩ }
  else ch.dropClient false

end DataChannel

/-! ## The tasks -/

/-- Where a loop is. -/
inductive Phase
  | idle
  /-- It has sent its request; a UDP loop has no visitor. -/
  | asking (visitor : Option VisitorId)
  /-- It has registered its callback. -/
  | waiting (visitor : Option VisitorId)
  | serving (channel : ChannelId)
  | ended
  deriving DecidableEq

/-- The visitor that a loop keeps waiting. -/
def Phase.visitor : Phase → Option VisitorId
  | .asking v => v
  | .waiting v => v
  | _ => none

structure Loop where
  kind : LoopKind
  port : Port
  phase : Phase

structure State where
  visitors : VisitorId → Option Visitor
  channels : ChannelId → Option DataChannel
  loops : LoopId → Option Loop
  /-- `port_data_callbacks`, the oldest first. -/
  callbacks : List LoopId
  /-- `data_ch_rx` of the pool. -/
  parked : List ChannelId
  /-- `visitor_rx` of the pool. -/
  queue : List VisitorId

/-- The four places where bytes are copied from one connection to the next. -/
inductive Hop
  | visitorToChannel
  | channelToContainer
  | containerToChannel
  | channelToVisitor
  deriving DecidableEq

inductive Label
  | spawn (l : LoopId) (kind : LoopKind) (port : Port)
  /-- A TCP loop accepts a visitor and asks for a channel. -/
  | accept (l : LoopId) (v : VisitorId)
  /-- A UDP loop has its socket and asks for a channel. -/
  | bind (l : LoopId)
  | register (l : LoopId)
  /-- The service's own listener accepts a visitor. -/
  | listen (v : VisitorId)
  /-- The client opens a data channel. -/
  | opens (c : ChannelId)
  | handshake (c : ChannelId)
  /-- The pool writes its command on the next channel, for the next visitor. -/
  | pool (written : Bool)
  /-- A loop writes its command. -/
  | command (c : ChannelId) (written : Bool)
  /-- A loop is done with its channel. -/
  | next (l : LoopId)
  | read (c : ChannelId)
  | connect (c : ChannelId) (ok : Bool)
  | pass (c : ChannelId) (hop : Hop) (portion : Link.Portion)
  /-- The copying ends or fails at the server. -/
  | stopServer (c : ChannelId)
  /-- The copying ends or fails at the client. -/
  | stopClient (c : ChannelId)
  | visitor (v : VisitorId) (e : PeerEvent)
  | container (c : ChannelId) (e : PeerEvent)

namespace State

def init : State := ⟨fun _ => none, fun _ => none, fun _ => none, [], [], []⟩

variable (s : State)

def setVisitor (v : VisitorId) (vis : Visitor) : State :=
  { s with visitors := Function.update s.visitors v (some vis) }

def setChannel (c : ChannelId) (ch : DataChannel) : State :=
  { s with channels := Function.update s.channels c (some ch) }

def setLoop (l : LoopId) (loop : Loop) : State :=
  { s with loops := Function.update s.loops l (some loop) }

end State

section Steps

variable (b : Bincode) (service : ClientService) (s : State)

/-- The oldest callback gets the channel, and without one the pool. -/
def stepHandshake (c : ChannelId) (ch : DataChannel) : State :=
  match s.callbacks with
  | [] => { s.setChannel c { ch with server := .parked } with parked := s.parked ++ [c] }
  | l :: callbacks =>
      let s := { s with callbacks := callbacks }
      match s.loops l with
      | some ⟨kind, port, .waiting v⟩ =>
          (s.setChannel c { ch with server := .claimed, visitor := v }).setLoop l
            ⟨kind, port, .serving c⟩
      -- Nobody waits for the callback, and the channel is dropped with it.
      | _ => s.setChannel c (ch.dropServer false)

/-- A visitor for whom the command cannot be written waits for the next channel. -/
def stepPool (written : Bool) : Option State :=
  match s.queue, s.parked with
  | v :: queue, c :: parked =>
      match s.visitors v, s.channels c with
      | some vis, some ch =>
          if written then
            (ch.down.send (writeDataCmd b (.startForwardTcp vis.port))).map fun down =>
              { s.setChannel c { ch with down := down, server := .copying, visitor := some v } with
                queue := queue, parked := parked }
          else some { s.setChannel c (ch.dropServer false) with parked := parked }
      | _, _ => none
  | _, _ => none

/-- A loop that cannot write its command drops the channel and its visitor. -/
def stepCommand (c : ChannelId) (ch : DataChannel) (written : Bool) : Option State :=
  match ch.visitor with
  | none =>
      if written then
        (ch.down.send (writeDataCmd b .startForwardUdp)).map fun down =>
          s.setChannel c { ch with down := down, server := .datagrams }
      else some (s.setChannel c (ch.dropServer false))
  | some v =>
      match s.visitors v with
      | none => none
      | some vis =>
          if written then
            (ch.down.send (writeDataCmd b (.startForwardTcp vis.port))).map fun down =>
              s.setChannel c { ch with down := down, server := .copying }
          else
            some ((s.setChannel c (ch.dropServer false)).setVisitor v
              { vis with outward := vis.outward.close })

/-- `copy_bidirectional` at the server. -/
def stepServerHop (c : ChannelId) (ch : DataChannel) (inward : Bool) (portion : Link.Portion) :
    Option State :=
  match ch.server, ch.visitor with
  | .copying, some v =>
      match s.visitors v with
      | none => none
      | some vis =>
          if inward then
            (Link.pass vis.inward ch.down portion).map fun p =>
              (s.setChannel c { ch with down := p.2 }).setVisitor v { vis with inward := p.1 }
          else
            (Link.pass ch.up vis.outward portion).map fun p =>
              (s.setChannel c { ch with up := p.1 }).setVisitor v { vis with outward := p.2 }
  | _, _ => none

/-- `copy_bidirectional` at the client. -/
def stepClientHop (c : ChannelId) (ch : DataChannel) (inward : Bool) (portion : Link.Portion) :
    Option State :=
  match ch.client, ch.container with
  | .copying, some k =>
      if inward then
        (Link.pass ch.down k.inward portion).map fun p =>
          s.setChannel c { ch with down := p.1, container := some { k with inward := p.2 } }
      else
        (Link.pass k.outward ch.up portion).map fun p =>
          s.setChannel c { ch with up := p.2, container := some { k with outward := p.1 } }
  | _, _ => none

def stepStopServer (c : ChannelId) (ch : DataChannel) : Option State :=
  match ch.server, ch.visitor with
  | .datagrams, none => some (s.setChannel c (ch.dropServer false))
  | .copying, some v =>
      match s.visitors v with
      | none => none
      | some vis =>
          some ((s.setChannel c (ch.dropServer (vis.inward.ended && ch.up.ended))).setVisitor v
            { vis with outward := vis.outward.close })
  | _, _ => none

def stepStopClient (c : ChannelId) (ch : DataChannel) : Option State :=
  match ch.client, ch.container with
  | .stopped, _ => none
  | .copying, some k =>
      some (s.setChannel c (ch.dropClient (ch.down.ended && k.outward.ended)))
  | _, _ => some (s.setChannel c (ch.dropClient false))

def step : Label → Option State
  | .spawn l kind port =>
      match s.loops l with
      | none => some (s.setLoop l ⟨kind, port, .idle⟩)
      | some _ => none
  | .accept l v =>
      match s.loops l, s.visitors v with
      | some ⟨.tcp, port, .idle⟩, none =>
          some ((s.setVisitor v (.new (some port))).setLoop l ⟨.tcp, port, .asking (some v)⟩)
      | _, _ => none
  | .bind l =>
      match s.loops l with
      | some ⟨.udp, port, .idle⟩ => some (s.setLoop l ⟨.udp, port, .asking none⟩)
      | _ => none
  | .register l =>
      match s.loops l with
      | some ⟨kind, port, .asking v⟩ =>
          some { s.setLoop l ⟨kind, port, .waiting v⟩ with callbacks := s.callbacks ++ [l] }
      | _ => none
  | .listen v =>
      match s.visitors v with
      | none => some { s.setVisitor v (.new none) with queue := s.queue ++ [v] }
      | some _ => none
  | .opens c =>
      match s.channels c with
      | none => some (s.setChannel c .new)
      | some _ => none
  | .handshake c =>
      (s.channels c).bind fun ch =>
        if ch.server = .opened then some (stepHandshake s c ch) else none
  | .pool written => stepPool b s written
  | .command c written =>
      (s.channels c).bind fun ch =>
        if ch.server = .claimed then stepCommand b s c ch written else none
  | .next l =>
      match s.loops l with
      | some ⟨kind, port, .serving c⟩ =>
          if (s.channels c).all fun ch => ch.server == .stopped then
            -- A UDP loop has one channel in its life.
            some (s.setLoop l ⟨kind, port, if kind = .tcp then .idle else .ended⟩)
          else none
      | _ => none
  | .read c =>
      (s.channels c).bind fun ch =>
        if ch.client = .reading then (ch.readCommand b service).map (s.setChannel c) else none
  | .connect c ok =>
      (s.channels c).bind fun ch =>
        match ch.client with
        | .connecting addr => some (s.setChannel c (ch.connect addr ok))
        | _ => none
  | .pass c hop portion =>
      (s.channels c).bind fun ch =>
        match hop with
        | .visitorToChannel => stepServerHop s c ch true portion
        | .channelToVisitor => stepServerHop s c ch false portion
        | .channelToContainer => stepClientHop s c ch true portion
        | .containerToChannel => stepClientHop s c ch false portion
  | .stopServer c => (s.channels c).bind (stepStopServer s c)
  | .stopClient c => (s.channels c).bind (stepStopClient s c)
  | .visitor v e =>
      (s.visitors v).bind fun vis =>
        (e.act vis.inward vis.outward).map fun p =>
          s.setVisitor v { vis with inward := p.1, outward := p.2 }
  | .container c e =>
      (s.channels c).bind fun ch => ch.container.bind fun k =>
        (e.act k.outward k.inward).map fun p =>
          s.setChannel c { ch with container := some { k with outward := p.1, inward := p.2 } }

end Steps

end TcpTunnel

/-- The data channels of one control channel, with those at their ends. -/
def tcpTunnel (b : Bincode) (service : ClientService) :
    Machine TcpTunnel.State TcpTunnel.Label where
  init := .init
  step := TcpTunnel.step b service

namespace TcpTunnel

/-! ## What is forwarded -/

/-- The address that `run_data_channel` connects to on a command. -/
def addressOf (service : ClientService) : DataChannelCmd → Option String
  | .startForwardTcp (some port) => some (Shared.address port)
  | .startForwardTcp none => service.localAddr
  | .startForwardUdp => none

def Visitor.command (vis : Visitor) : DataChannelCmd := .startForwardTcp vis.port

/-- Everything that one end has sent has come out at the other end or is on its way on one
of three links, and an end comes out as an end, unless the copying has failed. -/
structure Carries (vis : Visitor) (ch : DataChannel) (k : Container) : Prop where
  inward : vis.inward.sent =
    k.inward.received ++ k.inward.flight ++ ch.down.flight ++ vis.inward.flight
  outward : k.outward.sent =
    vis.outward.received ++ vis.outward.flight ++ ch.up.flight ++ k.outward.flight
  inward_ended : k.inward.ended = true →
    ch.failed = true ∨ vis.inward.closed = true ∧ k.inward.received = vis.inward.sent
  outward_ended : vis.outward.ended = true →
    ch.failed = true ∨ k.outward.closed = true ∧ vis.outward.received = k.outward.sent

structure Forwarded (service : ClientService) (s : State) : Prop where
  /-- A container has one visitor, of the port that it stands for. -/
  container : ∀ c ch k, s.channels c = some ch → ch.container = some k →
    ∃ v vis, ch.visitor = some v ∧ s.visitors v = some vis ∧
      addressOf service vis.command = some k.addr ∧ Carries vis ch k
  /-- A visitor has one data channel. -/
  channel : ∀ c c' ch ch' v, s.channels c = some ch → s.channels c' = some ch' →
    ch.visitor = some v → ch'.visitor = some v → c = c'
  /-- A visitor receives nothing but what its container has sent. -/
  visitor : ∀ v vis, s.visitors v = some vis → vis.outward.received ≠ [] →
    ∃ c ch k, s.channels c = some ch ∧ ch.visitor = some v ∧ ch.container = some k

end TcpTunnel

end Kdct
