/-
A server and what may happen to it.

`kdcts` puts the tasks together with their surroundings: clients that connect,
disconnect and answer as they like, visitors of the ports, images that get loaded
and restarts.  A run is any interleaving of these.  What the server's side of the
tunnel does by itself to the registry is in `ControlChannel`; here the registry
changes at any time.
-/
import Kdct.Lib.Machine
import Kdct.Server.Api
import Kdct.Server.Sync

namespace Kdct

inductive Label
  /-- A spawned deploy moves on. -/
  | attempt (call : CallId) (fault : Bool)
  | request (fault : Bool) (r : Request)
  /-- The API thread moves on with its request. -/
  | api (fault : Bool)
  | event (fault : Bool) (update : NodeUpdate)
  /-- The sync task moves on with a disconnect. -/
  | sync (fault : Bool)
  | register (uuid : NodeUuid) (ch : ChannelId)
  | unregister (uuid : NodeUuid)
  | closeChannel (ch : ChannelId)
  /-- The loop of a channel handles a command of its client. -/
  | message (ch : ChannelId) (cmd : ControlChannelCmd)
  | bindUdp (id : Nat)
  /-- A UDP loop gets its data channel. -/
  | channelUdp (id : Nat)
  | visitor (id : Nat)
  /-- A TCP loop is done with its visitor. -/
  | visitorGone (id : Nat)
  /-- A loop ends, on a shutdown or on an error. -/
  | endLoop (id : Nat) (error : Bool)
  | loadImage (name source sourceType : String)
  | restart
  deriving DecidableEq

/-- What a client is configured with: `local_addr` of the service behind a channel. -/
abbrev LocalAddr := ChannelId → Option String

/-- Whether the loop is where it looks at its shutdown. -/
def PortLoop.selecting (l : PortLoop) : Bool :=
  match l.kind, l.state with
  | .tcp, .waiting | .udp, .serving => true
  | _, _ => false

namespace Shared

/-- How a channel's loop resolves waiters. -/
def message (s : Shared) (ch : ChannelId) : ControlChannelCmd → Shared
  | .reportNodeStatus status =>
      status.runningContainers.foldl (fun s c => s.answer ch c.containerName (.running c.ports)) s
  | .containerStarted name ports => s.answer ch name (.started ports)
  | .containerStopped name => s.answer ch name .stopped
  | .containerError name text => s.answer ch name (.error text)
  | _ => s

def address (port : Port) : String := "127.0.0.1:" ++ toString port

/-- Where the client connects a visitor of the loop to.  `StartForwardTcp` names
the port, `StartForwardUdp` does not. -/
def target (localAddr : LocalAddr) (l : PortLoop) : Option String :=
  match l.kind with
  | .tcp => some (address l.localPort)
  | .udp => localAddr l.deploy.channel

def setLoop (s : Shared) (id : Nat) (state : LoopState) : Shared :=
  { s with loops := s.loops.map fun l => if l.id = id then { l with state := state } else l }

def endLoop (s : Shared) (id : Nat) : Shared :=
  { s with loops := s.loops.filter fun l => l.id != id }

def findLoop (s : Shared) (id : Nat) : Option PortLoop := s.loops.find? fun l => l.id == id

/-- Binds the socket of a UDP loop, which ends when the port is taken. -/
def bindUdp (s : Shared) (l : PortLoop) : Option Shared :=
  if l.kind = .udp ∧ l.state = .waiting then
    if s.loops.any fun l' =>
        l'.kind = .udp && l'.state ≠ .waiting && l'.serverPort = l.serverPort then
      some (s.endLoop l.id)
    else some (s.setLoop l.id .bound)
  else none

def channelUdp (s : Shared) (l : PortLoop) : Option Shared :=
  if l.kind = .udp ∧ l.state = .bound then some (s.setLoop l.id .serving) else none

/-- A visitor of a TCP loop needs the pool's listener and a data channel; a UDP loop
has its own socket and channel. -/
def visitor (s : Shared) (localAddr : LocalAddr) (l : PortLoop) : Option Shared :=
  (target localAddr l).bind fun address =>
    match l.kind, l.state with
    | .tcp, .waiting =>
        if l.serverPort ∈ s.pool.listeners ∧ l.deploy.channel ∉ s.closed then
          some ((s.setLoop l.id .serving).note (.bridged l address))
        else none
    | .udp, .serving => some (s.note (.bridged l address))
    | _, _ => none

def visitorGone (s : Shared) (l : PortLoop) : Option Shared :=
  if l.kind = .tcp ∧ l.state = .serving then some (s.setLoop l.id .waiting) else none

/-- A TCP loop cannot end while it serves a visitor. -/
def stopLoop (s : Shared) (error : Bool) (l : PortLoop) : Option Shared :=
  if error ∧ ¬(l.kind = .tcp ∧ l.state = .serving) ∨ l.sender ∈ s.signalled ∧ l.selecting then
    some (s.endLoop l.id)
  else none

/-- The steps that are not the server's own. -/
def surroundings (localAddr : LocalAddr) (s : Shared) : Label → Option Shared
  | .register uuid ch => some { s with registry := s.registry.insert uuid ch }
  | .unregister uuid => some { s with registry := s.registry.erase uuid }
  | .closeChannel ch => some { s with closed := ch :: s.closed }
  | .message ch cmd => if ch ∈ s.closed then none else some (s.message ch cmd)
  | .bindUdp id => (s.findLoop id).bind s.bindUdp
  | .channelUdp id => (s.findLoop id).bind s.channelUdp
  | .visitor id => (s.findLoop id).bind (s.visitor localAddr)
  | .visitorGone id => (s.findLoop id).bind s.visitorGone
  | .endLoop id error => (s.findLoop id).bind (s.stopLoop error)
  | .loadImage name source sourceType =>
      some { s with db := s.db.insertImage name source sourceType }
  | _ => none

end Shared

namespace Server

/-- A restart empties everything but the database. -/
def restart (s : Server) (ports : FreshPool) : Server :=
  { boot s.shared.db ports with
    shared := { Shared.boot s.shared.db ports with
                nextLoop := s.shared.nextLoop, log := s.shared.log }
    nextCall := s.nextCall }

def step (ports : FreshPool) (localAddr : LocalAddr) (s : Server) : Label → Option Server
  | .attempt call fault => s.attemptStep call fault
  | .request fault r =>
      if s.api = .idle then
        some { s with shared := (s.shared.request fault r).1, api := (s.shared.request fault r).2 }
      else none
  | .api fault => s.apiStep fault
  | .event fault update =>
      if s.sync = .idle then
        some { s with shared := (s.shared.syncEvent fault update).1
                      sync := (s.shared.syncEvent fault update).2 }
      else none
  | .sync fault =>
      (s.shared.syncStep fault s.sync).map fun (t, pc) => { s with shared := t, sync := pc }
  | .restart => some (s.restart ports)
  | label => (s.shared.surroundings localAddr label).map fun t => { s with shared := t }

end Server

/-- A server that starts on an empty database. -/
def kdcts (ports : FreshPool) (localAddr : LocalAddr) : Machine Server Label where
  init := .boot .empty ports
  step := Server.step ports localAddr

/-! ## Parts of runs -/

def samplePort (bridgeId : RowId) (path : String) : PortSpec where
  bridgeId := bridgeId
  containerPort := 80
  mode := "route"
  routePath := some path
  protocols := none

def samplePool : FreshPool where
  ports := [20000, 20001]
  nodup := by decide
  nonempty := by decide

namespace Label

/-- A client connects to the server through a channel and reports its status. -/
def connects (uuid : NodeUuid) (ch : ChannelId) : List Label :=
  [.register uuid ch, .event false ⟨uuid, .connected "digest" sampleStatus⟩]

/-- A bridge gets one port. -/
def bridges (name : String) (spec : PortSpec) : List Label :=
  [.request false (.postBridge name), .request false (.postPort spec), .api false]

/-- A connection is created with its slots filled, which spawns a deploy. -/
def creates (name : String) (bridgeId nodeId : RowId) : List Label :=
  [.request false (.postConnection name
    { bridgeId := some (some bridgeId), imageId := some (some 1), nodeId := some (some nodeId) }),
   .api false, .api false]

/-- One node, one image, one bridge with a port and a connection through it. -/
def oneConnection : List Label :=
  connects "u" 0 ++ .loadImage "web" "nginx" "docker" :: bridges "a" (samplePort 1 "/a") ++
    creates "a" 1 1

/-- A spawned deploy of one port, with the answer of the client. -/
def deploys (call : CallId) (ch : ChannelId) (answer : ControlChannelCmd) : List Label :=
  List.replicate 10 (.attempt call false) ++ .message ch answer ::
    List.replicate 7 (.attempt call false)

end Label

end Kdct
