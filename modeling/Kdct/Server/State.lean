/-
The state of a running `kdcts`.

One state holds the database and everything the server keeps in memory: the port
pool, the route table, the deployment tracker, the active forwards, the registry
of connected clients with their waiters, and the loops that accept visitors.
Three kinds of tasks work on it: the thread that serves the API, the task that
syncs node events to the database, and the deploys spawned by the API.

`log` records what tasks have done, newest first, so that a statement can speak
about it.  Nothing in the program reads it.
-/
import Kdct.ControlChannel
import Kdct.Database
import Kdct.Protocol
import Kdct.RouteTable

namespace Kdct

/-! ## Deploys -/

/-- A call of `deploy_connection` or `stop_connection`. -/
abbrev CallId := Nat

inductive DeployError
  | database
  | connectionNotFound
  | bridgeNotAssigned
  | imageNotAssigned
  | nodeNotAssigned
  | nodeNotFound
  | nodeNotOnline (hostname : String)
  | imageNotFound
  | noPorts (bridgeName : String)
  | tooFewPorts (hostname : String) (available required : Port)
  | noPoolPort (containerPort : Int)
  | routeInUse (path : String)
  | notInRegistry (nodeUuid hostname : String)
  | sendFailed
  | waiterDropped
  | timeout (containerName : String)
  | route (e : RouteError)
  deriving DecidableEq

/-- For a statement that fails SQLite has texts of its own; one stands for them. -/
def DeployError.text : DeployError → String
  | .database => "database error"
  | .connectionNotFound => "Connection not found"
  | .bridgeNotAssigned => "Bridge not assigned"
  | .imageNotAssigned => "Image not assigned"
  | .nodeNotAssigned => "Node not assigned"
  | .nodeNotFound => "Node not found"
  | .nodeNotOnline hostname => "Node '" ++ hostname ++ "' is not online"
  | .imageNotFound => "Image not found"
  | .noPorts bridgeName => "Bridge '" ++ bridgeName ++ "' has no ports configured"
  | .tooFewPorts hostname available required =>
      "Node '" ++ hostname ++ "' has only " ++ toString available ++ " ports available, need " ++
        toString required
  | .noPoolPort containerPort =>
      "Bridge port " ++ toString containerPort ++ " has no pool port assigned"
  | .routeInUse path => "Route path '" ++ path ++ "' is already in use"
  | .notInRegistry nodeUuid hostname =>
      "Client uuid=" ++ nodeUuid ++ " (" ++ hostname ++ ") not found in registry"
  | .sendFailed => "Failed to send ImageStart command"
  | .waiterDropped => "channel closed"
  | .timeout containerName =>
      "Timeout waiting for container '" ++ containerName ++ "' to start"
  | .route e => e.text

abbrev DeploymentKey := String × NodeUuid

structure ActiveDeployment where
  imageName : String
  containerName : String
  nodeUuid : NodeUuid
  serverPorts : List Port
  deriving DecidableEq

/-- What a deploy has read and decided by the time it looks up the client. -/
structure Plan where
  connectionId : RowId
  connectionName : String
  bridgeId : RowId
  node : ClientNode
  image : ImageNode
  ports : List BridgePort
  deriving DecidableEq

namespace Plan

/-- The loop that pairs a client port with the pool port of each bridge port. -/
def assignPorts (clientPort : Port) : List BridgePort → List (Port × Port)
  | [] => []
  | p :: ps => (clientPort, p.poolPort.getD 0) :: assignPorts (clientPort + 1) ps

def portMap (plan : Plan) : List (Port × Port) :=
  assignPorts plan.node.portRangeStart plan.ports

def clientPorts (plan : Plan) : List Port := plan.portMap.map Prod.fst

def serverPorts (plan : Plan) : List Port := plan.portMap.map Prod.snd

/-- The bridge ports and the client ports of a plan. -/
def forwards (plan : Plan) : List (BridgePort × Port) := plan.ports.zip plan.clientPorts

def containerName (plan : Plan) : String :=
  "kdct-" ++ dashed ['/', ':'] plan.connectionName ++ "-" ++ toString plan.connectionId

def imageTag (plan : Plan) : String :=
  if plan.image.sourceType = "git" then "kdct:" ++ dashed ['/'] plan.image.name
  else plan.image.source

def imageStart (plan : Plan) (env : List (String × String)) : ImageStart where
  imageTag := plan.imageTag
  source := plan.image.source
  sourceType := plan.image.sourceType
  containerName := plan.containerName
  portMap := plan.clientPorts.zip (plan.ports.map fun p => UInt16.ofInt p.containerPort)
  env := env

def key (plan : Plan) : DeploymentKey := (plan.connectionName, plan.node.nodeUuid)

def deployment (plan : Plan) : ActiveDeployment where
  imageName := plan.connectionName
  containerName := plan.containerName
  nodeUuid := plan.node.nodeUuid
  serverPorts := plan.serverPorts

end Plan

/-- The path a bridge port is routed by. -/
def BridgePort.route (p : BridgePort) : Option String :=
  if p.mode = "route" then p.routePath else none

/-- The paths a plan routes, and where to. -/
def Plan.routes (plan : Plan) : List (String × Port) :=
  plan.ports.filterMap fun p => p.route.map fun path => (path, p.poolPort.getD 0)

def BridgePort.hasProtocol (p : BridgePort) (protocol : String) : Bool :=
  (splitCommas (p.protocols.getD "tcp")).any fun s => trim s == protocol

/-- A deploy from the moment it has found its client. -/
structure Deploy where
  call : CallId
  plan : Plan
  channel : ChannelId
  deriving DecidableEq

/-! ## Waiters -/

/-- A command of the client that resolves a waiter. -/
inductive Reply
  | started (ports : List Port)
  | stopped
  | running (ports : List Port)
  | error (text : String)
  deriving DecidableEq

/-- What is sent through the oneshot. -/
def Reply.result : Reply → Except String (List Port)
  | .started ports => .ok ports
  | .stopped => .ok []
  | .running ports => .ok ports
  | .error text => .error text

/-- The receiving end of a oneshot that a call waits for. -/
inductive Waiter
  | waiting
  | filled (reply : Reply)
  /-- The sender was dropped. -/
  | closed
  deriving DecidableEq

/-! ## Loops -/

/-- The `shutdown_tx` a deploy makes for one port. -/
structure Sender where
  call : CallId
  /-- The connection the call deploys. -/
  connectionId : RowId
  bridgePort : RowId
  deriving DecidableEq

def Deploy.sender (d : Deploy) (p : BridgePort) : Sender where
  call := d.call
  connectionId := d.plan.connectionId
  bridgePort := p.id

inductive LoopKind
  | tcp
  | udp
  deriving DecidableEq

inductive LoopState
  /-- A TCP loop that accepts, or a UDP loop without a socket. -/
  | waiting
  /-- A UDP loop that has its socket and waits for its data channel. -/
  | bound
  | serving
  deriving DecidableEq

/-- A spawned loop that has not ended. -/
structure PortLoop where
  id : Nat
  kind : LoopKind
  serverPort : Port
  /-- The client port the loop was spawned for. -/
  localPort : Port
  deploy : Deploy
  sender : Sender
  state : LoopState
  deriving DecidableEq

/-! ## Where the tasks are -/

inductive DeployPc
  /-- `try_auto_deploy` reads the row and decides whether to deploy. -/
  | check
  | connection
  | node (info : ConnectionInfo) (bridgeId nodeId : RowId)
  | image (info : ConnectionInfo) (bridgeId : RowId) (node : ClientNode)
  | ports (info : ConnectionInfo) (bridgeId : RowId) (node : ClientNode) (image : ImageNode)
  | conflicts (plan : Plan)
  | registry (plan : Plan)
  | envs (d : Deploy)
  | insert (d : Deploy) (env : List (String × String))
  | send (d : Deploy) (env : List (String × String))
  | wait (d : Deploy)
  /-- About to remove the waiter and to return the error. -/
  | giveUp (d : Deploy) (e : DeployError)
  | record (d : Deploy)
  | lock (d : Deploy)
  | register (d : Deploy) (rest : List (BridgePort × Port))
  /-- The port has its route and its loops and is about to be pushed. -/
  | push (d : Deploy) (port : BridgePort × Port) (rest : List (BridgePort × Port))
  | finish (d : Deploy)
  deriving DecidableEq

/-- What `stop_connection` keeps of the row it has read. -/
structure StopInfo where
  connectionId : RowId
  connectionName : String
  nodeId : Option RowId
  containerName : String
  deriving DecidableEq

inductive StopPc
  | start
  | node (info : StopInfo)
  | registry (info : StopInfo) (nodeUuid : NodeUuid)
  | insert (info : StopInfo) (nodeUuid : NodeUuid) (ch : ChannelId)
  | send (info : StopInfo) (nodeUuid : NodeUuid) (ch : ChannelId)
  | wait (info : StopInfo) (nodeUuid : NodeUuid)
  | find (info : StopInfo) (nodeUuid : NodeUuid)
  | lock (info : StopInfo) (nodeUuid : NodeUuid) (d : ActiveDeployment)
  | release (info : StopInfo) (nodeUuid : NodeUuid) (d : ActiveDeployment) (rest : List Port)
  | forwards (info : StopInfo) (nodeUuid : NodeUuid) (d : ActiveDeployment)
  | untrack (info : StopInfo) (nodeUuid : NodeUuid)
  | finish (info : StopInfo)
  deriving DecidableEq

inductive SyncPc
  | idle
  /-- Handling a disconnect: about to open the database. -/
  | openDb (uuid : NodeUuid)
  | offline (uuid : NodeUuid)
  | findNode (uuid : NodeUuid)
  | list (uuid : NodeUuid) (nodeId : RowId)
  | pend (uuid : NodeUuid) (nodeId : RowId) (rest : List RowId)
  /-- `remove_by_node`: about to lock the tracker. -/
  | tracker (uuid : NodeUuid)
  | keys (uuid : NodeUuid) (rest : List DeploymentKey)
  | table (uuid : NodeUuid) (d : ActiveDeployment) (rest : List DeploymentKey)
  | release (uuid : NodeUuid) (ports : List Port) (rest : List DeploymentKey)
  deriving DecidableEq

structure PortSpec where
  bridgeId : RowId
  containerPort : Int
  mode : String
  routePath : Option String
  protocols : Option String
  deriving DecidableEq

structure Slots where
  bridgeId : Database.Slot
  imageId : Database.Slot
  nodeId : Database.Slot
  deriving DecidableEq

/-- What a handler does after it has stopped a connection. -/
inductive AfterStop
  | patch (slots : Slots)
  | delete
  deriving DecidableEq

inductive ApiPc
  | idle
  | insertPort (spec : PortSpec) (port : Port)
  /-- The insertion failed: about to release the reserved port. -/
  | unreserve (port : Port)
  | bridgePorts (bridgeId : RowId)
  | releaseBridge (bridgeId : RowId) (rest : List Port)
  | deleteBridge (bridgeId : RowId)
  | bridgePort (bridgeId : RowId) (containerPort : Int)
  | releasePort (bridgeId : RowId) (containerPort : Int) (port : Port)
  | deletePort (bridgeId : RowId) (containerPort : Int)
  | newSlots (id : RowId) (slots : Slots)
  | spawn (id : RowId)
  | patchCheck (id : RowId) (slots : Slots)
  | patch (id : RowId) (slots : Slots)
  | deleteCheck (id : RowId)
  | delete (id : RowId)
  /-- About to call `stop_connection`. -/
  | stop (id : RowId) (after : AfterStop)
  | stopping (call : CallId) (id : RowId) (pc : StopPc) (after : AfterStop)
  | autoCheck
  | autoNext (rest : List RowId)
  | autoDeploy (call : CallId) (id : RowId) (pc : DeployPc) (rest : List RowId)
  deriving DecidableEq

/-- Who holds a lock across a wait. -/
inductive Holder
  | call (n : CallId)
  | sync
  deriving DecidableEq

inductive Event
  /-- The status check of `try_auto_deploy` let the call go on. -/
  | checked (call : CallId) (id : RowId)
  | sent (d : Deploy)
  | answered (call : CallId) (reply : Reply)
  | recorded (d : Deploy)
  | routed (d : Deploy) (path : String) (port : Port)
  | forwarded (d : Deploy) (port : Port)
  | deployed (d : Deploy)
  | returned (call : CallId) (id : RowId) (result : Except DeployError String)
  /-- A call inserted its waiter and dropped the sender another call waits for. -/
  | displaced (other : CallId) (call : CallId)
  /-- A failing deploy removed the sender another call waits for. -/
  | removed (other : CallId) (call : CallId)
  /-- A visitor of the loop was connected to an address on its client. -/
  | bridged (l : PortLoop) (address : String)
  deriving DecidableEq

/-- What the tasks share. -/
structure Shared where
  db : Database
  pool : PortPool
  routes : RouteTable
  tracker : HashMap DeploymentKey ActiveDeployment
  forwards : List (Port × Sender)
  /-- The senders through which a shutdown was sent. -/
  signalled : List Sender
  registry : HashMap NodeUuid ChannelId
  /-- The channels whose loop has ended. -/
  closed : List ChannelId
  /-- `pending_docker` of each channel. -/
  pending : ChannelId → HashMap String CallId
  waiters : CallId → Option Waiter
  loops : List PortLoop
  nextLoop : Nat
  tableLock : Option Holder
  trackerLock : Option Holder
  /-- The lock of `forwards`. -/
  forwardsLock : Option Holder
  log : List Event

structure Server where
  shared : Shared
  api : ApiPc
  sync : SyncPc
  /-- The spawned deploys: the connection and where the task is. -/
  attempts : CallId → Option (RowId × DeployPc)
  nextCall : CallId

namespace Shared

/-- What a server that has just started finds and makes. -/
def boot (db : Database) (ports : FreshPool) : Shared where
  db := db.markAllOffline
  pool := ports.new
  routes := .new
  tracker := ∅
  forwards := []
  signalled := []
  registry := ∅
  closed := []
  pending := fun _ => ∅
  waiters := fun _ => none
  loops := []
  nextLoop := 0
  tableLock := none
  trackerLock := none
  forwardsLock := none
  log := []

def note (s : Shared) (e : Event) : Shared := { s with log := e :: s.log }

/-- Drops the sending end of a waiter, to which the event says what happened. -/
def dropSender (s : Shared) (call : CallId) (e : Event) : Shared :=
  match s.waiters call with
  | some .waiting =>
      { s with waiters := Function.update s.waiters call (some .closed) }.note e
  | _ => s

/-- `pending_docker.insert` with a new oneshot; a waiter of the same name loses
its sender. -/
def insertWaiter (s : Shared) (ch : ChannelId) (name : String) (call : CallId) : Shared :=
  let t :=
    match (s.pending ch).lookup name with
    | some other => s.dropSender other (.displaced other call)
    | none => s
  { t with
    pending := Function.update t.pending ch ((t.pending ch).insert name call)
    waiters := Function.update t.waiters call (some .waiting) }

/-- `pending_docker.remove` on the failure path of a deploy. -/
def removeWaiter (s : Shared) (ch : ChannelId) (name : String) (call : CallId) : Shared :=
  match (s.pending ch).lookup name with
  | some other =>
      let t := s.dropSender other (.removed other call)
      { t with pending := Function.update t.pending ch ((t.pending ch).erase name) }
  | none => s

/-- Removes the waiter of the name and sends it the reply, if it still waits. -/
def answer (s : Shared) (ch : ChannelId) (name : String) (reply : Reply) : Shared :=
  match (s.pending ch).lookup name with
  | some call =>
      let t : Shared :=
        { s with pending := Function.update s.pending ch ((s.pending ch).erase name) }
      match t.waiters call with
      | some .waiting =>
          { t with waiters := Function.update t.waiters call (some (.filled reply)) }.note
            (.answered call reply)
      | _ => t
  | none => s

end Shared

/-- A server that has just started on a database. -/
def Server.boot (db : Database) (ports : FreshPool) : Server where
  shared := .boot db ports
  api := .idle
  sync := .idle
  attempts := fun _ => none
  nextCall := 0

end Kdct
