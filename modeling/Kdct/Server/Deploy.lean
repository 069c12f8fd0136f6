/-
One deploy attempt, `try_auto_deploy` and `deploy_connection`
(`crates/kdcts/src/api.rs`, `crates/kdcts/src/deploy.rs`).

A step goes from one point where other tasks may move to the next: a database
statement, a lock, a send, the wait for the container.  `fault` says that the
statement of this step fails, and for the wait that the time is up.
-/
import Kdct.Server.State

namespace Kdct

/-- How a step of a deploy goes on. -/
inductive DeployNext
  | goto (pc : DeployPc)
  /-- `try_auto_deploy` does not deploy. -/
  | skip
  | exit (result : Except DeployError String)
  deriving DecidableEq

namespace Shared

/-- The checks on the bridge's ports, in the order of the source. -/
def planPorts (info : ConnectionInfo) (bridgeId : RowId) (node : ClientNode) (image : ImageNode)
    (ports : List BridgePort) : Except DeployError Plan :=
  let required := UInt16.ofNat ports.length
  let available := UInt16.ofInt ((node.portRangeEnd.toNat : Int) - node.portRangeStart.toNat + 1)
  if ports.isEmpty then .error (.noPorts (info.bridgeName.getD ""))
  else if available < required then .error (.tooFewPorts node.hostname available required)
  else
    match ports.find? fun p => p.poolPort.isNone with
    | some p => .error (.noPoolPort p.containerPort)
    | none => .ok { connectionId := info.row.id, connectionName := info.row.name,
                    bridgeId := bridgeId, node := node, image := image, ports := ports }

/-- The first route of the plan that already resolves. -/
def conflict (table : RouteTable) (plan : Plan) : Option String :=
  plan.ports.findSome? fun p => p.routePath.bind fun path =>
    if (table.resolve path).isSome then some path else none

/-- The loops spawned for one port of a deploy: TCP if listed or if neither is,
UDP if listed. -/
def spawnLoops (s : Shared) (d : Deploy) (p : BridgePort) (clientPort : Port) : Shared :=
  let newLoop (id : Nat) (kind : LoopKind) : PortLoop :=
    { id := id, kind := kind, serverPort := p.poolPort.getD 0, localPort := clientPort,
      deploy := d, sender := d.sender p, state := .waiting }
  let tcp := p.hasProtocol "tcp"
  let udp := p.hasProtocol "udp"
  let s := if tcp || !udp then
      { s with loops := newLoop s.nextLoop .tcp :: s.loops, nextLoop := s.nextLoop + 1 }
    else s
  if udp then { s with loops := newLoop s.nextLoop .udp :: s.loops, nextLoop := s.nextLoop + 1 }
  else s

def fail (s : Shared) (e : DeployError) : Option (Shared × DeployNext) :=
  some (s, .exit (.error e))

def deployStep (s : Shared) (call : CallId) (id : RowId) (fault : Bool) :
    DeployPc → Option (Shared × DeployNext)
  | .check =>
      if fault then some (s, .skip)
      else
        match s.db.getConnection id with
        | none => some (s, .skip)
        | some info =>
            if info.row.bridgeId.isNone || info.row.imageId.isNone || info.row.nodeId.isNone then
              some (s, .skip)
            else if info.row.status ≠ .pending then some (s, .skip)
            else if info.nodeStatus ≠ some .online then some (s, .skip)
            else some (s.note (.checked call id), .goto .connection)
  | .connection =>
      if fault then s.fail .database
      else
        match s.db.getConnection id with
        | none => s.fail .connectionNotFound
        | some info =>
            match info.row.bridgeId, info.row.imageId, info.row.nodeId with
            | none, _, _ => s.fail .bridgeNotAssigned
            | some _, none, _ => s.fail .imageNotAssigned
            | some _, some _, none => s.fail .nodeNotAssigned
            | some bridgeId, some _, some nodeId => some (s, .goto (.node info bridgeId nodeId))
  | .node info bridgeId nodeId =>
      if fault then s.fail .database
      else
        match s.db.getNodeById nodeId with
        | none => s.fail .nodeNotFound
        | some node =>
            if node.status ≠ .online then s.fail (.nodeNotOnline node.hostname)
            else some (s, .goto (.image info bridgeId node))
  | .image info bridgeId node =>
      if fault then s.fail .database
      else
        match s.db.getImageByName (info.imageName.getD "") with
        | none => s.fail .imageNotFound
        | some image => some (s, .goto (.ports info bridgeId node image))
  | .ports info bridgeId node image =>
      if fault then s.fail .database
      else
        match planPorts info bridgeId node image (s.db.getBridgePorts bridgeId) with
        | .error e => s.fail e
        | .ok plan => some (s, .goto (.conflicts plan))
  | .conflicts plan =>
      if s.tableLock.isSome then none
      else
        match conflict s.routes plan with
        | some path => s.fail (.routeInUse path)
        | none => some (s, .goto (.registry plan))
  | .registry plan =>
      match s.registry.lookup plan.node.nodeUuid with
      | none => s.fail (.notInRegistry plan.node.nodeUuid plan.node.hostname)
      | some ch => some (s, .goto (.envs { call := call, plan := plan, channel := ch }))
  | .envs d =>
      some (s, .goto (.insert d (if fault then [] else s.db.getBridgeEnvs d.plan.bridgeId)))
  | .insert d env =>
      some (s.insertWaiter d.channel d.plan.containerName call, .goto (.send d env))
  | .send d _ =>
      -- The waiter stays in the map when the command cannot be sent.
      if d.channel ∈ s.closed then
        { s with waiters := Function.update s.waiters call none }.fail .sendFailed
      else some (s.note (.sent d), .goto (.wait d))
  | .wait d =>
      match s.waiters call with
      -- Whatever the reply says, it is taken for a started container.
      | some (.filled _) => some (s, .goto (.record d))
      | some .closed => some (s, .goto (.giveUp d .waiterDropped))
      | _ =>
          if fault then
            some ({ s with waiters := Function.update s.waiters call none },
              .goto (.giveUp d (.timeout d.plan.containerName)))
          else none
  | .giveUp d e => (s.removeWaiter d.channel d.plan.containerName call).fail e
  | .record d =>
      if s.trackerLock.isSome then none
      else some ({ s with tracker := s.tracker.insert d.plan.key d.plan.deployment }.note
        (.recorded d), .goto (.lock d))
  | .lock d =>
      if s.tableLock.isSome then none
      else some ({ s with tableLock := some (.call call) },
        .goto (.register d (d.plan.ports.zip d.plan.clientPorts)))
  | .register d [] => some ({ s with tableLock := none }, .goto (.finish d))
  | .register d ((p, clientPort) :: rest) =>
      let port := p.poolPort.getD 0
      match p.route with
      | some path =>
          match s.routes.set path port with
          | .error e => { s with tableLock := none }.fail (.route e)
          | .ok routes =>
              some (({ s with routes := routes }.note (.routed d path port)).spawnLoops d p
                clientPort, .goto (.push d (p, clientPort) rest))
      | none => some (s.spawnLoops d p clientPort, .goto (.push d (p, clientPort) rest))
  | .push d (p, _) rest =>
      let port := p.poolPort.getD 0
      if s.forwardsLock.isSome then none
      else some ({ s with forwards := s.forwards ++ [(port, d.sender p)] }.note
        (.forwarded d port), .goto (.register d rest))
  | .finish d =>
      if fault then s.fail .database
      else
        match s.db.updateConnectionNode id (some d.plan.node.id) .deployed
            (some d.plan.containerName) with
        | none => s.fail .database
        | some db =>
            some ({ s with db := db }.note (.deployed d), .exit (.ok ("Deployed '" ++
              d.plan.connectionName ++ "' to '" ++ d.plan.node.hostname ++ "'")))

end Shared

end Kdct
