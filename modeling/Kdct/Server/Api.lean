/-
The thread that serves the REST API (`crates/kdcts/src/api.rs`).

It handles one request at a time.  A handler that blocks on a stop or on an
auto-check runs it to the end before the next request is read; the deploys after
a new or changed connection are spawned.  Bodies are taken as parsed, and the
responses and the requests that only read are left out.
-/
import Kdct.Server.Deploy
import Kdct.Server.Stop

namespace Kdct

inductive Request
  /-- `POST /api/bridges` -/
  | postBridge (name : String)
  /-- `DELETE /api/bridges/{id}` -/
  | deleteBridge (bridgeId : RowId)
  /-- `POST /api/bridges/{id}/port` -/
  | postPort (spec : PortSpec)
  /-- `DELETE /api/bridges/{id}/port/{container_port}` -/
  | deletePort (bridgeId : RowId) (containerPort : Int)
  /-- `POST /api/bridges/{id}/env`, where the database runs `good` statements -/
  | postEnv (bridgeId : RowId) (envs : List (String × String)) (good : Nat)
  /-- `POST /api/connections` -/
  | postConnection (name : String) (slots : Slots)
  /-- `PATCH /api/connections/{id}` -/
  | patchConnection (id : RowId) (slots : Slots)
  /-- `DELETE /api/connections/{id}` -/
  | deleteConnection (id : RowId)
  /-- `POST /api/auto-check` -/
  | autoCheck
  deriving DecidableEq

/-- The checks of `POST /api/bridges/{id}/port` on the body. -/
def PortSpec.valid (spec : PortSpec) : Bool :=
  spec.containerPort != 0 && !(spec.mode == "route" && spec.routePath.isNone) &&
    spec.routePath.all fun path => startsWith path "/" && !isAdminPath path

/-- A step of the API thread on what is shared; its result is where the thread is
then. -/
def Shared.request (s : Shared) (fault : Bool) : Request → Shared × ApiPc
  | .postBridge name =>
      match if fault || name.isEmpty then none else s.db.insertBridge name with
      | none => (s, .idle)
      | some db => ({ s with db := db }, .idle)
  | .deleteBridge bridgeId => (s, .bridgePorts bridgeId)
  | .postPort spec =>
      if !spec.valid then (s, .idle)
      else
        match s.pool.reserveOne with
        | none => (s, .idle)
        | some (port, pool) => ({ s with pool := pool }, .insertPort spec port)
  | .deletePort bridgeId containerPort => (s, .bridgePort bridgeId containerPort)
  | .postEnv bridgeId envs good => ({ s with db := s.db.setBridgeEnvs bridgeId envs good }, .idle)
  | .postConnection name slots =>
      if fault then (s, .idle)
      else ({ s with db := s.db.insertConnection name }, .newSlots (s.db.connections.seq + 1) slots)
  | .patchConnection id slots =>
      (s, if slots.nodeId.isSome then .patchCheck id slots else .patch id slots)
  | .deleteConnection id => (s, .deleteCheck id)
  | .autoCheck => (s, .autoCheck)

/-- The steps of a handler that neither stop nor deploy, nor start to. -/
def Shared.handlerStep (s : Shared) (fault : Bool) : ApiPc → Option (Shared × ApiPc)
  | .insertPort spec port =>
      match if fault then none else s.db.insertBridgePort spec.bridgeId spec.containerPort
          spec.mode spec.routePath spec.protocols (some port) with
      | none => some (s, .unreserve port)
      | some db => some ({ s with db := db }, .idle)
  | .unreserve port => some ({ s with pool := s.pool.releaseByPort port }, .idle)
  | .bridgePorts bridgeId =>
      some (s, if fault then .deleteBridge bridgeId
        else .releaseBridge bridgeId (s.db.getBridgePoolPorts bridgeId))
  | .releaseBridge bridgeId [] => some (s, .deleteBridge bridgeId)
  | .releaseBridge bridgeId (port :: rest) =>
      some ({ s with pool := s.pool.releaseByPort port }, .releaseBridge bridgeId rest)
  | .deleteBridge bridgeId =>
      some (if fault then s else { s with db := s.db.deleteBridge bridgeId }, .idle)
  | .bridgePort bridgeId containerPort =>
      match if fault then none else s.db.getBridgePortPoolPort bridgeId containerPort with
      | none => some (s, .deletePort bridgeId containerPort)
      | some port => some (s, .releasePort bridgeId containerPort port)
  | .releasePort bridgeId containerPort port =>
      some ({ s with pool := s.pool.releaseByPort port }, .deletePort bridgeId containerPort)
  | .deletePort bridgeId containerPort =>
      some (if fault then s else { s with db := s.db.deleteBridgePort bridgeId containerPort },
        .idle)
  | .newSlots id slots =>
      if slots.bridgeId.isSome || slots.imageId.isSome || slots.nodeId.isSome then
        match if fault then none
            else s.db.updateConnection id slots.bridgeId slots.imageId slots.nodeId with
        | none => some (s, .spawn id)
        | some db => some ({ s with db := db }, .spawn id)
      else some (s, .spawn id)
  | .patchCheck id slots =>
      match if fault then none else s.db.getConnection id with
      | some info =>
          some (s, if info.row.status = .deployed then .stop id (.patch slots) else .patch id slots)
      | none => some (s, .patch id slots)
  | .patch id slots =>
      match if fault then none
          else s.db.updateConnection id slots.bridgeId slots.imageId slots.nodeId with
      | none => some (s, .idle)
      | some db => some ({ s with db := db }, .spawn id)
  | .deleteCheck id =>
      match if fault then none else s.db.getConnection id with
      | some info => some (s, if info.row.status = .deployed then .stop id .delete else .delete id)
      | none => some (s, .delete id)
  | .delete id =>
      some (if fault then s else { s with db := s.db.deleteConnection id }, .idle)
  | .autoCheck => some (s, if fault then .idle else .autoNext s.db.getConnectableConnections)
  | .autoNext [] => some (s, .idle)
  | _ => none

/-- The end of a `deploy_connection` call. -/
def Shared.endCall (s : Shared) (call : CallId) (id : RowId) : DeployNext → Shared
  | .exit result => s.note (.returned call id result)
  | _ => s

/-- Where a deploy is after a step, if it has not ended. -/
def DeployNext.pc? : DeployNext → Option DeployPc
  | .goto pc => some pc
  | _ => none

/-- Where a handler goes on after its stop. -/
def AfterStop.pc (id : RowId) : AfterStop → ApiPc
  | .patch slots => .patch id slots
  | .delete => .delete id

namespace Server

/-- A deploy in a task of its own. -/
def spawnAttempt (s : Server) (id : RowId) : Server :=
  { s with
    attempts := Function.update s.attempts s.nextCall (some (id, .check))
    nextCall := s.nextCall + 1 }

def attemptStep (s : Server) (call : CallId) (fault : Bool) : Option Server :=
  (s.attempts call).bind fun (id, pc) =>
    (s.shared.deployStep call id fault pc).map fun (t, next) =>
      { s with
        shared := t.endCall call id next
        attempts := Function.update s.attempts call (next.pc?.map fun pc => (id, pc)) }

def apiStep (s : Server) (fault : Bool) : Option Server :=
  match s.api with
  | .spawn id => some { s.spawnAttempt id with api := .idle }
  | .stop id after =>
      some { s with api := .stopping s.nextCall id .start after, nextCall := s.nextCall + 1 }
  | .stopping call id pc after =>
      (s.shared.stopStep call id fault pc).map fun (t, next) =>
        { s with
          shared := t
          api := (next.map fun pc => .stopping call id pc after).getD (after.pc id) }
  | .autoNext (id :: rest) =>
      some { s with api := .autoDeploy s.nextCall id .check rest, nextCall := s.nextCall + 1 }
  | .autoDeploy call id pc rest =>
      (s.shared.deployStep call id fault pc).map fun (t, next) =>
        { s with
          shared := t.endCall call id next
          api := (next.pc?.map fun pc => .autoDeploy call id pc rest).getD (.autoNext rest) }
  | pc => (s.shared.handlerStep fault pc).map fun (t, pc) => { s with shared := t, api := pc }

end Server

end Kdct
