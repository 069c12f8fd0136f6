/-
Stopping one connection, `stop_connection` (`crates/kdcts/src/deploy.rs`).

`fault` says that the database statement of a step fails, and for the wait that
the time is up.
-/
import Kdct.Server.State

namespace Kdct

/-- How a step of a stop goes on; `none` is the end of the call. -/
abbrev StopNext := Option StopPc

namespace Shared

def releasePort (s : Shared) (port : Port) : Shared :=
  { s with routes := s.routes.removeByPort port, pool := s.pool.releaseByPort port }

/-- Drops the forwards of the ports and sends a shutdown through each. -/
def dropForwards (s : Shared) (ports : List Port) : Shared :=
  { s with
    forwards := s.forwards.filter fun f => f.1 ∉ ports
    signalled := (s.forwards.filter fun f => f.1 ∈ ports).map Prod.snd ++ s.signalled }

def stopStep (s : Shared) (call : CallId) (id : RowId) (fault : Bool) :
    StopPc → Option (Shared × StopNext)
  | .start =>
      if fault then some (s, none)
      else
        match s.db.getConnection id with
        | none => some (s, none)
        | some info =>
            if info.row.status ≠ .deployed then some (s, none)
            else some (s, some (.node
              { connectionId := id, connectionName := info.row.name, nodeId := info.row.nodeId,
                containerName := info.row.containerName.getD info.row.name }))
  | .node info =>
      match info.nodeId.bind fun n => if fault then none else s.db.getNodeById n with
      | none => some (s, some (.finish info))
      | some node => some (s, some (.registry info node.nodeUuid))
  | .registry info nodeUuid =>
      match s.registry.lookup nodeUuid with
      | none => some (s, some (.find info nodeUuid))
      | some ch => some (s, some (.insert info nodeUuid ch))
  | .insert info nodeUuid ch =>
      some (s.insertWaiter ch info.containerName call, some (.send info nodeUuid ch))
  | .send info nodeUuid _ => some (s, some (.wait info nodeUuid))
  | .wait info nodeUuid =>
      match s.waiters call with
      | some .waiting =>
          if fault then
            some ({ s with waiters := Function.update s.waiters call none },
              some (.find info nodeUuid))
          else none
      | _ => some (s, some (.find info nodeUuid))
  | .find info nodeUuid =>
      if s.trackerLock.isSome then none
      else
        match s.tracker.lookup (info.connectionName, nodeUuid) with
        | none => some (s, some (.finish info))
        | some d => some (s, some (.lock info nodeUuid d))
  | .lock info nodeUuid d =>
      if s.tableLock.isSome then none
      else some ({ s with tableLock := some (.call call) },
        some (.release info nodeUuid d d.serverPorts))
  | .release info nodeUuid d [] =>
      some ({ s with tableLock := none }, some (.forwards info nodeUuid d))
  | .release info nodeUuid d (port :: rest) =>
      some (s.releasePort port, some (.release info nodeUuid d rest))
  | .forwards info nodeUuid d =>
      if s.forwardsLock.isSome then none
      else some ({ s.dropForwards d.serverPorts with forwardsLock := some (.call call) },
        some (.untrack info nodeUuid))
  | .untrack info nodeUuid =>
      -- The guard of the forwards is still there.
      if s.trackerLock.isSome then none
      else some ({ s with
          tracker := s.tracker.erase (info.connectionName, nodeUuid)
          forwardsLock := none }, some (.finish info))
  | .finish _ =>
      if fault then some (s, none)
      else
        match s.db.updateConnectionNode id none .pending none with
        | none => some (s, none)
        | some db => some ({ s with db := db }, none)

end Shared

end Kdct
