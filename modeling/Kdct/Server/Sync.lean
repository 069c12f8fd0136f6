/-
The task that brings node events to the database (`crates/kdcts/src/main.rs`), and
the cleanup of a disconnected node, `remove_by_node`
(`crates/kdcts/src/deployment_tracker.rs`).

`fault` says that opening the database or the statement of a step fails.
-/
import Kdct.Server.Stop

namespace Kdct

namespace Shared

/-- The deployments of a node. -/
def nodeKeys (s : Shared) (uuid : NodeUuid) : List DeploymentKey :=
  (s.tracker.entries.filter fun e => e.2.nodeUuid == uuid).map Sigma.fst

/-- What the task does with an event it receives, and where it is then.
Container events only fill a map that nothing reads. -/
def syncEvent (s : Shared) (fault : Bool) : NodeUpdate → Shared × SyncPc
  | ⟨uuid, .connected digest status⟩ =>
      if fault then (s, .idle)
      else
        ({ s with db := s.db.upsertNode uuid digest status.hostname status.portRangeStart
                          status.portRangeEnd }, .idle)
  | ⟨uuid, .disconnected _⟩ => (s, .openDb uuid)
  | _ => (s, .idle)

def syncStep (s : Shared) (fault : Bool) : SyncPc → Option (Shared × SyncPc)
  | .idle => none
  | .openDb uuid => some (s, if fault then .tracker uuid else .offline uuid)
  | .offline uuid =>
      some (if fault then s else { s with db := s.db.setNodeOffline uuid }, .findNode uuid)
  | .findNode uuid =>
      match if fault then none else s.db.getNodeByUuid uuid with
      | none => some (s, .tracker uuid)
      | some node => some (s, .list uuid node.id)
  | .list uuid nodeId =>
      if fault then some (s, .tracker uuid)
      else some (s, .pend uuid nodeId (s.db.getConnectionIdsForNode nodeId))
  | .pend uuid _ [] => some (s, .tracker uuid)
  | .pend uuid nodeId (cid :: rest) =>
      match if fault then none else s.db.updateConnectionNode cid (some nodeId) .pending none with
      | none => some (s, .pend uuid nodeId rest)
      | some db => some ({ s with db := db }, .pend uuid nodeId rest)
  | .tracker uuid =>
      if s.trackerLock.isSome then none
      else some ({ s with trackerLock := some .sync }, .keys uuid (s.nodeKeys uuid))
  | .keys _ [] => some ({ s with trackerLock := none }, .idle)
  | .keys uuid (key :: rest) =>
      match s.tracker.lookup key with
      | none => some (s, .keys uuid rest)
      | some d => some ({ s with tracker := s.tracker.erase key }, .table uuid d rest)
  | .table uuid d rest =>
      if s.tableLock.isSome then none
      else some ({ s with tableLock := some .sync }, .release uuid d.serverPorts rest)
  | .release uuid [] rest => some ({ s with tableLock := none }, .keys uuid rest)
  | .release uuid (port :: ports) rest => some (s.releasePort port, .release uuid ports rest)

end Shared

end Kdct
