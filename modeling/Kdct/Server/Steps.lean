/-
What the steps of the tasks can do.

Every step function gets one relation that says all that a step may do, guards
included, and one lemma that a step is in the relation.  Invariants are proved by
cases on the relations and never unfold a step function.
-/
import Kdct.Server.Machine

namespace Kdct

/-- Whether the status check of `try_auto_deploy` passes. -/
def Database.deployable (db : Database) (id : RowId) : Bool :=
  (db.getConnection id).any fun info =>
    info.row.bridgeId.isSome && info.row.imageId.isSome && info.row.nodeId.isSome &&
      info.row.status = .pending && info.nodeStatus = some .online

namespace Shared

/-! ## What an operation leaves alone -/

section Frames

variable (s : Shared) (ch : ChannelId) (name : String) (call : CallId)

theorem dropSender_frame (e : Event) :
    ∃ waiters log, s.dropSender call e = { s with waiters := waiters, log := log } := by
  unfold dropSender
  split
  · exact ⟨_, _, rfl⟩
  · exact ⟨s.waiters, s.log, rfl⟩

theorem insertWaiter_frame :
    ∃ pending waiters log, s.insertWaiter ch name call =
      { s with pending := pending, waiters := waiters, log := log } := by
  unfold insertWaiter
  split
  · rename_i other _
    obtain ⟨waiters, log, h⟩ := s.dropSender_frame other (.displaced other call)
    rw [h]
    exact ⟨_, _, _, rfl⟩
  · exact ⟨_, _, _, rfl⟩

theorem removeWaiter_frame :
    ∃ pending waiters log, s.removeWaiter ch name call =
      { s with pending := pending, waiters := waiters, log := log } := by
  unfold removeWaiter
  split
  · rename_i other _
    obtain ⟨waiters, log, h⟩ := s.dropSender_frame other (.removed other call)
    rw [h]
    exact ⟨_, _, _, rfl⟩
  · exact ⟨s.pending, s.waiters, s.log, rfl⟩

theorem answer_frame (reply : Reply) :
    ∃ pending waiters log, s.answer ch name reply =
      { s with pending := pending, waiters := waiters, log := log } := by
  unfold answer
  split
  · dsimp only
    split
    · exact ⟨_, _, _, rfl⟩
    · exact ⟨_, s.waiters, s.log, rfl⟩
  · exact ⟨s.pending, s.waiters, s.log, rfl⟩

theorem message_frame (cmd : ControlChannelCmd) :
    ∃ pending waiters log, s.message ch cmd =
      { s with pending := pending, waiters := waiters, log := log } := by
  cases cmd with
  | reportNodeStatus status =>
      simp only [message]
      generalize status.runningContainers = cs
      induction cs generalizing s with
      | nil => exact ⟨s.pending, s.waiters, s.log, rfl⟩
      | cons c cs ih =>
          obtain ⟨p, w, l, h⟩ := s.answer_frame ch c.containerName (.running c.ports)
          obtain ⟨p', w', l', h'⟩ := ih (s.answer ch c.containerName (.running c.ports))
          rw [List.foldl_cons, h', h]
          exact ⟨p', w', l', rfl⟩
  | containerStarted name ports => exact s.answer_frame ch name _
  | containerStopped name => exact s.answer_frame ch name _
  | containerError name text => exact s.answer_frame ch name _
  | _ => exact ⟨s.pending, s.waiters, s.log, rfl⟩

theorem spawnLoops_frame (d : Deploy) (p : BridgePort) (clientPort : Port) :
    ∃ loops nextLoop, s.spawnLoops d p clientPort =
      { s with loops := loops, nextLoop := nextLoop } := by
  unfold spawnLoops
  dsimp only
  split
  · split
    · exact ⟨_, _, rfl⟩
    · exact ⟨_, _, rfl⟩
  · split
    · exact ⟨_, _, rfl⟩
    · exact ⟨s.loops, s.nextLoop, rfl⟩

end Frames

/-! ## Deploys -/

/-- Where a deploy may return an error and leave everything as it is. -/
def refuses : DeployPc → Bool
  | .connection | .node .. | .image .. | .ports .. | .conflicts _ | .registry _ | .finish _ => true
  | _ => false

/-- The steps of a deploy. -/
inductive DeployStep (s : Shared) (call : CallId) (id : RowId) (fault : Bool) :
    DeployPc → Shared → DeployNext → Prop
  | skip (hskip : fault = false → s.db.deployable id = false) :
      DeployStep s call id fault .check s .skip
  | checked {info} (hfault : fault = false) (hrow : s.db.getConnection id = some info)
      (hslots : info.row.bridgeId.isSome ∧ info.row.imageId.isSome ∧ info.row.nodeId.isSome)
      (hstatus : info.row.status = .pending) (hnode : info.nodeStatus = some .online) :
      DeployStep s call id fault .check (s.note (.checked call id)) (.goto .connection)
  | refused {pc e} (hpc : refuses pc = true) : DeployStep s call id fault pc s (.exit (.error e))
  | connection {info bridgeId nodeId} (hrow : s.db.getConnection id = some info)
      (hbridge : info.row.bridgeId = some bridgeId) (hnode : info.row.nodeId = some nodeId) :
      DeployStep s call id fault .connection s (.goto (.node info bridgeId nodeId))
  | node {info bridgeId nodeId node} (hnode : s.db.getNodeById nodeId = some node)
      (honline : node.status = .online) :
      DeployStep s call id fault (.node info bridgeId nodeId) s (.goto (.image info bridgeId node))
  | image {info bridgeId node image} :
      DeployStep s call id fault (.image info bridgeId node) s
        (.goto (.ports info bridgeId node image))
  | ports {info bridgeId node image plan}
      (hplan : planPorts info bridgeId node image (s.db.getBridgePorts bridgeId) = .ok plan) :
      DeployStep s call id fault (.ports info bridgeId node image) s (.goto (.conflicts plan))
  | conflicts {plan} (hfree : conflict s.routes plan = none) :
      DeployStep s call id fault (.conflicts plan) s (.goto (.registry plan))
  | registry {plan ch} (hch : s.registry.lookup plan.node.nodeUuid = some ch) :
      DeployStep s call id fault (.registry plan) s
        (.goto (.envs { call := call, plan := plan, channel := ch }))
  | envs {d env} : DeployStep s call id fault (.envs d) s (.goto (.insert d env))
  | insert {d env} :
      DeployStep s call id fault (.insert d env)
        (s.insertWaiter d.channel d.plan.containerName call)
        (.goto (.send d env))
  | sendFailed {d env} (hclosed : d.channel ∈ s.closed) :
      DeployStep s call id fault (.send d env)
        { s with waiters := Function.update s.waiters call none } (.exit (.error .sendFailed))
  | sent {d env} : DeployStep s call id fault (.send d env) (s.note (.sent d)) (.goto (.wait d))
  | answered {d reply} (hreply : s.waiters call = some (.filled reply)) :
      DeployStep s call id fault (.wait d) s (.goto (.record d))
  | dropped {d} (hclosed : s.waiters call = some .closed) :
      DeployStep s call id fault (.wait d) s (.goto (.giveUp d .waiterDropped))
  | timedOut {d} (hwaiting : s.waiters call = some .waiting ∨ s.waiters call = none) :
      DeployStep s call id fault (.wait d) { s with waiters := Function.update s.waiters call none }
        (.goto (.giveUp d (.timeout d.plan.containerName)))
  | gaveUp {d e} :
      DeployStep s call id fault (.giveUp d e) (s.removeWaiter d.channel d.plan.containerName call)
        (.exit (.error e))
  | recorded {d} (hlock : s.trackerLock = none) :
      DeployStep s call id fault (.record d)
        ({ s with tracker := s.tracker.insert d.plan.key d.plan.deployment }.note (.recorded d))
        (.goto (.lock d))
  | locked {d} (hlock : s.tableLock = none) :
      DeployStep s call id fault (.lock d) { s with tableLock := some (.call call) }
        (.goto (.register d (d.plan.ports.zip d.plan.clientPorts)))
  | registered {d} :
      DeployStep s call id fault (.register d []) { s with tableLock := none } (.goto (.finish d))
  | routeRejected {d p clientPort rest path e} (hroute : p.route = some path)
      (hset : s.routes.set path (p.poolPort.getD 0) = .error e) :
      DeployStep s call id fault (.register d ((p, clientPort) :: rest))
        { s with tableLock := none }
        (.exit (.error (.route e)))
  | routed {d p clientPort rest path routes} (hroute : p.route = some path)
      (hset : s.routes.set path (p.poolPort.getD 0) = .ok routes) :
      DeployStep s call id fault (.register d ((p, clientPort) :: rest))
        (({ s with routes := routes }.note (.routed d path (p.poolPort.getD 0))).spawnLoops d p
          clientPort) (.goto (.push d (p, clientPort) rest))
  | unrouted {d p clientPort rest} (hroute : p.route = none) :
      DeployStep s call id fault (.register d ((p, clientPort) :: rest))
        (s.spawnLoops d p clientPort)
        (.goto (.push d (p, clientPort) rest))
  | pushed {d p clientPort rest} (hlock : s.forwardsLock = none) :
      DeployStep s call id fault (.push d (p, clientPort) rest)
        ({ s with forwards := s.forwards ++ [(p.poolPort.getD 0, d.sender p)] }.note
          (.forwarded d (p.poolPort.getD 0))) (.goto (.register d rest))
  | finished {d db text} (hfault : fault = false)
      (hdb : s.db.updateConnectionNode id (some d.plan.node.id) .deployed
        (some d.plan.containerName) = some db) :
      DeployStep s call id fault (.finish d) ({ s with db := db }.note (.deployed d))
        (.exit (.ok text))

theorem deployStep_cases {s t : Shared} {call : CallId} {id : RowId} {fault : Bool} {pc : DeployPc}
    {next : DeployNext} (h : s.deployStep call id fault pc = some (t, next)) :
    DeployStep s call id fault pc t next := by
  cases pc with
  | check =>
      simp only [deployStep] at h
      repeat' split at h
      all_goals obtain ⟨rfl, rfl⟩ := Prod.mk.inj (Option.some.inj h)
      · rename_i hfault
        exact .skip fun h => by rw [hfault] at h; cases h
      · rename_i hrow
        exact .skip fun _ => by simp [Database.deployable, hrow]
      · rename_i info hrow hslots
        refine .skip fun _ => ?_
        simp only [Bool.or_eq_true, Option.isNone_iff_eq_none] at hslots
        rcases hslots with (hslot | hslot) | hslot <;> simp [Database.deployable, hrow, hslot]
      · rename_i info hrow _ hstatus
        exact .skip fun _ => by simp [Database.deployable, hrow, hstatus]
      · rename_i info hrow _ _ hnode
        exact .skip fun _ => by simp [Database.deployable, hrow, hnode]
      · rename_i hfault _ info hrow hslots hstatus hnode
        refine .checked (Bool.eq_false_iff.mpr hfault) hrow ?_ (not_not.mp hstatus)
          (not_not.mp hnode)
        simpa [← Option.isSome_iff_ne_none, and_assoc] using hslots
  | connection =>
      simp only [deployStep, fail] at h
      repeat' split at h
      all_goals obtain ⟨rfl, rfl⟩ := Prod.mk.inj (Option.some.inj h)
      · exact .refused rfl
      · exact .refused rfl
      · exact .refused rfl
      · exact .refused rfl
      · exact .refused rfl
      · rename_i info hrow _ _ _ _ _ _ hbridge _ hnode
        exact .connection hrow hbridge hnode
  | node info bridgeId nodeId =>
      simp only [deployStep, fail] at h
      repeat' split at h
      all_goals obtain ⟨rfl, rfl⟩ := Prod.mk.inj (Option.some.inj h)
      · exact .refused rfl
      · exact .refused rfl
      · exact .refused rfl
      · rename_i hnode honline
        exact .node hnode (not_not.mp honline)
  | image info bridgeId node =>
      simp only [deployStep, fail] at h
      repeat' split at h
      all_goals obtain ⟨rfl, rfl⟩ := Prod.mk.inj (Option.some.inj h)
      · exact .refused rfl
      · exact .refused rfl
      · exact .image
  | ports info bridgeId node image =>
      simp only [deployStep, fail] at h
      repeat' split at h
      all_goals obtain ⟨rfl, rfl⟩ := Prod.mk.inj (Option.some.inj h)
      · exact .refused rfl
      · exact .refused rfl
      · rename_i hplan
        exact .ports hplan
  | conflicts plan =>
      simp only [deployStep, fail] at h
      repeat' split at h
      · cases h
      all_goals obtain ⟨rfl, rfl⟩ := Prod.mk.inj (Option.some.inj h)
      · exact .refused rfl
      · rename_i hfree
        exact .conflicts hfree
  | registry plan =>
      simp only [deployStep, fail] at h
      split at h
      all_goals obtain ⟨rfl, rfl⟩ := Prod.mk.inj (Option.some.inj h)
      · exact .refused rfl
      · rename_i hch
        exact .registry hch
  | envs d =>
      obtain ⟨rfl, rfl⟩ := Prod.mk.inj (Option.some.inj h)
      exact .envs
  | insert d env =>
      obtain ⟨rfl, rfl⟩ := Prod.mk.inj (Option.some.inj h)
      exact .insert
  | send d env =>
      simp only [deployStep, fail] at h
      split at h
      all_goals obtain ⟨rfl, rfl⟩ := Prod.mk.inj (Option.some.inj h)
      · rename_i hclosed
        exact .sendFailed hclosed
      · exact .sent
  | wait d =>
      simp only [deployStep] at h
      repeat' split at h
      · obtain ⟨rfl, rfl⟩ := Prod.mk.inj (Option.some.inj h)
        rename_i hreply
        exact .answered hreply
      · obtain ⟨rfl, rfl⟩ := Prod.mk.inj (Option.some.inj h)
        rename_i hclosed
        exact .dropped hclosed
      · rename_i hfilled hclosed _
        obtain ⟨rfl, rfl⟩ := Prod.mk.inj (Option.some.inj h)
        refine .timedOut ?_
        cases hw : s.waiters call with
        | none => exact .inr rfl
        | some w =>
            cases w with
            | waiting => exact .inl rfl
            | filled reply => exact absurd hw (hfilled reply)
            | closed => exact absurd hw hclosed
      · cases h
  | giveUp d e =>
      obtain ⟨rfl, rfl⟩ := Prod.mk.inj (Option.some.inj h)
      exact .gaveUp
  | record d =>
      simp only [deployStep] at h
      split at h
      · cases h
      · rename_i hlock
        obtain ⟨rfl, rfl⟩ := Prod.mk.inj (Option.some.inj h)
        exact .recorded (Option.not_isSome_iff_eq_none.mp hlock)
  | lock d =>
      simp only [deployStep] at h
      split at h
      · cases h
      · rename_i hlock
        obtain ⟨rfl, rfl⟩ := Prod.mk.inj (Option.some.inj h)
        exact .locked (Option.not_isSome_iff_eq_none.mp hlock)
  | register d rest =>
      cases rest with
      | nil =>
          obtain ⟨rfl, rfl⟩ := Prod.mk.inj (Option.some.inj h)
          exact .registered
      | cons port rest =>
          simp only [deployStep, fail] at h
          repeat' split at h
          all_goals obtain ⟨rfl, rfl⟩ := Prod.mk.inj (Option.some.inj h)
          · rename_i hroute _ _ hset
            exact .routeRejected hroute hset
          · rename_i hroute _ _ hset
            exact .routed hroute hset
          · rename_i hroute
            exact .unrouted hroute
  | push d port rest =>
      simp only [deployStep] at h
      split at h
      · cases h
      · rename_i hlock
        obtain ⟨rfl, rfl⟩ := Prod.mk.inj (Option.some.inj h)
        exact .pushed (Option.not_isSome_iff_eq_none.mp hlock)
  | finish d =>
      simp only [deployStep, fail] at h
      repeat' split at h
      all_goals obtain ⟨rfl, rfl⟩ := Prod.mk.inj (Option.some.inj h)
      · exact .refused rfl
      · exact .refused rfl
      · rename_i hfault _ _ hdb
        exact .finished (Bool.eq_false_iff.mpr hfault) hdb

/-- A deploy writes one row and takes nothing from the pool. -/
theorem DeployStep.frame {s t : Shared} {call : CallId} {id : RowId} {fault : Bool} {pc : DeployPc}
    {next : DeployNext} (h : DeployStep s call id fault pc t next) :
    t.pool = s.pool ∧ t.registry = s.registry ∧ t.closed = s.closed ∧ t.signalled = s.signalled ∧
      t.db = { s.db with connections := t.db.connections } := by
  cases h
  case insert d env =>
    obtain ⟨_, _, _, h⟩ := s.insertWaiter_frame d.channel d.plan.containerName call
    rw [h]
    exact ⟨rfl, rfl, rfl, rfl, rfl⟩
  case gaveUp d e =>
    obtain ⟨_, _, _, h⟩ := s.removeWaiter_frame d.channel d.plan.containerName call
    rw [h]
    exact ⟨rfl, rfl, rfl, rfl, rfl⟩
  case routed d p clientPort rest path routes _ _ =>
    obtain ⟨_, _, h⟩ := ({ s with routes := routes }.note
      (.routed d path (p.poolPort.getD 0))).spawnLoops_frame d p clientPort
    rw [h]
    exact ⟨rfl, rfl, rfl, rfl, rfl⟩
  case unrouted d p clientPort rest _ =>
    obtain ⟨_, _, h⟩ := s.spawnLoops_frame d p clientPort
    rw [h]
    exact ⟨rfl, rfl, rfl, rfl, rfl⟩
  case finished d db text _ hdb =>
    exact ⟨rfl, rfl, rfl, rfl, by rw [Database.updateConnectionNode_eq hdb]; rfl⟩
  all_goals exact ⟨rfl, rfl, rfl, rfl, rfl⟩

theorem endCall_frame (s : Shared) (call : CallId) (id : RowId) (next : DeployNext) :
    ∃ log, s.endCall call id next = { s with log := log } := by
  cases next <;> exact ⟨_, rfl⟩

/-! ## Stops -/

/-- The steps of a stop. -/
inductive StopStep (s : Shared) (call : CallId) (id : RowId) (fault : Bool) :
    StopPc → Shared → StopNext → Prop
  | refused : StopStep s call id fault .start s none
  | started {info} (hrow : s.db.getConnection id = some info)
      (hstatus : info.row.status = .deployed) :
      StopStep s call id fault .start s (some (.node
        { connectionId := id, connectionName := info.row.name, nodeId := info.row.nodeId,
          containerName := info.row.containerName.getD info.row.name }))
  | nodeGone {info} (hgone : fault = true ∨ info.nodeId.bind s.db.getNodeById = none) :
      StopStep s call id fault (.node info) s (some (.finish info))
  | node {info node} (hnode : info.nodeId.bind s.db.getNodeById = some node) :
      StopStep s call id fault (.node info) s (some (.registry info node.nodeUuid))
  | offline {info nodeUuid} :
      StopStep s call id fault (.registry info nodeUuid) s (some (.find info nodeUuid))
  | registry {info nodeUuid ch} :
      StopStep s call id fault (.registry info nodeUuid) s (some (.insert info nodeUuid ch))
  | insert {info nodeUuid ch} :
      StopStep s call id fault (.insert info nodeUuid ch)
        (s.insertWaiter ch info.containerName call) (some (.send info nodeUuid ch))
  | sent {info nodeUuid ch} :
      StopStep s call id fault (.send info nodeUuid ch) s (some (.wait info nodeUuid))
  | timedOut {info nodeUuid} :
      StopStep s call id fault (.wait info nodeUuid)
        { s with waiters := Function.update s.waiters call none } (some (.find info nodeUuid))
  | answered {info nodeUuid} (hreply : s.waiters call ≠ some .waiting) :
      StopStep s call id fault (.wait info nodeUuid) s (some (.find info nodeUuid))
  | unrecorded {info nodeUuid} (hnone : s.tracker.lookup (info.connectionName, nodeUuid) = none) :
      StopStep s call id fault (.find info nodeUuid) s (some (.finish info))
  | found {info nodeUuid d} (hlock : s.trackerLock = none)
      (hfound : s.tracker.lookup (info.connectionName, nodeUuid) = some d) :
      StopStep s call id fault (.find info nodeUuid) s (some (.lock info nodeUuid d))
  | locked {info nodeUuid d} (hlock : s.tableLock = none) :
      StopStep s call id fault (.lock info nodeUuid d) { s with tableLock := some (.call call) }
        (some (.release info nodeUuid d d.serverPorts))
  | release {info nodeUuid d port rest} :
      StopStep s call id fault (.release info nodeUuid d (port :: rest)) (s.releasePort port)
        (some (.release info nodeUuid d rest))
  | released {info nodeUuid d} :
      StopStep s call id fault (.release info nodeUuid d []) { s with tableLock := none }
        (some (.forwards info nodeUuid d))
  | forwards {info nodeUuid d} (hlock : s.forwardsLock = none) :
      StopStep s call id fault (.forwards info nodeUuid d)
        { s.dropForwards d.serverPorts with forwardsLock := some (.call call) }
        (some (.untrack info nodeUuid))
  | untracked {info nodeUuid} (hlock : s.trackerLock = none) :
      StopStep s call id fault (.untrack info nodeUuid)
        { s with
          tracker := s.tracker.erase (info.connectionName, nodeUuid)
          forwardsLock := none } (some (.finish info))
  | finishFailed {info} (hfault : fault = true) : StopStep s call id fault (.finish info) s none
  | finished {info db} (hfault : fault = false)
      (hdb : s.db.updateConnectionNode id none .pending none = some db) :
      StopStep s call id fault (.finish info) { s with db := db } none

theorem stopStep_cases {s t : Shared} {call : CallId} {id : RowId} {fault : Bool} {pc : StopPc}
    {next : StopNext} (h : s.stopStep call id fault pc = some (t, next)) :
    StopStep s call id fault pc t next := by
  cases pc with
  | start =>
      simp only [stopStep] at h
      repeat' split at h
      all_goals obtain ⟨rfl, rfl⟩ := Prod.mk.inj (Option.some.inj h)
      · exact .refused
      · exact .refused
      · exact .refused
      · rename_i hrow hstatus
        exact .started hrow (not_not.mp hstatus)
  | node info =>
      simp only [stopStep] at h
      split at h
      all_goals obtain ⟨rfl, rfl⟩ := Prod.mk.inj (Option.some.inj h)
      · rename_i hnode
        refine .nodeGone ?_
        cases fault with
        | true => exact .inl rfl
        | false => exact .inr hnode
      · rename_i hnode
        refine .node ?_
        cases fault with
        | true =>
            obtain ⟨_, _, hnone⟩ := Option.bind_eq_some_iff.mp hnode
            cases hnone
        | false => exact hnode
  | registry info nodeUuid =>
      simp only [stopStep] at h
      split at h
      all_goals obtain ⟨rfl, rfl⟩ := Prod.mk.inj (Option.some.inj h)
      · exact .offline
      · exact .registry
  | insert info nodeUuid ch =>
      obtain ⟨rfl, rfl⟩ := Prod.mk.inj (Option.some.inj h)
      exact .insert
  | send info nodeUuid ch =>
      obtain ⟨rfl, rfl⟩ := Prod.mk.inj (Option.some.inj h)
      exact .sent
  | wait info nodeUuid =>
      simp only [stopStep] at h
      repeat' split at h
      · obtain ⟨rfl, rfl⟩ := Prod.mk.inj (Option.some.inj h)
        exact .timedOut
      · cases h
      · rename_i hreply
        obtain ⟨rfl, rfl⟩ := Prod.mk.inj (Option.some.inj h)
        exact .answered hreply
  | find info nodeUuid =>
      simp only [stopStep] at h
      repeat' split at h
      · cases h
      · rename_i hnone
        obtain ⟨rfl, rfl⟩ := Prod.mk.inj (Option.some.inj h)
        exact .unrecorded hnone
      · rename_i hlock _ _ hfound
        obtain ⟨rfl, rfl⟩ := Prod.mk.inj (Option.some.inj h)
        exact .found (Option.not_isSome_iff_eq_none.mp hlock) hfound
  | lock info nodeUuid d =>
      simp only [stopStep] at h
      split at h
      · cases h
      · rename_i hlock
        obtain ⟨rfl, rfl⟩ := Prod.mk.inj (Option.some.inj h)
        exact .locked (Option.not_isSome_iff_eq_none.mp hlock)
  | release info nodeUuid d rest =>
      cases rest with
      | nil =>
          obtain ⟨rfl, rfl⟩ := Prod.mk.inj (Option.some.inj h)
          exact .released
      | cons port rest =>
          obtain ⟨rfl, rfl⟩ := Prod.mk.inj (Option.some.inj h)
          exact .release
  | forwards info nodeUuid d =>
      simp only [stopStep] at h
      split at h
      · cases h
      · rename_i hlock
        obtain ⟨rfl, rfl⟩ := Prod.mk.inj (Option.some.inj h)
        exact .forwards (Option.not_isSome_iff_eq_none.mp hlock)
  | untrack info nodeUuid =>
      simp only [stopStep] at h
      split at h
      · cases h
      · rename_i hlock
        obtain ⟨rfl, rfl⟩ := Prod.mk.inj (Option.some.inj h)
        exact .untracked (Option.not_isSome_iff_eq_none.mp hlock)
  | finish info =>
      simp only [stopStep] at h
      split at h
      · rename_i hfault
        obtain ⟨rfl, rfl⟩ := Prod.mk.inj (Option.some.inj h)
        exact .finishFailed hfault
      · split at h
        all_goals obtain ⟨rfl, rfl⟩ := Prod.mk.inj (Option.some.inj h)
        · rename_i hnone
          simp [Database.updateConnectionNode] at hnone
        · rename_i hfault _ _ hdb
          exact .finished (Bool.eq_false_iff.mpr hfault) hdb

/-- A stop writes one row and releases one port at a time. -/
theorem StopStep.frame {s t : Shared} {call : CallId} {id : RowId} {fault : Bool} {pc : StopPc}
    {next : StopNext} (h : StopStep s call id fault pc t next) :
    t.registry = s.registry ∧ t.closed = s.closed ∧ t.loops = s.loops ∧
      t.db = { s.db with connections := t.db.connections } ∧
      (t.pool = s.pool ∧ t.routes = s.routes ∨ ∃ info nodeUuid d port rest,
        pc = .release info nodeUuid d (port :: rest) ∧ t.pool = s.pool.releaseByPort port ∧
          t.routes = s.routes.removeByPort port) := by
  cases h
  case insert info nodeUuid ch =>
    obtain ⟨_, _, _, h⟩ := s.insertWaiter_frame ch info.containerName call
    rw [h]
    exact ⟨rfl, rfl, rfl, rfl, .inl ⟨rfl, rfl⟩⟩
  case release info nodeUuid d port rest =>
    exact ⟨rfl, rfl, rfl, rfl, .inr ⟨info, nodeUuid, d, port, rest, rfl, rfl, rfl⟩⟩
  case finished info db hfault hdb =>
    exact ⟨rfl, rfl, rfl, by rw [Database.updateConnectionNode_eq hdb], .inl ⟨rfl, rfl⟩⟩
  all_goals exact ⟨rfl, rfl, rfl, rfl, .inl ⟨rfl, rfl⟩⟩

/-! ## Disconnects -/

/-- The steps of the sync task with a disconnect. -/
inductive SyncStep (s : Shared) (fault : Bool) : SyncPc → Shared → SyncPc → Prop
  | openFailed {uuid} (hfault : fault = true) : SyncStep s fault (.openDb uuid) s (.tracker uuid)
  | opened {uuid} : SyncStep s fault (.openDb uuid) s (.offline uuid)
  | offlineFailed {uuid} (hfault : fault = true) :
      SyncStep s fault (.offline uuid) s (.findNode uuid)
  | offline {uuid} :
      SyncStep s fault (.offline uuid) { s with db := s.db.setNodeOffline uuid } (.findNode uuid)
  | nodeGone {uuid} (hgone : fault = true ∨ s.db.getNodeByUuid uuid = none) :
      SyncStep s fault (.findNode uuid) s (.tracker uuid)
  | node {uuid node} (hnode : s.db.getNodeByUuid uuid = some node) :
      SyncStep s fault (.findNode uuid) s (.list uuid node.id)
  | listFailed {uuid nodeId} (hfault : fault = true) :
      SyncStep s fault (.list uuid nodeId) s (.tracker uuid)
  | listed {uuid nodeId} :
      SyncStep s fault (.list uuid nodeId) s
        (.pend uuid nodeId (s.db.getConnectionIdsForNode nodeId))
  | pended {uuid nodeId} : SyncStep s fault (.pend uuid nodeId []) s (.tracker uuid)
  | pendFailed {uuid nodeId cid rest}
      (hnone : fault = true ∨
        s.db.updateConnectionNode cid (some nodeId) .pending none = none) :
      SyncStep s fault (.pend uuid nodeId (cid :: rest)) s (.pend uuid nodeId rest)
  | pend {uuid nodeId cid rest db} (hfault : fault = false)
      (hdb : s.db.updateConnectionNode cid (some nodeId) .pending none = some db) :
      SyncStep s fault (.pend uuid nodeId (cid :: rest)) { s with db := db }
        (.pend uuid nodeId rest)
  | locked {uuid} (hlock : s.trackerLock = none) :
      SyncStep s fault (.tracker uuid) { s with trackerLock := some .sync }
        (.keys uuid (s.nodeKeys uuid))
  | unlocked {uuid} : SyncStep s fault (.keys uuid []) { s with trackerLock := none } .idle
  | keyGone {uuid key rest} (hnone : s.tracker.lookup key = none) :
      SyncStep s fault (.keys uuid (key :: rest)) s (.keys uuid rest)
  | erased {uuid key rest d} (hfound : s.tracker.lookup key = some d) :
      SyncStep s fault (.keys uuid (key :: rest)) { s with tracker := s.tracker.erase key }
        (.table uuid d rest)
  | tableLocked {uuid d rest} (hlock : s.tableLock = none) :
      SyncStep s fault (.table uuid d rest) { s with tableLock := some .sync }
        (.release uuid d.serverPorts rest)
  | released {uuid rest} :
      SyncStep s fault (.release uuid [] rest) { s with tableLock := none } (.keys uuid rest)
  | release {uuid port ports rest} :
      SyncStep s fault (.release uuid (port :: ports) rest) (s.releasePort port)
        (.release uuid ports rest)

theorem syncStep_cases {s t : Shared} {fault : Bool} {pc next : SyncPc}
    (h : s.syncStep fault pc = some (t, next)) : SyncStep s fault pc t next := by
  cases pc with
  | idle => cases h
  | openDb uuid =>
      obtain ⟨rfl, rfl⟩ := Prod.mk.inj (Option.some.inj h)
      cases fault with
      | true => exact .openFailed rfl
      | false => exact .opened
  | offline uuid =>
      obtain ⟨rfl, rfl⟩ := Prod.mk.inj (Option.some.inj h)
      cases fault with
      | true => exact .offlineFailed rfl
      | false => exact .offline
  | findNode uuid =>
      simp only [syncStep] at h
      cases fault with
      | true =>
          obtain ⟨rfl, rfl⟩ := Prod.mk.inj (Option.some.inj h)
          exact .nodeGone (.inl rfl)
      | false =>
          split at h
          all_goals obtain ⟨rfl, rfl⟩ := Prod.mk.inj (Option.some.inj h)
          · rename_i hnone
            exact .nodeGone (.inr hnone)
          · rename_i hnode
            exact .node hnode
  | list uuid nodeId =>
      simp only [syncStep] at h
      split at h
      all_goals obtain ⟨rfl, rfl⟩ := Prod.mk.inj (Option.some.inj h)
      · rename_i hfault
        exact .listFailed hfault
      · exact .listed
  | pend uuid nodeId rest =>
      cases rest with
      | nil =>
          obtain ⟨rfl, rfl⟩ := Prod.mk.inj (Option.some.inj h)
          exact .pended
      | cons cid rest =>
          simp only [syncStep] at h
          cases fault with
          | true =>
              obtain ⟨rfl, rfl⟩ := Prod.mk.inj (Option.some.inj h)
              exact .pendFailed (.inl rfl)
          | false =>
              split at h
              all_goals obtain ⟨rfl, rfl⟩ := Prod.mk.inj (Option.some.inj h)
              · rename_i hnone
                exact .pendFailed (.inr hnone)
              · rename_i hdb
                exact .pend rfl hdb
  | tracker uuid =>
      simp only [syncStep] at h
      split at h
      · cases h
      · rename_i hlock
        obtain ⟨rfl, rfl⟩ := Prod.mk.inj (Option.some.inj h)
        exact .locked (Option.not_isSome_iff_eq_none.mp hlock)
  | keys uuid rest =>
      cases rest with
      | nil =>
          obtain ⟨rfl, rfl⟩ := Prod.mk.inj (Option.some.inj h)
          exact .unlocked
      | cons key rest =>
          simp only [syncStep] at h
          split at h
          all_goals obtain ⟨rfl, rfl⟩ := Prod.mk.inj (Option.some.inj h)
          · rename_i hnone
            exact .keyGone hnone
          · rename_i hfound
            exact .erased hfound
  | table uuid d rest =>
      simp only [syncStep] at h
      split at h
      · cases h
      · rename_i hlock
        obtain ⟨rfl, rfl⟩ := Prod.mk.inj (Option.some.inj h)
        exact .tableLocked (Option.not_isSome_iff_eq_none.mp hlock)
  | release uuid ports rest =>
      cases ports with
      | nil =>
          obtain ⟨rfl, rfl⟩ := Prod.mk.inj (Option.some.inj h)
          exact .released
      | cons port ports =>
          obtain ⟨rfl, rfl⟩ := Prod.mk.inj (Option.some.inj h)
          exact .release

/-- A disconnect changes nodes and connections and releases one port at a time. -/
theorem SyncStep.frame {s t : Shared} {fault : Bool} {pc next : SyncPc}
    (h : SyncStep s fault pc t next) :
    t.registry = s.registry ∧ t.closed = s.closed ∧ t.loops = s.loops ∧ t.forwards = s.forwards ∧
      t.signalled = s.signalled ∧ t.log = s.log ∧ t.waiters = s.waiters ∧ t.pending = s.pending ∧
      t.db = { s.db with connections := t.db.connections, clientNodes := t.db.clientNodes } ∧
      (t.pool = s.pool ∧ t.routes = s.routes ∨ ∃ uuid port ports rest,
        pc = .release uuid (port :: ports) rest ∧ t.pool = s.pool.releaseByPort port ∧
          t.routes = s.routes.removeByPort port) := by
  cases h
  case release uuid port ports rest =>
    exact ⟨rfl, rfl, rfl, rfl, rfl, rfl, rfl, rfl, rfl,
      .inr ⟨uuid, port, ports, rest, rfl, rfl, rfl⟩⟩
  case pend uuid nodeId cid rest db hfault hdb =>
    exact ⟨rfl, rfl, rfl, rfl, rfl, rfl, rfl, rfl,
      by rw [Database.updateConnectionNode_eq hdb], .inl ⟨rfl, rfl⟩⟩
  all_goals exact ⟨rfl, rfl, rfl, rfl, rfl, rfl, rfl, rfl, rfl, .inl ⟨rfl, rfl⟩⟩

/-- An event changes the database. -/
theorem syncEvent_frame (s : Shared) (fault : Bool) (update : NodeUpdate) :
    ∃ clientNodes, (s.syncEvent fault update).1 =
      { s with db := { s.db with clientNodes := clientNodes } } := by
  unfold syncEvent
  split
  · rename_i uuid digest status
    split
    · exact ⟨s.db.clientNodes, rfl⟩
    · obtain ⟨clientNodes, h⟩ := s.db.upsertNode_eq uuid digest status.hostname
        status.portRangeStart status.portRangeEnd
      exact ⟨clientNodes, by rw [h]⟩
  · exact ⟨s.db.clientNodes, rfl⟩
  · exact ⟨s.db.clientNodes, rfl⟩

/-! ## Handlers -/

/-- A handler works on the database and the pool. -/
theorem request_frame (s : Shared) (fault : Bool) (r : Request) :
    ∃ db pool, (s.request fault r).1 = { s with db := db, pool := pool } := by
  cases r with
  | postBridge name =>
      simp only [request]
      split <;> exact ⟨_, s.pool, rfl⟩
  | postPort spec =>
      simp only [request]
      repeat' split
      all_goals exact ⟨s.db, _, rfl⟩
  | postEnv bridgeId envs good => exact ⟨_, s.pool, rfl⟩
  | postConnection name slots =>
      simp only [request]
      split <;> exact ⟨_, s.pool, rfl⟩
  | _ => exact ⟨s.db, s.pool, rfl⟩

theorem handlerStep_frame {s t : Shared} {fault : Bool} {pc next : ApiPc}
    (h : s.handlerStep fault pc = some (t, next)) :
    ∃ db pool, t = { s with db := db, pool := pool } := by
  cases pc
  case releaseBridge bridgeId rest =>
    cases rest <;> obtain ⟨rfl, rfl⟩ := Prod.mk.inj (Option.some.inj h) <;> exact ⟨s.db, _, rfl⟩
  case autoNext rest =>
    cases rest with
    | nil =>
        obtain ⟨rfl, rfl⟩ := Prod.mk.inj (Option.some.inj h)
        exact ⟨s.db, s.pool, rfl⟩
    | cons id rest => cases h
  case deleteBridge | deletePort | delete =>
    obtain ⟨rfl, rfl⟩ := Prod.mk.inj (Option.some.inj h)
    cases fault <;> exact ⟨_, s.pool, rfl⟩
  case unreserve | releasePort =>
    obtain ⟨rfl, rfl⟩ := Prod.mk.inj (Option.some.inj h)
    exact ⟨s.db, _, rfl⟩
  all_goals
    unfold handlerStep at h
    dsimp only at h
    repeat' split at h
    all_goals first
      | cases h
        done
      | obtain ⟨rfl, rfl⟩ := Prod.mk.inj (Option.some.inj h)
        exact ⟨_, s.pool, rfl⟩

/-- What a request does to the database before its handler goes on. -/
inductive RequestWrite (db : Database) : Request → Database → Prop
  | same {r} : RequestWrite db r db
  | postBridge {name db'} (hdb : db.insertBridge name = some db') :
      RequestWrite db (.postBridge name) db'
  | postEnv {bridgeId envs good} :
      RequestWrite db (.postEnv bridgeId envs good) (db.setBridgeEnvs bridgeId envs good)
  | postConnection {name slots} :
      RequestWrite db (.postConnection name slots) (db.insertConnection name)

theorem request_write (s : Shared) (fault : Bool) (r : Request) :
    RequestWrite s.db r (s.request fault r).1.db := by
  cases r with
  | postBridge name =>
      simp only [request]
      split
      · exact .same
      · rename_i db hdb
        refine .postBridge ?_
        cases hcond : fault || name.isEmpty with
        | true => simp [hcond] at hdb
        | false => simpa [hcond] using hdb
  | postPort spec =>
      simp only [request]
      repeat' split
      all_goals exact .same
  | postEnv bridgeId envs good => exact .postEnv
  | postConnection name slots =>
      simp only [request]
      split
      · exact .same
      · exact .postConnection
  | _ => exact .same

/-- What a handler does to the database. -/
inductive HandlerWrite (db : Database) (fault : Bool) : ApiPc → Database → Prop
  | same {pc} : HandlerWrite db fault pc db
  | insertPort {spec port db'} (hfault : fault = false)
      (hdb : db.insertBridgePort spec.bridgeId spec.containerPort spec.mode spec.routePath
        spec.protocols (some port) = some db') :
      HandlerWrite db fault (.insertPort spec port) db'
  | deleteBridge {bridgeId} (hfault : fault = false) :
      HandlerWrite db fault (.deleteBridge bridgeId) (db.deleteBridge bridgeId)
  | deletePort {bridgeId containerPort} (hfault : fault = false) :
      HandlerWrite db fault (.deletePort bridgeId containerPort)
        (db.deleteBridgePort bridgeId containerPort)
  | newSlots {id slots db'} (hfault : fault = false)
      (hdb : db.updateConnection id slots.bridgeId slots.imageId slots.nodeId = some db') :
      HandlerWrite db fault (.newSlots id slots) db'
  | patch {id slots db'} (hfault : fault = false)
      (hdb : db.updateConnection id slots.bridgeId slots.imageId slots.nodeId = some db') :
      HandlerWrite db fault (.patch id slots) db'
  | delete {id} (hfault : fault = false) :
      HandlerWrite db fault (.delete id) (db.deleteConnection id)

theorem handlerStep_write {s t : Shared} {fault : Bool} {pc next : ApiPc}
    (h : s.handlerStep fault pc = some (t, next)) : HandlerWrite s.db fault pc t.db := by
  cases pc
  case insertPort spec port =>
    unfold handlerStep at h
    dsimp only at h
    split at h
    all_goals obtain ⟨rfl, rfl⟩ := Prod.mk.inj (Option.some.inj h)
    · exact .same
    · rename_i db hdb
      cases fault with
      | true => cases hdb
      | false => exact .insertPort rfl hdb
  case releaseBridge bridgeId rest =>
    cases rest with
    | nil =>
        obtain ⟨rfl, rfl⟩ := Prod.mk.inj (Option.some.inj h)
        exact .same
    | cons port rest =>
        obtain ⟨rfl, rfl⟩ := Prod.mk.inj (Option.some.inj h)
        exact .same
  case deleteBridge bridgeId =>
    obtain ⟨rfl, rfl⟩ := Prod.mk.inj (Option.some.inj h)
    cases fault with
    | true => exact .same
    | false => exact .deleteBridge rfl
  case deletePort bridgeId containerPort =>
    obtain ⟨rfl, rfl⟩ := Prod.mk.inj (Option.some.inj h)
    cases fault with
    | true => exact .same
    | false => exact .deletePort rfl
  case newSlots id slots =>
    unfold handlerStep at h
    dsimp only at h
    repeat' split at h
    all_goals obtain ⟨rfl, rfl⟩ := Prod.mk.inj (Option.some.inj h)
    · exact .same
    · rename_i db hdb
      cases fault with
      | true => cases hdb
      | false => exact .newSlots rfl hdb
    · exact .same
  case patch id slots =>
    unfold handlerStep at h
    dsimp only at h
    split at h
    all_goals obtain ⟨rfl, rfl⟩ := Prod.mk.inj (Option.some.inj h)
    · exact .same
    · rename_i db hdb
      cases fault with
      | true => cases hdb
      | false => exact .patch rfl hdb
  case delete id =>
    obtain ⟨rfl, rfl⟩ := Prod.mk.inj (Option.some.inj h)
    cases fault with
    | true => exact .same
    | false => exact .delete rfl
  case autoNext rest =>
    cases rest with
    | nil =>
        obtain ⟨rfl, rfl⟩ := Prod.mk.inj (Option.some.inj h)
        exact .same
    | cons id rest => cases h
  all_goals
    unfold handlerStep at h
    dsimp only at h
    repeat' split at h
    all_goals first
      | cases h
        done
      | obtain ⟨rfl, rfl⟩ := Prod.mk.inj (Option.some.inj h)
        exact .same

/-! ## Surroundings -/

/-- A loop as it was spawned. -/
def spawned (l : PortLoop) : PortLoop := { l with state := .waiting }

/-- The steps of the surroundings. -/
inductive Around (s : Shared) (localAddr : LocalAddr) : Shared → Prop
  | registry (registry : HashMap NodeUuid ChannelId) (closed : List ChannelId) :
      Around s localAddr { s with registry := registry, closed := closed }
  | message (ch : ChannelId) (cmd : ControlChannelCmd) : Around s localAddr (s.message ch cmd)
  | loops (loops : List PortLoop) (hloops : (loops.map spawned).Sublist (s.loops.map spawned)) :
      Around s localAddr { s with loops := loops }
  | bridged (loops : List PortLoop) (l : PortLoop) (address : String)
      (hloops : (loops.map spawned).Sublist (s.loops.map spawned)) (hl : l ∈ s.loops)
      (htarget : target localAddr l = some address) :
      Around s localAddr (({ s with loops := loops } : Shared).note (.bridged l address))
  | image (name source sourceType : String) :
      Around s localAddr { s with db := s.db.insertImage name source sourceType }

theorem setLoop_spawned (s : Shared) (id : Nat) (state : LoopState) :
    (s.setLoop id state).loops.map spawned = s.loops.map spawned := by
  rw [setLoop, List.map_map]
  refine List.map_congr_left fun l _ => ?_
  rw [Function.comp_apply]
  split <;> rfl

theorem around_of_surroundings {s t : Shared} {localAddr : LocalAddr} {label : Label}
    (h : s.surroundings localAddr label = some t) : s.Around localAddr t := by
  have hsub : ∀ id state, ((s.setLoop id state).loops.map spawned).Sublist (s.loops.map spawned) :=
    fun id state => by rw [setLoop_spawned]
  have hset : ∀ id state, s.Around localAddr (s.setLoop id state) := fun id state =>
    .loops _ (hsub id state)
  have hend : ∀ id, s.Around localAddr (s.endLoop id) := fun id =>
    .loops _ (List.filter_sublist.map spawned)
  cases label with
  | register uuid ch | unregister uuid =>
      obtain rfl := Option.some.inj h
      exact .registry _ s.closed
  | closeChannel ch =>
      obtain rfl := Option.some.inj h
      exact .registry s.registry _
  | message ch cmd =>
      simp only [surroundings] at h
      split at h
      · cases h
      · obtain rfl := Option.some.inj h
        exact .message ch cmd
  | bindUdp id =>
      obtain ⟨l, _, h⟩ := Option.bind_eq_some_iff.mp h
      unfold bindUdp at h
      repeat' split at h
      all_goals cases h
      · exact hend l.id
      · exact hset l.id _
  | channelUdp id =>
      obtain ⟨l, _, h⟩ := Option.bind_eq_some_iff.mp h
      unfold channelUdp at h
      split at h
      all_goals cases h
      exact hset l.id _
  | visitor id =>
      obtain ⟨l, hl, h⟩ := Option.bind_eq_some_iff.mp h
      obtain ⟨address, htarget, h⟩ := Option.bind_eq_some_iff.mp h
      have hl := List.mem_of_find?_eq_some hl
      repeat' split at h
      all_goals cases h
      · exact .bridged (s.setLoop l.id .serving).loops l address (hsub _ _) hl htarget
      · exact .bridged s.loops l address (List.Sublist.refl _) hl htarget
  | visitorGone id =>
      obtain ⟨l, _, h⟩ := Option.bind_eq_some_iff.mp h
      unfold visitorGone at h
      split at h
      all_goals cases h
      exact hset l.id _
  | endLoop id error =>
      obtain ⟨l, _, h⟩ := Option.bind_eq_some_iff.mp h
      unfold stopLoop at h
      split at h
      all_goals cases h
      exact hend l.id
  | loadImage name source sourceType =>
      obtain rfl := Option.some.inj h
      exact .image name source sourceType
  | _ => cases h

/-- The surroundings change the registry, waiters and loops, and load images. -/
theorem Around.frame {s t : Shared} {localAddr : LocalAddr} (h : s.Around localAddr t) :
    t.pool = s.pool ∧ t.routes = s.routes ∧ t.tracker = s.tracker ∧ t.forwards = s.forwards ∧
      t.signalled = s.signalled ∧ t.tableLock = s.tableLock ∧ t.trackerLock = s.trackerLock ∧
      t.forwardsLock = s.forwardsLock ∧
      (t.db = s.db ∨ ∃ name source sourceType, t.db = s.db.insertImage name source sourceType) := by
  cases h with
  | message ch cmd =>
      obtain ⟨_, _, _, h⟩ := s.message_frame ch cmd
      rw [h]
      exact ⟨rfl, rfl, rfl, rfl, rfl, rfl, rfl, rfl, .inl rfl⟩
  | image name source sourceType =>
      exact ⟨rfl, rfl, rfl, rfl, rfl, rfl, rfl, rfl, .inr ⟨name, source, sourceType, rfl⟩⟩
  | _ => exact ⟨rfl, rfl, rfl, rfl, rfl, rfl, rfl, rfl, .inl rfl⟩

end Shared

end Kdct
