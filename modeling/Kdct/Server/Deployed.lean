/-
Which connections are deployed, and by which deploy.

The status column says that a connection is deployed; the deploy that finished
last for it says how.  Only the last step of a deploy makes a connection deployed,
and every other step at most takes one back.
-/
import Kdct.Server.Moves

namespace Kdct

/-! ## The log of finished deploys -/

def Event.deployed? : Event → Option Deploy
  | .deployed d => some d
  | _ => none

namespace Shared

/-- The deploy that finished last for a connection. -/
def lastDeploy (s : Shared) (id : RowId) : Option Deploy :=
  (s.log.filterMap Event.deployed?).find? fun d => d.plan.connectionId == id

section Logs

variable {α : Type} (f : Event → Option α) (s : Shared) (ch : ChannelId) (name : String)
  (call : CallId)

theorem dropSender_log {e : Event} (he : f e = none) :
    (s.dropSender call e).log.filterMap f = s.log.filterMap f := by
  unfold dropSender
  split
  · exact List.filterMap_cons_none he
  · rfl

theorem insertWaiter_log (hf : ∀ other, f (.displaced other call) = none) :
    (s.insertWaiter ch name call).log.filterMap f = s.log.filterMap f := by
  unfold insertWaiter
  split
  · exact dropSender_log f s _ (hf _)
  · rfl

theorem removeWaiter_log (hf : ∀ other, f (.removed other call) = none) :
    (s.removeWaiter ch name call).log.filterMap f = s.log.filterMap f := by
  unfold removeWaiter
  split
  · exact dropSender_log f s _ (hf _)
  · rfl

theorem answer_log (reply : Reply) (hf : ∀ call, f (.answered call reply) = none) :
    (s.answer ch name reply).log.filterMap f = s.log.filterMap f := by
  unfold answer
  split
  · dsimp only
    split
    · exact List.filterMap_cons_none (hf _)
    · rfl
  · rfl

theorem message_log (cmd : ControlChannelCmd) (hf : ∀ call reply, f (.answered call reply) = none) :
    (s.message ch cmd).log.filterMap f = s.log.filterMap f := by
  cases cmd with
  | reportNodeStatus status =>
      simp only [message]
      generalize status.runningContainers = cs
      induction cs generalizing s with
      | nil => rfl
      | cons c cs ih =>
          rw [List.foldl_cons, ih]
          exact answer_log f s ch c.containerName _ fun call => hf call _
  | containerStarted name ports => exact answer_log f s ch name _ fun call => hf call _
  | containerStopped name => exact answer_log f s ch name _ fun call => hf call _
  | containerError name text => exact answer_log f s ch name _ fun call => hf call _
  | _ => rfl

theorem around_log {s t : Shared} {localAddr : LocalAddr}
    (hanswered : ∀ call reply, f (.answered call reply) = none)
    (hbridged : ∀ l address, f (.bridged l address) = none) (h : s.Around localAddr t) :
    t.log.filterMap f = s.log.filterMap f := by
  cases h with
  | message ch cmd => exact message_log f s ch cmd hanswered
  | bridged loops l address => exact List.filterMap_cons_none (hbridged _ _)
  | _ => rfl

theorem stop_log {s t : Shared} {call : CallId} {id : RowId} {fault : Bool} {pc : StopPc}
    {next : StopNext} (hf : ∀ other, f (.displaced other call) = none)
    (h : StopStep s call id fault pc t next) : t.log.filterMap f = s.log.filterMap f := by
  cases h
  case insert info nodeUuid ch => exact insertWaiter_log f s ch info.containerName call hf
  all_goals rfl

end Logs

theorem spawnLoops_log (s : Shared) (d : Deploy) (p : BridgePort) (clientPort : Port) :
    (s.spawnLoops d p clientPort).log = s.log := by
  obtain ⟨_, _, h⟩ := s.spawnLoops_frame d p clientPort
  rw [h]

theorem lastDeploy_congr {s t : Shared}
    (h : t.log.filterMap Event.deployed? = s.log.filterMap Event.deployed?) :
    t.lastDeploy = s.lastDeploy := by
  funext id
  rw [lastDeploy, h, lastDeploy]

end Shared

/-! ## What a deploy knows about itself -/

/-- The deploy of a task that has found its client. -/
def DeployPc.deploy? : DeployPc → Option Deploy
  | .envs d | .insert d _ | .send d _ | .wait d | .giveUp d _ | .record d | .lock d | .register d _
  | .push d _ _ | .finish d => some d
  | _ => none

/-- What a task carries is about its own call and connection. -/
def DeployPc.Belongs (call : CallId) (id : RowId) : DeployPc → Prop
  | .check | .connection => True
  | .node info _ _ | .image info _ _ | .ports info _ _ _ => info.row.id = id
  | .conflicts plan | .registry plan => plan.connectionId = id
  | .envs d | .insert d _ | .send d _ | .wait d | .giveUp d _ | .record d | .lock d | .register d _
  | .push d _ _ | .finish d => d.call = call ∧ d.plan.connectionId = id

theorem DeployPc.Belongs.deploy {call : CallId} {id : RowId} {pc : DeployPc}
    (h : pc.Belongs call id) {d : Deploy} (hd : pc.deploy? = some d) :
    d.call = call ∧ d.plan.connectionId = id := by
  cases pc <;> first | (obtain rfl := Option.some.inj hd; exact h) | cases hd

theorem Database.getConnection_row {db : Database} {id : RowId} {info : ConnectionInfo}
    (h : db.getConnection id = some info) :
    info.row ∈ db.connections.rows ∧ info.row.id = id := by
  obtain ⟨c, hc, rfl⟩ := Option.map_eq_some_iff.mp h
  exact Table.find?_eq_some.mp hc

namespace Shared

theorem planPorts_ok {info : ConnectionInfo} {bridgeId : RowId} {node : ClientNode}
    {image : ImageNode} {ports : List BridgePort} {plan : Plan}
    (h : planPorts info bridgeId node image ports = .ok plan) :
    plan = { connectionId := info.row.id, connectionName := info.row.name, bridgeId := bridgeId,
             node := node, image := image, ports := ports } ∧
      ∀ p ∈ ports, p.poolPort.isSome := by
  unfold planPorts at h
  dsimp only at h
  repeat' split at h
  · cases h
  · cases h
  · cases h
  · rename_i hnone
    refine ⟨(Except.ok.inj h).symm, fun p hp => ?_⟩
    have := List.find?_eq_none.mp hnone p hp
    simpa [Option.isSome_iff_ne_none] using this

theorem DeployStep.belongs {s t : Shared} {call : CallId} {id : RowId} {fault : Bool}
    {pc next : DeployPc} (h : DeployStep s call id fault pc t (.goto next))
    (hpc : pc.Belongs call id) :
    next.Belongs call id := by
  cases h
  case connection info bridgeId nodeId hrow _ _ => exact (Database.getConnection_row hrow).2
  case ports info bridgeId node image plan hplan =>
    rw [(planPorts_ok hplan).1]
    exact hpc
  case registry plan ch _ => exact ⟨rfl, hpc⟩
  all_goals trivial

/-- Only the last step of a deploy adds to the log of finished deploys. -/
theorem DeployStep.lastDeploy {s t : Shared} {call : CallId} {id : RowId} {fault : Bool}
    {pc : DeployPc} {next : DeployNext} (h : DeployStep s call id fault pc t next) :
    (t.endCall call id next).lastDeploy = s.lastDeploy ∧ t.db = s.db ∨
      ∃ d db, fault = false ∧ pc = .finish d ∧ t = { s with db := db }.note (.deployed d) ∧
        s.db.updateConnectionNode id (some d.plan.node.id) .deployed (some d.plan.containerName) =
          some db ∧
        ∀ i, (t.endCall call id next).lastDeploy i =
          if d.plan.connectionId = i then some d else s.lastDeploy i := by
  have hend : ∀ (u : Shared) (n : DeployNext), (u.endCall call id n).lastDeploy = u.lastDeploy := by
    intro u n
    refine lastDeploy_congr ?_
    cases n <;> rfl
  rw [hend]
  cases h
  case finished d db text hfault hdb =>
    refine .inr ⟨d, db, hfault, rfl, rfl, hdb, fun i => ?_⟩
    show (d :: s.log.filterMap Event.deployed?).find? (fun d => d.plan.connectionId == i) = _
    rw [List.find?_cons]
    by_cases hi : d.plan.connectionId = i
    · rw [if_pos hi, beq_iff_eq.mpr hi]
    · rw [if_neg hi, beq_eq_false_iff_ne.mpr hi]
      rfl
  case insert d env =>
    refine .inl ⟨lastDeploy_congr (insertWaiter_log _ s _ _ _ fun _ => rfl), ?_⟩
    obtain ⟨_, _, _, h⟩ := s.insertWaiter_frame d.channel d.plan.containerName call
    rw [h]
  case gaveUp d e =>
    refine .inl ⟨lastDeploy_congr (removeWaiter_log _ s _ _ _ fun _ => rfl), ?_⟩
    obtain ⟨_, _, _, h⟩ := s.removeWaiter_frame d.channel d.plan.containerName call
    rw [h]
  case routed d p clientPort rest path routes _ _ =>
    obtain ⟨_, _, h⟩ := ({ s with routes := routes }.note
      (.routed d path (p.poolPort.getD 0))).spawnLoops_frame d p clientPort
    rw [h]
    exact .inl ⟨rfl, rfl⟩
  case unrouted d p clientPort rest _ =>
    obtain ⟨_, _, h⟩ := s.spawnLoops_frame d p clientPort
    rw [h]
    exact .inl ⟨rfl, rfl⟩
  all_goals exact .inl ⟨rfl, rfl⟩

/-- The last step of a deploy writes its row, if the node it read is there. -/
theorem deployStep_finish {s t : Shared} {call : CallId} {id : RowId} {d : Deploy}
    {next : DeployNext} (h : s.deployStep call id false (.finish d) = some (t, next))
    (hnode : (s.db.getNodeById d.plan.node.id).isSome) :
    s.db.updateConnectionNode id (some d.plan.node.id) .deployed (some d.plan.containerName) =
      some t.db := by
  obtain ⟨db, hdb⟩ : ∃ db, s.db.updateConnectionNode id (some d.plan.node.id) .deployed
      (some d.plan.containerName) = some db := Database.updateConnectionNode_isSome hnode
  simp only [deployStep, hdb, Bool.false_eq_true, if_false] at h
  obtain ⟨rfl, -⟩ := Prod.mk.inj (Option.some.inj h)
  exact hdb

end Shared

/-! ## Rows of connections -/

/-- No row becomes deployed, and a deployed row keeps its node unless it is patched. -/
structure Database.Continues (db db' : Database) (patched : Option RowId) : Prop where
  rows : ∀ c' ∈ db'.connections.rows, c'.status = .deployed →
    ∃ c ∈ db.connections.rows, c.id = c'.id ∧ c.status = .deployed ∧
      (c'.nodeId = c.nodeId ∨ patched = some c'.id)
  names : ∀ c' ∈ db'.connections.rows,
    (∃ c ∈ db.connections.rows, c.id = c'.id ∧ c.name = c'.name) ∨ db.connections.seq < c'.id
  seq : db.connections.seq ≤ db'.connections.seq

namespace Database.Continues

variable {db db' : Database} {patched : Option RowId}

theorem of_eq (h : db'.connections = db.connections) : db.Continues db' patched := by
  refine ⟨fun c hc hstatus => ?_, fun c hc => ?_, by rw [h]⟩
  · rw [h] at hc
    exact ⟨c, hc, rfl, hstatus, .inl rfl⟩
  · rw [h] at hc
    exact .inl ⟨c, hc, rfl, rfl⟩

/-- Some rows are written, but not their ids and names. -/
theorem of_map {p : Connection → Bool} {f : Connection → Connection}
    (hrows : db'.connections.rows = db.connections.rows.map fun c => if p c then f c else c)
    (hseq : db'.connections.seq = db.connections.seq) (hf : ∀ c, (f c).id = c.id)
    (hname : ∀ c, (f c).name = c.name)
    (hstatus : ∀ c ∈ db.connections.rows, p c = true → (f c).status = .deployed →
      c.status = .deployed ∧ ((f c).nodeId = c.nodeId ∨ patched = some c.id)) :
    db.Continues db' patched := by
  refine ⟨fun c' hc' hdeployed => ?_, fun c' hc' => .inl ?_, Nat.le_of_eq hseq.symm⟩
  · rw [hrows] at hc'
    obtain ⟨c, hc, rfl⟩ := List.mem_map.mp hc'
    by_cases hp : p c = true
    · rw [if_pos hp] at hdeployed ⊢
      obtain ⟨hold, hnode⟩ := hstatus c hc hp hdeployed
      exact ⟨c, hc, (hf c).symm, hold, hnode.imp_right fun h => by rw [hf, h]⟩
    · rw [if_neg hp] at hdeployed ⊢
      exact ⟨c, hc, rfl, hdeployed, .inl rfl⟩
  · rw [hrows] at hc'
    obtain ⟨c, hc, rfl⟩ := List.mem_map.mp hc'
    refine ⟨c, hc, ?_⟩
    split
    · exact ⟨(hf c).symm, (hname c).symm⟩
    · exact ⟨rfl, rfl⟩

theorem updateConnection {id : RowId} {bridgeId imageId nodeId : Slot}
    (h : db.updateConnection id bridgeId imageId nodeId = some db') :
    db.Continues db' (if nodeId.isSome then some id else none) := by
  unfold Database.updateConnection at h
  split at h
  · obtain rfl := Option.some.inj h
    exact of_eq rfl
  · rename_i c hfind
    obtain ⟨hc, hkey⟩ := Table.find?_eq_some.mp hfind
    dsimp only at h
    split at h
    · obtain rfl := Option.some.inj h
      refine of_map rfl rfl (fun _ => rfl) (fun _ => rfl) fun c' hc' hid hstatus => ⟨hstatus, ?_⟩
      have hid : c'.id = id := beq_iff_eq.mp hid
      cases nodeId with
      | some node => exact .inr (by rw [hid]; rfl)
      | none =>
          -- The row that is written is the row that was read.
          rw [Table.eq_of_key hc' hc (hid.trans hkey.symm)]
          exact .inl rfl
    · cases h

/-- A connection that is taken back. -/
theorem updateConnectionNode {id : RowId} {nodeId : Option RowId} {containerName : Option String}
    (h : db.updateConnectionNode id nodeId .pending containerName = some db') :
    db.Continues db' patched := by
  rw [Database.updateConnectionNode_eq h]
  exact of_map rfl rfl (fun _ => rfl) (fun _ => rfl) fun _ _ _ hstatus => by cases hstatus

theorem insertConnection (name : String) : db.Continues (db.insertConnection name) patched := by
  refine ⟨fun c hc hstatus => ?_, fun c hc => ?_, Nat.le_succ _⟩
  · rcases Table.mem_insert.mp hc with hc | rfl
    · exact ⟨c, hc, rfl, hstatus, .inl rfl⟩
    · cases hstatus
  · rcases Table.mem_insert.mp hc with hc | rfl
    · exact .inl ⟨c, hc, rfl, rfl⟩
    · exact .inr (Nat.lt_succ_self _)

theorem deleteConnection (id : RowId) : db.Continues (db.deleteConnection id) patched := by
  refine ⟨fun c hc hstatus => ?_, fun c hc => ?_, Nat.le_refl _⟩
  · exact ⟨c, (Table.mem_deleteWhere.mp hc).1, rfl, hstatus, .inl rfl⟩
  · exact .inl ⟨c, (Table.mem_deleteWhere.mp hc).1, rfl, rfl⟩

theorem deleteBridge (bridgeId : RowId) : db.Continues (db.deleteBridge bridgeId) patched :=
  of_map rfl rfl (fun _ => rfl) (fun _ => rfl) fun _ _ _ hstatus => ⟨hstatus, .inl rfl⟩

theorem insertImage (name source sourceType : String) :
    db.Continues (db.insertImage name source sourceType) patched :=
  of_map rfl rfl (fun _ => rfl) (fun _ => rfl) fun _ _ _ hstatus => ⟨hstatus, .inl rfl⟩

end Database.Continues

/-- The connection whose node slot a step of the thread may write. -/
def ApiPc.patches : ApiPc → Option RowId
  | .patch id slots | .newSlots id slots => if slots.nodeId.isSome then some id else none
  | _ => none

namespace Shared

theorem RequestWrite.continues {db db' : Database} {r : Request} (h : RequestWrite db r db') :
    db.Continues db' none := by
  cases h with
  | same => exact .of_eq rfl
  | postBridge hdb => exact .of_eq (by rw [Database.insertBridge_eq hdb])
  | @postEnv bridgeId envs good =>
      obtain ⟨bridgeEnvs, henvs⟩ := db.setBridgeEnvs_eq bridgeId envs good
      exact .of_eq (by rw [henvs])
  | postConnection => exact .insertConnection _

theorem HandlerWrite.continues {db db' : Database} {fault : Bool} {pc : ApiPc}
    (h : HandlerWrite db fault pc db') : db.Continues db' pc.patches := by
  cases h with
  | same => exact .of_eq rfl
  | insertPort _ hdb => exact .of_eq (by rw [Database.insertBridgePort_eq hdb])
  | deleteBridge => exact .deleteBridge _
  | deletePort => exact .of_eq rfl
  | newSlots _ hdb | patch _ hdb => exact .updateConnection hdb
  | delete => exact .deleteConnection _

theorem StopStep.continues {s t : Shared} {call : CallId} {id : RowId} {fault : Bool} {pc : StopPc}
    {next : StopNext} (h : StopStep s call id fault pc t next) : s.db.Continues t.db none := by
  cases h
  case insert info nodeUuid ch =>
    obtain ⟨_, _, _, h⟩ := s.insertWaiter_frame ch info.containerName call
    rw [h]
    exact .of_eq rfl
  case finished info db hfault hdb => exact .updateConnectionNode hdb
  all_goals exact .of_eq rfl

theorem SyncStep.continues {s t : Shared} {fault : Bool} {pc next : SyncPc}
    (h : SyncStep s fault pc t next) : s.db.Continues t.db none := by
  cases h
  case pend uuid nodeId cid rest db hfault hdb => exact .updateConnectionNode hdb
  all_goals exact .of_eq rfl

end Shared

namespace Server

variable {ports : FreshPool} {localAddr : LocalAddr} {s s' : Server} {label : Label}

def patches (s : Server) : Label → Option RowId
  | .api _ => s.api.patches
  | _ => none

/-- Only the last step of a deploy makes a connection deployed. -/
theorem Move.continues (h : s.Move ports localAddr label s') :
    s'.shared.lastDeploy = s.shared.lastDeploy ∧
        s.shared.db.Continues s'.shared.db (s.patches label) ∨
      ∃ call id d, label.fault = false ∧ s.movesDeploy label = some (call, id, .finish d) ∧
        s.deploys call = some (id, .finish d) ∧
        s.shared.db.updateConnectionNode id (some d.plan.node.id) .deployed
          (some d.plan.containerName) = some s'.shared.db ∧
        ∀ i, s'.shared.lastDeploy i =
          if d.plan.connectionId = i then some d else s.shared.lastDeploy i := by
  have hnone : ∀ {db db' : Database}, db.Continues db' none → ∀ patched, db.Continues db' patched :=
    fun h _ => ⟨fun c hc hstatus =>
      have ⟨c₀, hc₀, hid, hold, hnode⟩ := h.rows c hc hstatus
      ⟨c₀, hc₀, hid, hold, hnode.imp_right nofun⟩, h.names, h.seq⟩
  cases h with
  | @deploy _ _ call id pc t next hmoves hpc hdeploy hshared =>
      rw [hshared]
      obtain ⟨log, hlog⟩ := t.endCall_frame call id next
      have hdb : (t.endCall call id next).db = t.db := by rw [hlog]
      rcases hdeploy.lastDeploy with ⟨hlast, heq⟩ | ⟨d, db, hfault, rfl, rfl, hset, hlast⟩
      · exact .inl ⟨hlast, .of_eq (by rw [hdb, heq])⟩
      · exact .inr ⟨call, id, d, hfault, hmoves, hpc, by rw [hdb]; exact hset, hlast⟩
  | stop _ _ _ hstop hshared =>
      rw [hshared]
      exact .inl ⟨Shared.lastDeploy_congr (Shared.stop_log _ (fun _ => rfl) hstop),
        hnone hstop.continues _⟩
  | start _ hshared | startStop _ hshared =>
      rw [hshared]
      exact .inl ⟨rfl, .of_eq rfl⟩
  | @request fault r _ _ hshared =>
      rw [hshared]
      obtain ⟨db, pool, hframe⟩ := s.shared.request_frame fault r
      exact .inl ⟨Shared.lastDeploy_congr (by rw [hframe]),
        hnone (s.shared.request_write fault r).continues _⟩
  | handler hstep hshared =>
      rw [hshared]
      obtain ⟨db, pool, hframe⟩ := Shared.handlerStep_frame hstep
      exact .inl ⟨Shared.lastDeploy_congr (by rw [hframe]),
        (Shared.handlerStep_write hstep).continues⟩
  | event _ hshared =>
      rw [hshared]
      refine .inl ⟨Shared.lastDeploy_congr ?_, .of_eq ?_⟩
      all_goals
        unfold Shared.syncEvent
        split
        · split
          · rfl
          · first
            | rfl
            | rw [(Database.upsertNode_eq ..).choose_spec]
        · rfl
        · rfl
  | sync hsync hshared =>
      rw [hshared]
      obtain ⟨_, _, _, _, _, hlog, _⟩ := hsync.frame
      exact .inl ⟨Shared.lastDeploy_congr (by rw [hlog]), hnone hsync.continues _⟩
  | surroundings _ hsurr =>
      refine .inl ⟨Shared.lastDeploy_congr
        (Shared.around_log _ (fun _ _ => rfl) (fun _ _ => rfl) hsurr), ?_⟩
      obtain ⟨_, _, _, _, _, _, _, _, hdb | ⟨name, source, sourceType, hdb⟩⟩ :=
        hsurr.frame
      · exact .of_eq (by rw [hdb])
      · rw [hdb]
        exact .insertImage name source sourceType
  | restart => exact .inl ⟨rfl, .of_eq rfl⟩

/-- What every task carries is about its own call and connection. -/
def Belongs (s : Server) : Prop :=
  ∀ call id pc, s.deploys call = some (id, pc) → pc.Belongs call id

theorem Move.belongs (h : s.Move ports localAddr label s') (hs : s.Belongs) : s'.Belongs :=
  h.each (fun _ _ => trivial) (fun hstep hpc => hstep.belongs hpc) hs

end Server

/-! ## Uuids of nodes -/

namespace Database

def nodeUuid? (db : Database) (id : RowId) : Option NodeUuid :=
  (db.getNodeById id).map ClientNode.nodeUuid

/-- Nodes keep their uuids. -/
def KeepsNodes (db db' : Database) : Prop :=
  ∀ n uuid, db.nodeUuid? n = some uuid → db'.nodeUuid? n = some uuid

variable {db db' : Database}

theorem keepsNodes_of_eq (h : db'.clientNodes = db.clientNodes) : db.KeepsNodes db' := by
  intro n uuid hn
  rwa [nodeUuid?, getNodeById, h]

/-- Some nodes are written, but not their uuids. -/
theorem keepsNodes_of_map {p : ClientNode → Bool} {f : ClientNode → ClientNode}
    (hf : ∀ n, (f n).id = n.id) (hnodes : db'.clientNodes = db.clientNodes.updateWhere p f hf)
    (huuid : ∀ n, (f n).nodeUuid = n.nodeUuid) : db.KeepsNodes db' := by
  intro n uuid hn
  obtain ⟨node, hnode, rfl⟩ := Option.map_eq_some_iff.mp hn
  refine Option.map_eq_some_iff.mpr ⟨if p node then f node else node, ?_, ?_⟩
  · rw [getNodeById, hnodes, Table.find?_updateWhere,
      show db.clientNodes.find? n = some node from hnode]
    rfl
  · split
    · exact huuid node
    · rfl

theorem keepsNodes_upsertNode (nodeUuid serviceDigest hostname : String)
    (portRangeStart portRangeEnd : Port) :
    db.KeepsNodes (db.upsertNode nodeUuid serviceDigest hostname portRangeStart portRangeEnd) := by
  unfold upsertNode
  split
  · exact keepsNodes_of_map (by exact fun _ => rfl) rfl fun _ => rfl
  · intro n uuid hn
    obtain ⟨node, hnode, rfl⟩ := Option.map_eq_some_iff.mp hn
    have hold : db.clientNodes.find? n = some node := hnode
    refine Option.map_eq_some_iff.mpr ⟨node, ?_, rfl⟩
    show (db.clientNodes.insert _ _).find? n = some node
    rw [Table.find?_insert, if_neg, hold]
    -- The new row has a key that no row had.
    rintro rfl
    obtain ⟨hmem, hkey⟩ := Table.find?_eq_some.mp hold
    have hle := db.clientNodes.bounded node hmem
    omega

end Database

namespace Shared

variable {s t : Shared} {fault : Bool}

theorem RequestWrite.clientNodes {db db' : Database} {r : Request} (h : RequestWrite db r db') :
    db'.clientNodes = db.clientNodes := by
  cases h with
  | postBridge hdb => rw [Database.insertBridge_eq hdb]
  | @postEnv bridgeId envs good =>
      obtain ⟨bridgeEnvs, henvs⟩ := db.setBridgeEnvs_eq bridgeId envs good
      rw [henvs]
  | _ => rfl

theorem HandlerWrite.clientNodes {db db' : Database} {pc : ApiPc}
    (h : HandlerWrite db fault pc db') :
    db'.clientNodes = db.clientNodes := by
  cases h with
  | insertPort _ hdb => rw [Database.insertBridgePort_eq hdb]
  | newSlots _ hdb | patch _ hdb => rw [Database.updateConnection_eq hdb]
  | _ => rfl

theorem SyncStep.keepsNodes {pc next : SyncPc} (h : SyncStep s fault pc t next) :
    s.db.KeepsNodes t.db := by
  cases h
  case offline uuid =>
    exact Database.keepsNodes_of_map (by exact fun _ => rfl) rfl fun _ => rfl
  case pend uuid nodeId cid rest db hfault hdb =>
    exact Database.keepsNodes_of_eq (by rw [Database.updateConnectionNode_eq hdb])
  all_goals exact Database.keepsNodes_of_eq rfl

end Shared

namespace Server

variable {ports : FreshPool} {localAddr : LocalAddr} {s s' : Server} {label : Label}

theorem Move.keepsNodes (h : s.Move ports localAddr label s') :
    s.shared.db.KeepsNodes s'.shared.db := by
  cases h with
  | @deploy _ _ call id pc t next _ _ hdeploy hshared =>
      obtain ⟨log, hlog⟩ := t.endCall_frame call id next
      rw [hshared, hlog]
      refine Database.keepsNodes_of_eq ?_
      show t.db.clientNodes = _
      rw [hdeploy.frame.2.2.2.2]
  | stop _ _ _ hstop hshared =>
      rw [hshared]
      exact Database.keepsNodes_of_eq (by rw [hstop.frame.2.2.2.1])
  | start _ hshared | startStop _ hshared =>
      rw [hshared]
      exact Database.keepsNodes_of_eq rfl
  | @request fault r _ _ hshared =>
      rw [hshared]
      exact Database.keepsNodes_of_eq (s.shared.request_write fault r).clientNodes
  | handler hhandler hshared =>
      rw [hshared]
      exact Database.keepsNodes_of_eq (Shared.handlerStep_write hhandler).clientNodes
  | @event fault update _ _ hshared =>
      rw [hshared]
      unfold Shared.syncEvent
      split
      · split
        · exact Database.keepsNodes_of_eq rfl
        · exact Database.keepsNodes_upsertNode _ _ _ _ _
      · exact Database.keepsNodes_of_eq rfl
      · exact Database.keepsNodes_of_eq rfl
  | sync hsync hshared =>
      rw [hshared]
      exact hsync.keepsNodes
  | surroundings _ hsurr =>
      obtain ⟨_, _, _, _, _, _, _, _, hdb | ⟨name, source, sourceType, hdb⟩⟩ := hsurr.frame
      · exact Database.keepsNodes_of_eq (by rw [hdb])
      · exact Database.keepsNodes_of_eq (by rw [hdb]; rfl)
  | restart => exact Database.keepsNodes_of_map (by exact fun _ => rfl) rfl fun _ => rfl

end Server

end Kdct
