/-
The names of containers (`container_name` in `deploy_connection` and `stop_connection`).

A deploy builds the name from its connection's name, which anybody may choose, and the
connection's id.  It puts its waiter under the name, sends the name to the client and
writes it into the row; a stop takes the name out of the row.  So a name that some call
uses tells which connection the call is for.
-/
import Kdct.Server.Footprints
import Kdct.Server.Waiters

namespace Kdct

/-- A deploy of the connection builds the name. -/
def BuiltFor (id : RowId) (name : String) : Prop :=
  ∃ plan : Plan, plan.connectionId = id ∧ plan.containerName = name

theorem BuiltFor.unique {id id' : RowId} {name : String} (h : BuiltFor id name)
    (h' : BuiltFor id' name) : id = id' := by
  obtain ⟨plan, rfl, hname⟩ := h
  obtain ⟨plan', rfl, hname'⟩ := h'
  exact Plan.connectionId_of_containerName (hname.trans hname'.symm)

/-- A deployed connection has a name that one of its deploys has built. -/
def Connection.Labelled (c : Connection) : Prop :=
  c.status = .deployed → ∃ name, c.containerName = some name ∧ BuiltFor c.id name

/-! ## Rows -/

namespace Database

def Labelled (db : Database) : Prop := ∀ c ∈ db.connections.rows, c.Labelled

namespace Labelled

variable {db db' : Database}

theorem of_eq (h : db.Labelled) (heq : db'.connections = db.connections) : db'.Labelled := by
  intro c hc
  rw [heq] at hc
  exact h c hc

theorem of_map {p : Connection → Bool} {f : Connection → Connection} (h : db.Labelled)
    (hrows : db'.connections.rows = db.connections.rows.map fun c => if p c then f c else c)
    (hf : ∀ c, p c = true → c.Labelled → (f c).Labelled) : db'.Labelled := by
  intro c' hc'
  rw [hrows] at hc'
  obtain ⟨c, hc, rfl⟩ := List.mem_map.mp hc'
  split
  · rename_i hp
    exact hf c hp (h c hc)
  · exact h c hc

theorem insertConnection (h : db.Labelled) (name : String) :
    (db.insertConnection name).Labelled := by
  intro c hc
  rcases Table.mem_insert.mp hc with hc | rfl
  · exact h c hc
  · exact nofun

theorem deleteConnection (h : db.Labelled) (id : RowId) : (db.deleteConnection id).Labelled :=
  fun c hc => h c (Table.mem_deleteWhere.mp hc).1

theorem deleteBridge (h : db.Labelled) (bridgeId : RowId) : (db.deleteBridge bridgeId).Labelled :=
  h.of_map rfl fun _ _ hc => hc

theorem insertImage (h : db.Labelled) (name source sourceType : String) :
    (db.insertImage name source sourceType).Labelled :=
  h.of_map rfl fun _ _ hc => hc

theorem updateConnection {id : RowId} {bridgeId imageId nodeId : Slot} (h : db.Labelled)
    (hdb : db.updateConnection id bridgeId imageId nodeId = some db') : db'.Labelled := by
  unfold Database.updateConnection at hdb
  split at hdb
  · obtain rfl := Option.some.inj hdb
    exact h
  · dsimp only at hdb
    split at hdb
    · obtain rfl := Option.some.inj hdb
      exact h.of_map rfl fun _ _ hc => hc
    · cases hdb

/-- Whoever makes a connection deployed has built its name. -/
theorem updateConnectionNode {id : RowId} {nodeId : Option RowId} {status : Status}
    {containerName : Option String} (h : db.Labelled)
    (hstatus : status = .deployed → ∃ name, containerName = some name ∧ BuiltFor id name)
    (hdb : db.updateConnectionNode id nodeId status containerName = some db') : db'.Labelled := by
  rw [Database.updateConnectionNode_eq hdb]
  refine h.of_map rfl fun c hid _ hdeployed => ?_
  obtain ⟨name, hname, hbuilt⟩ := hstatus hdeployed
  have hc : c.id = id := beq_iff_eq.mp hid
  exact ⟨name, hname, hc ▸ hbuilt⟩

end Labelled

end Database

namespace Shared

theorem RequestWrite.labelled {db db' : Database} {r : Request} (h : RequestWrite db r db')
    (hdb : db.Labelled) : db'.Labelled := by
  cases h with
  | same => exact hdb
  | postBridge hbridge => exact hdb.of_eq (by rw [Database.insertBridge_eq hbridge])
  | @postEnv bridgeId envs good =>
      obtain ⟨bridgeEnvs, henvs⟩ := db.setBridgeEnvs_eq bridgeId envs good
      exact hdb.of_eq (by rw [henvs])
  | postConnection => exact hdb.insertConnection _

theorem HandlerWrite.labelled {db db' : Database} {fault : Bool} {pc : ApiPc}
    (h : HandlerWrite db fault pc db') (hdb : db.Labelled) : db'.Labelled := by
  cases h with
  | same => exact hdb
  | insertPort _ hport => exact hdb.of_eq (by rw [Database.insertBridgePort_eq hport])
  | deleteBridge => exact hdb.deleteBridge _
  | deletePort => exact hdb.of_eq rfl
  | newSlots _ hslots | patch _ hslots => exact hdb.updateConnection hslots
  | delete => exact hdb.deleteConnection _

theorem DeployStep.labelled {s t : Shared} {call : CallId} {id : RowId} {fault : Bool}
    {pc : DeployPc} {next : DeployNext} (h : DeployStep s call id fault pc t next)
    (hb : pc.Belongs call id) (hdb : s.db.Labelled) : t.db.Labelled := by
  rcases h.lastDeploy with ⟨-, heq⟩ | ⟨d, db, -, rfl, rfl, hset, -⟩
  · rwa [heq]
  · have hbuilt : BuiltFor id d.plan.containerName := ⟨d.plan, hb.2, rfl⟩
    exact hdb.updateConnectionNode (fun _ => ⟨_, rfl, hbuilt⟩) hset

theorem StopStep.labelled {s t : Shared} {call : CallId} {id : RowId} {fault : Bool} {pc : StopPc}
    {next : StopNext} (h : StopStep s call id fault pc t next) (hdb : s.db.Labelled) :
    t.db.Labelled := by
  cases h
  case insert info nodeUuid ch =>
    obtain ⟨_, _, _, h⟩ := s.insertWaiter_frame ch info.containerName call
    rw [h]
    exact hdb
  case finished info db _ hset =>
    exact hdb.updateConnectionNode (fun hdeployed => by cases hdeployed) hset
  all_goals exact hdb

theorem SyncStep.labelled {s t : Shared} {fault : Bool} {pc next : SyncPc}
    (h : SyncStep s fault pc t next) (hdb : s.db.Labelled) : t.db.Labelled := by
  cases h
  case pend uuid nodeId cid rest db _ hset =>
    exact hdb.updateConnectionNode (fun hdeployed => by cases hdeployed) hset
  all_goals exact hdb

theorem syncEvent_labelled {s : Shared} (h : s.db.Labelled) (fault : Bool) (update : NodeUpdate) :
    (s.syncEvent fault update).1.db.Labelled := by
  unfold syncEvent
  split
  · split
    · exact h
    · exact h.of_eq (by rw [(Database.upsertNode_eq ..).choose_spec])
  · exact h
  · exact h

theorem Around.labelled {s t : Shared} {localAddr : LocalAddr} (h : s.Around localAddr t)
    (hdb : s.db.Labelled) : t.db.Labelled := by
  obtain ⟨_, _, _, _, _, _, _, _, heq | ⟨name, source, sourceType, heq⟩⟩ := h.frame
  · rwa [heq]
  · rw [heq]
    exact hdb.insertImage name source sourceType

end Shared

/-! ## What a stop has read -/

def StopPc.info? : StopPc → Option StopInfo
  | .start => none
  | .node info | .registry info _ | .insert info _ _ | .send info _ _ | .wait info _
  | .find info _ | .lock info _ _ | .release info _ _ _ | .forwards info _ _ | .untrack info _
  | .finish info => some info

/-- A stop takes the name out of the row. -/
theorem Shared.StopStep.info {s t : Shared} {call : CallId} {id : RowId} {fault : Bool}
    {pc next : StopPc} (h : StopStep s call id fault pc t (some next)) {info : StopInfo}
    (hinfo : next.info? = some info) :
    pc.info? = some info ∨ ∃ row, s.db.getConnection id = some row ∧ row.row.status = .deployed ∧
      info.containerName = row.row.containerName.getD row.row.name := by
  cases h with
  | started hrow hstatus =>
      obtain rfl := Option.some.inj hinfo
      exact .inr ⟨_, hrow, hstatus, rfl⟩
  | _ => exact .inl hinfo

/-! ## Names in use -/

/-- A key of a `pending_docker`, who has put its waiter there and for which connection. -/
structure PendingKey where
  channel : ChannelId
  containerName : String
  call : CallId
  connectionId : RowId
  deriving DecidableEq

namespace Server

/-- The key that a step puts its waiter under. -/
def pendingKey (s : Server) (label : Label) : Option PendingKey :=
  match s.movesDeploy label, s.movesStop label with
  | some (call, id, .insert d _), _ =>
      some { channel := d.channel, containerName := d.plan.containerName, call := call,
             connectionId := id }
  | none, some (call, id, .insert info _ ch) =>
      some { channel := ch, containerName := info.containerName, call := call, connectionId := id }
  | _, _ => none

/-- The calls use the names of their own connections. -/
structure OwnNames (s : Server) : Prop where
  fresh : s.Fresh
  belongs : s.Belongs
  rows : s.shared.db.Labelled
  stopping : ∀ call id pc info, s.stopping = some (call, id, pc) → pc.info? = some info →
    BuiltFor id info.containerName

variable {ports : FreshPool} {localAddr : LocalAddr} {s s' : Server} {label : Label}

theorem Move.labelled (h : s.Move ports localAddr label s') (hb : s.Belongs)
    (hdb : s.shared.db.Labelled) : s'.shared.db.Labelled := by
  cases h with
  | @deploy _ _ call id pc t next _ hpc hdeploy hshared =>
      obtain ⟨log, hlog⟩ := t.endCall_frame call id next
      have heq : (t.endCall call id next).db = t.db := by rw [hlog]
      rw [hshared, heq]
      exact hdeploy.labelled (hb call id pc hpc) hdb
  | stop _ _ _ hstop hshared =>
      rw [hshared]
      exact hstop.labelled hdb
  | start _ hshared | startStop _ hshared =>
      rw [hshared]
      exact hdb
  | @request fault r _ _ hshared =>
      rw [hshared]
      exact (s.shared.request_write fault r).labelled hdb
  | handler hstep hshared =>
      rw [hshared]
      exact (Shared.handlerStep_write hstep).labelled hdb
  | @event fault update _ _ hshared =>
      rw [hshared]
      exact Shared.syncEvent_labelled hdb fault update
  | sync hsync hshared =>
      rw [hshared]
      exact hsync.labelled hdb
  | surroundings _ hsurr => exact hsurr.labelled hdb
  | restart => exact hdb

/-- The name in a row that a stop reads is one that a deploy of the connection has built. -/
theorem OwnNames.read (h : s.OwnNames) {id : RowId} {row : ConnectionInfo}
    (hrow : s.shared.db.getConnection id = some row) (hstatus : row.row.status = .deployed) :
    BuiltFor id (row.row.containerName.getD row.row.name) := by
  obtain ⟨hmem, rfl⟩ := Database.getConnection_row hrow
  obtain ⟨name, hname, hbuilt⟩ := h.rows row.row hmem hstatus
  rwa [hname]

theorem ownNames_step (h : s.OwnNames) (hstep : s.step ports localAddr label = some s') :
    s'.OwnNames := by
  obtain ⟨hmove, hfresh⟩ := step_move h.fresh hstep
  refine ⟨hfresh, hmove.belongs h.belongs, hmove.labelled h.belongs h.rows,
    fun call id pc info hpc hinfo => ?_⟩
  rcases hmove.stopping hpc with hold | rfl | ⟨pc₀, -, hpc₀, hstop⟩
  · exact h.stopping call id pc info hold hinfo
  · cases hinfo
  · rcases hstop.info hinfo with hinfo₀ | ⟨row, hrow, hstatus, hname⟩
    · exact h.stopping call id pc₀ info hpc₀ hinfo₀
    · rw [hname]
      exact h.read hrow hstatus

theorem ownNames_boot (ports : FreshPool) : (Server.boot .empty ports).OwnNames where
  fresh := (tidyInv_boot ports).fresh
  belongs := (tidyInv_boot ports).belongs
  rows := fun _ hc => absurd hc List.not_mem_nil
  stopping := fun _ _ _ _ hpc => (by cases hpc)

theorem deploys_of_movesDeploy (hf : s.Fresh) {call : CallId} {id : RowId} {pc : DeployPc}
    (h : s.movesDeploy label = some (call, id, pc)) : s.deploys call = some (id, pc) := by
  cases label with
  | attempt c fault =>
      obtain ⟨q, hq, heq⟩ := Option.map_eq_some_iff.mp h
      obtain ⟨rfl, rfl⟩ := Prod.mk.inj heq
      exact hf.attempt_deploys hq
  | api fault =>
      simp only [movesDeploy] at h
      split at h
      · rename_i hapi
        obtain ⟨rfl, heq⟩ := Prod.mk.inj (Option.some.inj h)
        obtain ⟨rfl, rfl⟩ := Prod.mk.inj heq
        rw [deploys_autoDeploy hapi, Function.update_self]
      · cases h
  | _ => cases h

/-- A key is the name of the connection that the call is for. -/
theorem OwnNames.pendingKey (h : s.OwnNames) {k : PendingKey} (hk : s.pendingKey label = some k) :
    BuiltFor k.connectionId k.containerName := by
  unfold Server.pendingKey at hk
  split at hk
  · rename_i call id d env hmoves
    obtain rfl := Option.some.inj hk
    have hb := h.belongs call id _ (deploys_of_movesDeploy h.fresh hmoves)
    exact ⟨d.plan, hb.2, rfl⟩
  · rename_i call id info nodeUuid ch hnone hmoves
    obtain rfl := Option.some.inj hk
    exact h.stopping call id _ info (stopping_of_movesStop hmoves) rfl
  · cases hk

/-- The waiter that a step inserts is under its key. -/
theorem pendingKey_of_inserting {call : CallId} {p : CallPc} {ch : ChannelId}
    {cmd : ControlChannelCmd} {name : String} (hmoves : s.moves label = some (call, p))
    (hinserting : p.inserting? = some (ch, cmd)) (hname : cmd.container? = some name) :
    ∃ id, s.pendingKey label =
      some { channel := ch, containerName := name, call := call, connectionId := id } := by
  unfold moves at hmoves
  cases hdeploy : s.movesDeploy label with
  | some q =>
      obtain ⟨c, id, pc⟩ := q
      rw [hdeploy] at hmoves
      obtain ⟨rfl, rfl⟩ := Prod.mk.inj (Option.some.inj hmoves)
      refine ⟨id, ?_⟩
      cases pc with
      | insert d env =>
          obtain ⟨rfl, rfl⟩ := Prod.mk.inj (Option.some.inj hinserting)
          obtain rfl := Option.some.inj hname
          simp only [pendingKey, hdeploy]
          rfl
      | _ => cases hinserting
  | none =>
      rw [hdeploy] at hmoves
      obtain ⟨q, hstop, heq⟩ := Option.map_eq_some_iff.mp hmoves
      obtain ⟨c, id, pc⟩ := q
      obtain ⟨rfl, rfl⟩ := Prod.mk.inj heq
      refine ⟨id, ?_⟩
      cases pc with
      | insert info nodeUuid ch' =>
          obtain ⟨rfl, rfl⟩ := Prod.mk.inj (Option.some.inj hinserting)
          obtain rfl := Option.some.inj hname
          simp only [pendingKey, hdeploy, hstop]
      | _ => cases hinserting

/-- A waiter is where it was, or the step has put it there. -/
theorem pending_step (hf : s.Fresh) (hstep : s.step ports localAddr label = some s')
    {ch : ChannelId} {name : String} {o : CallId}
    (ho : (s'.shared.pending ch).lookup name = some o) :
    (s.shared.pending ch).lookup name = some o ∨ ∃ id,
      s.pendingKey label =
        some { channel := ch, containerName := name, call := o, connectionId := id } := by
  cases hmoves : s.moves label with
  | none => exact .inl ((still_of_moves hf hstep hmoves).settles.pending ch name o ho)
  | some q =>
      obtain ⟨call, p⟩ := q
      rcases (moved_of_moves hf hstep hmoves).inserted with
        ⟨ch', cmd, name', hinserting, hname, -, hpending, -⟩ | ⟨-, hsettles⟩
      · rw [hpending, Shared.insertWaiter_lookup] at ho
        split at ho
        · rename_i hkey
          obtain ⟨rfl, rfl⟩ := hkey
          obtain rfl := Option.some.inj ho
          exact .inr (pendingKey_of_inserting hmoves hinserting hname)
        · exact .inl ho
      · exact .inl (hsettles.pending ch name o ho)

end Server

end Kdct
