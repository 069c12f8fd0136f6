/-
Whether what deploys have left in memory belongs to connections that are deployed.

A stop removes the entries of the deployment it finds under the connection's name and
node, a disconnect removes the records of a node with their routes but no forwards,
and a deploy that fails removes nothing.  `Tidy` says of a step that ends a deploy or
takes a connection back that nothing of the connection is left, or that somebody is
still there who accounts for it.
-/
import Kdct.Server.Entries

namespace Kdct

namespace Database

def Deployed (db : Database) (id : RowId) : Prop :=
  ∃ c ∈ db.connections.rows, c.id = id ∧ c.status = .deployed

def HasRow (db : Database) (id : RowId) : Prop := ∃ c ∈ db.connections.rows, c.id = id

instance (db : Database) (id : RowId) : Decidable (db.Deployed id) :=
  inferInstanceAs (Decidable (∃ c ∈ db.connections.rows, _))

instance (db : Database) (id : RowId) : Decidable (db.HasRow id) :=
  inferInstanceAs (Decidable (∃ c ∈ db.connections.rows, _))

end Database

namespace Server

variable (s : Server)

/-- The call is a deploy of the connection that is at such a point. -/
def RunsAt (here : DeployPc → Bool) (call : CallId) (id : RowId) : Prop :=
  ∃ q ∈ s.deploys call, q.1 = id ∧ here q.2 = true

/-- A deploy of the connection is at such a point. -/
def Running (here : DeployPc → Bool) (id : RowId) : Prop :=
  ∃ call < s.nextCall, s.RunsAt here call id

/-- A deploy of the connection is past its wait. -/
def InFlight (id : RowId) : Prop := s.Running DeployPc.enters id

/-- The stop of the connection, if it has looked up its deployment. -/
def foundStop (id : RowId) : Option StopPc :=
  s.stopping.bind fun q => if q.2.1 = id ∧ q.2.2.found = true then some q.2.2 else none

/-- No deploy and no stop is in flight. -/
def Calm : Prop := (∀ call < s.nextCall, s.deploys call = none) ∧ s.stopping = none

/-- Every entry was made by a deploy of a connection that is deployed. -/
def Owned : Prop :=
  ∀ e ∈ s.shared.entries, ∃ q ∈ s.shared.creator e, s.shared.db.Deployed q.2

/-! ## What the steps have to respect -/

/-- The entries of the connection are accounted for when the deploy is over:
by another deploy, by a stop that removes them, or by the row. -/
def Leaves (call : CallId) (id : RowId) (row : Prop) : Prop :=
  ∀ e ∈ s.shared.entries, ∀ q ∈ s.shared.creator e, q.2 = id →
    (∃ c < s.nextCall, c ≠ call ∧ s.RunsAt DeployPc.enters c id) ∨
      (∀ pc ∈ s.foundStop id, pc.removes e = true) ∧ (s.foundStop id = none → row)

/-- Nothing of the connection is left but what a deploy in flight has made. -/
def Clears (id : RowId) : Prop :=
  ∀ e ∈ s.shared.entries, ∀ q ∈ s.shared.creator e, q.2 = id → s.InFlight id

/-- A deploy that ends. -/
def TidyDeploy (label : Label) : Prop :=
  match s.movesDeploy label with
  | some (call, id, .register _ ((p, _) :: _)) =>
      s.shared.registers p = false → s.Leaves call id (s.shared.db.Deployed id)
  | some (call, id, .finish d) =>
      s.Leaves call id (s.shared.db.Deployed id ∨ label.fault = false ∧
        (s.shared.db.getNodeById d.plan.node.id).isSome = true ∧ s.shared.db.HasRow id)
  | _ => True

/-- A stop that looks up its deployment. -/
def TidyStop (label : Label) : Prop :=
  match s.movesStop label with
  | some (_, id, pc) =>
      ∀ pc' ∈ pc.finds s.shared label.fault, ∀ e ∈ s.shared.entries, ∀ q ∈ s.shared.creator e,
        q.2 = id → s.InFlight id ∨ pc'.removes e = true
  | none => True

/-- A disconnect that takes a connection back, and a connection that is deleted. -/
def TidyRow (label : Label) : Prop :=
  match label with
  | .sync false =>
      match s.sync with
      | .pend _ _ (cid :: _) => s.foundStop cid = none → s.Clears cid
      | _ => True
  | .api false =>
      match s.api with
      | .delete id => s.Clears id
      | _ => True
  | _ => True

structure Tidy (label : Label) : Prop where
  deploy : s.TidyDeploy label
  stop : s.TidyStop label
  row : s.TidyRow label

section

variable {s : Server} {label : Label} {call : CallId} {id : RowId}

instance {here : DeployPc → Bool} : Decidable (s.RunsAt here call id) :=
  inferInstanceAs (Decidable (∃ q ∈ s.deploys call, _))

instance {here : DeployPc → Bool} : Decidable (s.Running here id) :=
  inferInstanceAs (Decidable (∃ call < s.nextCall, _))

instance : Decidable (s.InFlight id) := inferInstanceAs (Decidable (s.Running _ id))

instance {row : Prop} [Decidable row] : Decidable (s.Leaves call id row) := by
  unfold Leaves
  infer_instance

instance : Decidable (s.Clears id) := by
  unfold Clears
  infer_instance

instance : Decidable s.Calm := inferInstanceAs (Decidable (_ ∧ _))

instance : Decidable (s.TidyDeploy label) := by
  unfold TidyDeploy
  rcases s.movesDeploy label with _ | ⟨call, id, pc⟩
  · exact .isTrue trivial
  · rcases pc with _ | _
    case register d rest => rcases rest with _ | _ <;> dsimp only <;> infer_instance
    case finish d => dsimp only; infer_instance
    all_goals exact .isTrue trivial

instance : Decidable (s.TidyStop label) := by
  unfold TidyStop
  split <;> infer_instance

instance : Decidable (s.TidyRow label) := by
  unfold TidyRow
  repeat' split
  all_goals infer_instance

instance : Decidable (s.Tidy label) :=
  decidable_of_iff (s.TidyDeploy label ∧ s.TidyStop label ∧ s.TidyRow label)
    ⟨fun ⟨hd, hs, hr⟩ => ⟨hd, hs, hr⟩, fun ⟨hd, hs, hr⟩ => ⟨hd, hs, hr⟩⟩

end

end Server

/-! ## Rows that stay -/

namespace Database

/-- The rows keep their node and their status, all but one. -/
def Stays (db db' : Database) (id : Option RowId) : Prop :=
  ∀ c ∈ db.connections.rows, some c.id ≠ id →
    ∃ c' ∈ db'.connections.rows, c'.id = c.id ∧ c'.nodeId = c.nodeId ∧ c'.status = c.status

/-- The deployed rows stay deployed, all but one. -/
def Spares (db db' : Database) (id : Option RowId) : Prop :=
  ∀ i, some i ≠ id → db.Deployed i → db'.Deployed i

variable {db db' : Database} {id : Option RowId}

namespace Stays

theorem spares (h : db.Stays db' id) : db.Spares db' id := by
  rintro i hi ⟨c, hc, rfl, hdeployed⟩
  obtain ⟨c', hc', hid, -, hstatus⟩ := h c hc hi
  exact ⟨c', hc', hid, hstatus.trans hdeployed⟩

theorem of_eq (h : db'.connections = db.connections) : db.Stays db' id :=
  fun c hc _ => ⟨c, h ▸ hc, rfl, rfl, rfl⟩

/-- Some rows are written, but not their ids. -/
theorem of_map {p : Connection → Bool} {f : Connection → Connection}
    (hrows : db'.connections.rows = db.connections.rows.map fun c => if p c then f c else c)
    (hf : ∀ c, p c = true → some c.id ≠ id →
      (f c).id = c.id ∧ (f c).nodeId = c.nodeId ∧ (f c).status = c.status) :
    db.Stays db' id := by
  intro c hc hid
  refine ⟨if p c then f c else c, ?_, ?_⟩
  · rw [hrows]
    exact List.mem_map_of_mem hc
  · split
    · rename_i hp
      exact hf c hp hid
    · exact ⟨rfl, rfl, rfl⟩

theorem updateConnection {i : RowId} {bridgeId imageId nodeId : Slot}
    (h : db.updateConnection i bridgeId imageId nodeId = some db') : db.Stays db' (some i) := by
  unfold Database.updateConnection at h
  split at h
  · obtain rfl := Option.some.inj h
    exact of_eq rfl
  · dsimp only at h
    split at h
    · obtain rfl := Option.some.inj h
      exact of_map rfl fun c hc hid => absurd (congrArg some (beq_iff_eq.mp hc)) hid
    · cases h

theorem updateConnectionNode {i : RowId} {nodeId : Option RowId} {status : Status}
    {containerName : Option String}
    (h : db.updateConnectionNode i nodeId status containerName = some db') :
    db.Stays db' (some i) := by
  rw [Database.updateConnectionNode_eq h]
  exact of_map rfl fun c hc hid => absurd (congrArg some (beq_iff_eq.mp hc)) hid

theorem insertConnection (name : String) : db.Stays (db.insertConnection name) id :=
  fun c hc _ => ⟨c, Table.mem_insert.mpr (.inl hc), rfl, rfl, rfl⟩

theorem deleteConnection (i : RowId) : db.Stays (db.deleteConnection i) (some i) := by
  refine fun c hc hid => ⟨c, Table.mem_deleteWhere.mpr ⟨hc, ?_⟩, rfl, rfl, rfl⟩
  exact beq_eq_false_iff_ne.mpr fun h => hid (congrArg some h)

theorem insertImage (name source sourceType : String) :
    db.Stays (db.insertImage name source sourceType) id :=
  of_map rfl fun _ _ _ => ⟨rfl, rfl, rfl⟩

end Stays

/-- The slots of a row say nothing about its status. -/
theorem Spares.updateConnection {i : RowId} {bridgeId imageId nodeId : Slot}
    (h : db.updateConnection i bridgeId imageId nodeId = some db') : db.Spares db' id := by
  unfold Database.updateConnection at h
  split at h
  · obtain rfl := Option.some.inj h
    exact (Stays.of_eq rfl).spares
  · dsimp only at h
    split at h
    · obtain rfl := Option.some.inj h
      rintro j - ⟨c, hc, rfl, hdeployed⟩
      refine ⟨_, List.mem_map_of_mem hc, ?_⟩
      split <;> exact ⟨rfl, hdeployed⟩
    · cases h

theorem Spares.deploys {i : RowId} {nodeId : Option RowId} {containerName : Option String}
    (h : db.updateConnectionNode i nodeId .deployed containerName = some db') :
    db.Spares db' id := by
  rw [Database.updateConnectionNode_eq h]
  rintro j - ⟨c, hc, rfl, hdeployed⟩
  refine ⟨_, List.mem_map_of_mem hc, ?_⟩
  split
  · exact ⟨rfl, rfl⟩
  · exact ⟨rfl, hdeployed⟩

theorem HasRow.deploys {i : RowId} {nodeId : Option RowId} {containerName : Option String}
    (hrow : db.HasRow i)
    (h : db.updateConnectionNode i nodeId .deployed containerName = some db') : db'.Deployed i := by
  obtain ⟨c, hc, rfl⟩ := hrow
  rw [Database.updateConnectionNode_eq h]
  refine ⟨_, List.mem_map_of_mem hc, ?_⟩
  rw [if_pos (beq_self_eq_true c.id)]
  exact ⟨rfl, rfl⟩

end Database

namespace Shared

variable {s t : Shared} {call : CallId} {id : RowId} {fault : Bool}

theorem RequestWrite.stays {db db' : Database} {r : Request} (h : RequestWrite db r db') :
    db.Stays db' none := by
  cases h with
  | same => exact .of_eq rfl
  | postBridge hdb => exact .of_eq (by rw [Database.insertBridge_eq hdb])
  | @postEnv bridgeId envs good =>
      obtain ⟨bridgeEnvs, henvs⟩ := db.setBridgeEnvs_eq bridgeId envs good
      exact .of_eq (by rw [henvs])
  | postConnection => exact .insertConnection _

theorem HandlerWrite.stays {db db' : Database} {pc : ApiPc} (h : HandlerWrite db fault pc db') :
    db.Stays db' none ∨
      (∃ id slots, fault = false ∧ (pc = .newSlots id slots ∨ pc = .patch id slots) ∧
        db.updateConnection id slots.bridgeId slots.imageId slots.nodeId = some db') ∨
      ∃ id, fault = false ∧ pc = .delete id ∧ db' = db.deleteConnection id := by
  cases h with
  | same => exact .inl (.of_eq rfl)
  | insertPort _ hdb => exact .inl (.of_eq (by rw [Database.insertBridgePort_eq hdb]))
  | deleteBridge => exact .inl (.of_map rfl fun _ _ _ => ⟨rfl, rfl, rfl⟩)
  | deletePort => exact .inl (.of_eq rfl)
  | newSlots hfault hdb => exact .inr (.inl ⟨_, _, hfault, .inl rfl, hdb⟩)
  | patch hfault hdb => exact .inr (.inl ⟨_, _, hfault, .inr rfl, hdb⟩)
  | delete hfault => exact .inr (.inr ⟨_, hfault, rfl, rfl⟩)

theorem HandlerWrite.spares {db db' : Database} {pc : ApiPc} (h : HandlerWrite db fault pc db') :
    db.Spares db' none ∨ ∃ id, fault = false ∧ pc = .delete id ∧ db.Spares db' (some id) := by
  rcases h.stays with hstays | ⟨_, _, -, -, hdb⟩ | ⟨id, hfault, hpc, rfl⟩
  · exact .inl hstays.spares
  · exact .inl (.updateConnection hdb)
  · exact .inr ⟨id, hfault, hpc, (Database.Stays.deleteConnection id).spares⟩

/-- Only the last step of a deploy writes, to its own row. -/
theorem DeployStep.stays {pc : DeployPc} {next : DeployNext}
    (h : DeployStep s call id fault pc t next) :
    s.db.Stays (t.endCall call id next).db none ∨ ∃ d, fault = false ∧ pc = .finish d ∧
      s.db.updateConnectionNode id (some d.plan.node.id) .deployed (some d.plan.containerName) =
        some (t.endCall call id next).db := by
  obtain ⟨log, hlog⟩ := t.endCall_frame call id next
  rw [hlog]
  rcases h.lastDeploy with ⟨-, hdb⟩ | ⟨d, db, hfault, hpc, rfl, hset, -⟩
  · exact .inl (.of_eq (by rw [hdb]))
  · exact .inr ⟨d, hfault, hpc, hset⟩

theorem DeployStep.spares {pc : DeployPc} {next : DeployNext}
    (h : DeployStep s call id fault pc t next) :
    s.db.Spares (t.endCall call id next).db none := by
  rcases h.stays with hstays | ⟨d, -, -, hset⟩
  · exact hstays.spares
  · exact .deploys hset

theorem StopStep.stays {pc : StopPc} {next : StopNext} (h : StopStep s call id fault pc t next) :
    s.db.Stays t.db (some id) ∧ (pc.found = false → t.db = s.db) := by
  cases h
  case insert info nodeUuid ch =>
    obtain ⟨_, _, _, h⟩ := s.insertWaiter_frame ch info.containerName call
    rw [h]
    exact ⟨.of_eq rfl, fun _ => rfl⟩
  case finished info db hfault hdb =>
    exact ⟨.updateConnectionNode hdb, fun h => by cases h⟩
  all_goals exact ⟨.of_eq rfl, fun _ => rfl⟩

theorem SyncStep.stays {pc next : SyncPc} (h : SyncStep s fault pc t next) :
    s.db.Stays t.db none ∨ ∃ uuid nodeId cid rest, fault = false ∧
      pc = .pend uuid nodeId (cid :: rest) ∧
        s.db.updateConnectionNode cid (some nodeId) .pending none = some t.db := by
  cases h
  case pend uuid nodeId cid rest db hfault hdb => exact .inr ⟨_, _, _, _, hfault, rfl, hdb⟩
  all_goals exact .inl (.of_eq rfl)

theorem Around.stays {localAddr : LocalAddr} (h : s.Around localAddr t) : s.db.Stays t.db none := by
  obtain ⟨_, _, _, _, _, _, _, _, hdb | ⟨name, source, sourceType, hdb⟩⟩ := h.frame
  · exact .of_eq (by rw [hdb])
  · rw [hdb]
    exact .insertImage name source sourceType

/-- A deploy past its wait stays in flight until it cannot register a route or is
through. -/
theorem DeployStep.enters {pc : DeployPc} {next : DeployNext}
    (h : DeployStep s call id fault pc t next) (hpc : pc.enters = true) :
    (∃ pc', next = .goto pc' ∧ pc'.enters = true) ∨
      (∃ d p clientPort rest, pc = .register d ((p, clientPort) :: rest) ∧ s.registers p = false) ∨
        ∃ d, pc = .finish d := by
  cases h
  case routeRejected d p clientPort rest path e hroute hset =>
    refine .inr (.inl ⟨d, p, clientPort, rest, rfl, ?_⟩)
    simp [registers, hroute, hset, Except.toOption]
  case refused e hrefuses =>
    cases pc <;> first | exact Bool.noConfusion hrefuses | exact Bool.noConfusion hpc | skip
    exact .inr (.inr ⟨_, rfl⟩)
  case finished d db text hfault hdb => exact .inr (.inr ⟨d, rfl⟩)
  all_goals first
    | exact .inl ⟨_, rfl, rfl⟩
    | cases hpc

end Shared

namespace Server

variable {ports : FreshPool} {localAddr : LocalAddr} {s s' : Server} {label : Label}

/-- The step of the deploy that a step moves. -/
theorem deployStep_of_step {call : CallId} {id : RowId} {pc : DeployPc}
    (h : s.step ports localAddr label = some s')
    (hmoves : s.movesDeploy label = some (call, id, pc)) :
    ∃ t next, s.shared.deployStep call id label.fault pc = some (t, next) ∧
      s'.shared = t.endCall call id next := by
  cases label with
  | attempt c fault =>
      obtain ⟨⟨i, p⟩, hcall, h⟩ := Option.bind_eq_some_iff.mp h
      obtain ⟨⟨t, next⟩, hstep, rfl⟩ := Option.map_eq_some_iff.mp h
      simp only [movesDeploy, hcall, Option.map_some, Option.some.injEq, Prod.mk.injEq] at hmoves
      obtain ⟨rfl, rfl, rfl⟩ := hmoves
      exact ⟨t, next, hstep, rfl⟩
  | api fault =>
      simp only [movesDeploy] at hmoves
      split at hmoves
      · rename_i c i p rest hapi
        obtain ⟨rfl, rfl, rfl⟩ : c = call ∧ i = id ∧ p = pc := by simpa using hmoves
        simp only [step, apiStep, hapi] at h
        obtain ⟨⟨t, next⟩, hstep, rfl⟩ := Option.map_eq_some_iff.mp h
        exact ⟨t, next, hstep, rfl⟩
      · cases hmoves
  | _ => cases hmoves

/-! ## Every step -/

/-- Somebody accounts for an entry of the connection. -/
def Accounted (s : Server) (id : RowId) (e : Entry) : Prop :=
  s.InFlight id ∨ (∀ pc ∈ s.foundStop id, pc.removes e = true) ∧
    (s.foundStop id = none → s.shared.db.Deployed id)

theorem Running.congr {here : DeployPc → Bool} {id : RowId} (h : s.Running here id)
    (hcalls : s.nextCall ≤ s'.nextCall)
    (hdeploys : ∀ call < s.nextCall, s'.deploys call = s.deploys call) : s'.Running here id := by
  obtain ⟨call, hlt, q, hq, hin⟩ := h
  exact ⟨call, Nat.lt_of_lt_of_le hlt hcalls, q, by rw [hdeploys call hlt]; exact hq, hin⟩

theorem foundStop_congr (h : s'.stopping = s.stopping) : s'.foundStop = s.foundStop := by
  funext id
  rw [foundStop, h, foundStop]

theorem foundStop_none (h : s.stopping = none) (id : RowId) : s.foundStop id = none := by
  rw [foundStop, h]
  rfl

/-- A step that moves neither a deploy past its wait nor a stop. -/
theorem Accounted.congr {id : RowId} {e : Entry} (h : s.Accounted id e)
    (hcalls : s.nextCall ≤ s'.nextCall)
    (hdeploys : ∀ call < s.nextCall, s'.deploys call = s.deploys call)
    (hstop : s'.foundStop id = s.foundStop id)
    (hdb : s.foundStop id = none → s.shared.db.Deployed id → s'.shared.db.Deployed id) :
    s'.Accounted id e := by
  rcases h with hflight | ⟨hremoves, hdeployed⟩
  · exact .inl (hflight.congr hcalls hdeploys)
  · refine .inr ⟨?_, ?_⟩
    · rw [hstop]
      exact hremoves
    · rw [hstop]
      exact fun hnone => hdb hnone (hdeployed hnone)

structure TidyInv (s : Server) : Prop where
  fresh : s.Fresh
  belongs : s.Belongs
  accounted : ∀ e ∈ s.shared.entries, ∃ q ∈ s.shared.creator e, s.Accounted q.2 e

/-- A step that adds no entry. -/
theorem TidyInv.shrinks (h : s.TidyInv) (hshrinks : s.shared.Shrinks s'.shared)
    (hkeeps : ∀ e ∈ s'.shared.entries, ∀ id, (∃ call, s.shared.creator e = some (call, id)) →
      s.Accounted id e → s'.Accounted id e) :
    ∀ e ∈ s'.shared.entries, ∃ q ∈ s'.shared.creator e, s'.Accounted q.2 e := by
  intro e he
  obtain ⟨hold, hcreator⟩ := hshrinks e he
  obtain ⟨⟨call, id⟩, hq, haccounted⟩ := h.accounted e hold
  exact ⟨(call, id), by rw [hcreator]; exact hq, hkeeps e he id ⟨call, hq⟩ haccounted⟩

/-- The deploys after a step of one of them. -/
theorem Running.deploy {here : DeployPc → Bool} {call : CallId} {id i : RowId} {pc : DeployPc}
    {next : DeployNext} (h : s.Running here i) (hpc : s.deploys call = some (id, pc))
    (hcalls : s'.nextCall = s.nextCall)
    (hdeploys : s'.deploys = Function.update s.deploys call (next.pc?.map fun pc => (id, pc))) :
    s'.Running here i ∨ i = id ∧ here pc = true ∧ ∀ pc', next = .goto pc' → here pc' = false := by
  obtain ⟨c, hlt, q, hq, hi, hat⟩ := h
  by_cases hc : c = call
  · subst hc
    obtain rfl := Option.some.inj (hq.symm.trans hpc)
    by_cases hnext : ∃ pc', next = .goto pc' ∧ here pc' = true
    · obtain ⟨pc', rfl, hpc'⟩ := hnext
      refine .inl ⟨c, hcalls ▸ hlt, (id, pc'), ?_, hi, hpc'⟩
      rw [hdeploys, Function.update_self]
      rfl
    · refine .inr ⟨hi.symm, hat, fun pc' hgoto => ?_⟩
      exact Bool.eq_false_iff.mpr fun hpc' => hnext ⟨pc', hgoto, hpc'⟩
  · refine .inl ⟨c, hcalls ▸ hlt, q, ?_, hi, hat⟩
    rw [hdeploys, Function.update_of_ne hc]
    exact hq

theorem Leaves.mono {call : CallId} {id : RowId} {row row' : Prop} (h : s.Leaves call id row)
    (hrow : row → row') : s.Leaves call id row' :=
  fun e he q hq hid => (h e he q hq hid).imp_right fun ⟨hremoves, hnone⟩ =>
    ⟨hremoves, fun h => hrow (hnone h)⟩

/-- A deploy past its wait that ends leaves its connection's entries accounted for. -/
theorem Tidy.leaves (hC : s.Tidy label) (hstep : s.step ports localAddr label = some s')
    {call : CallId} {id : RowId} {pc : DeployPc} {t : Shared} {next : DeployNext}
    (hmoves : s.movesDeploy label = some (call, id, pc))
    (hdeploy : s.shared.DeployStep call id label.fault pc t next)
    (hshared : s'.shared = t.endCall call id next) (henters : pc.enters = true)
    (hends : ∀ pc', next = .goto pc' → pc'.enters = false) :
    s.Leaves call id (s'.shared.db.Deployed id) := by
  have hspares : s.shared.db.Deployed id → s'.shared.db.Deployed id := by
    rw [hshared]
    exact hdeploy.spares id (Option.some_ne_none id)
  have htidy := hC.deploy
  rcases hdeploy.enters henters with
    ⟨pc', rfl, hpc'⟩ | ⟨d, p, clientPort, rest, rfl, hregisters⟩ | ⟨d, rfl⟩
  · rw [hends pc' rfl] at hpc'
    cases hpc'
  · simp only [TidyDeploy, hmoves] at htidy
    exact (htidy hregisters).mono hspares
  · simp only [TidyDeploy, hmoves] at htidy
    refine htidy.mono ?_
    rintro (hdeployed | ⟨hfault, hnode, hrow⟩)
    · exact hspares hdeployed
    · obtain ⟨u, next', hstep', hshared'⟩ := deployStep_of_step hstep hmoves
      rw [hfault] at hstep'
      obtain ⟨log, hlog⟩ := u.endCall_frame call id next'
      rw [hshared', hlog]
      show u.db.Deployed id
      exact hrow.deploys (Shared.deployStep_finish hstep' hnode)

/-- The entries of the connection that is stopped. -/
theorem Tidy.stop_accounted (hC : s.Tidy label) {call : CallId} {id : RowId} {pc : StopPc}
    {next : StopNext} (hmoves : s.movesStop label = some (call, id, pc))
    (hpc : s.stopping = some (call, id, pc))
    (hstop : s.shared.StopStep call id label.fault pc s'.shared next)
    (hdeploys : s'.deploys = s.deploys)
    (hstopping : s'.stopping = next.map fun pc => (call, id, pc))
    (hcalls : s'.nextCall = s.nextCall)
    {e : Entry} (he : e ∈ s'.shared.entries) {c : CallId}
    (hcreator : s.shared.creator e = some (c, id))
    (h : s.Accounted id e) : s'.Accounted id e := by
  have hflight : s.InFlight id → s'.Accounted id e := fun hflight =>
    .inl (hflight.congr (Nat.le_of_eq hcalls.symm) fun c _ => by rw [hdeploys])
  have hnone : (∀ pc' ∈ next, pc'.found = false) → s'.foundStop id = none := by
    intro hnext
    rw [foundStop, hstopping]
    cases next with
    | none => rfl
    | some pc' => exact if_neg fun hfound => by rw [hnext pc' rfl] at hfound; cases hfound.2
  have hsome : ∀ pc', next = some pc' → pc'.found = true → s'.foundStop id = some pc' := by
    rintro pc' rfl hfound
    rw [foundStop, hstopping]
    exact if_pos ⟨rfl, hfound⟩
  obtain ⟨hshrinks, hprogress⟩ := hstop.entries
  rcases h with h | ⟨hremoves, hdeployed⟩
  · exact hflight h
  cases hfound : pc.found with
  | true =>
      have hthis : s.foundStop id = some pc := by
        rw [foundStop, hpc]
        exact if_pos ⟨rfl, hfound⟩
      obtain ⟨pc', hnext, hpc', hremoves'⟩ := hprogress e he (hremoves pc hthis)
      refine .inr ⟨fun p hp => ?_, fun hno => ?_⟩
      · rw [hsome pc' hnext hpc'] at hp
        exact Option.some.inj hp ▸ hremoves'
      · rw [hsome pc' hnext hpc'] at hno
        cases hno
  | false =>
      have hthis : s.foundStop id = none := by
        rw [foundStop, hpc]
        exact if_neg fun h => by rw [hfound] at h; cases h.2
      have hrow : s'.shared.db.Deployed id := by
        rw [hstop.stays.2 hfound]
        exact hdeployed hthis
      by_cases hopens : ∃ pc', next = some pc' ∧ pc'.found = true
      · obtain ⟨pc', rfl, hpc'⟩ := hopens
        have htidy := hC.stop
        simp only [TidyStop, hmoves] at htidy
        rcases htidy pc' (hstop.finds hfound hpc') e (hshrinks e he).1 _ hcreator
          rfl with h | hremoves'
        · exact hflight h
        · refine .inr ⟨fun p hp => ?_, fun hno => ?_⟩
          · rw [hsome pc' rfl hpc'] at hp
            exact Option.some.inj hp ▸ hremoves'
          · rw [hsome pc' rfl hpc'] at hno
            cases hno
      · have hnext : s'.foundStop id = none := hnone fun pc' hpc' =>
          Bool.eq_false_iff.mpr fun hfound' => hopens ⟨pc', hpc', hfound'⟩
        refine .inr ⟨fun p hp => ?_, fun _ => hrow⟩
        rw [hnext] at hp
        cases hp

theorem tidyInv_step (h : s.TidyInv) (hC : s.Tidy label)
    (hstep : s.step ports localAddr label = some s') : s'.TidyInv := by
  obtain ⟨hmove, hfresh⟩ := step_move h.fresh hstep
  refine ⟨hfresh, hmove.belongs h.belongs, ?_⟩
  cases hmove with
  | @deploy _ _ call id pc t next hmoves hpc hdeploy hshared hdeploys hstopping hsync
      hcalls hhandler =>
      intro e he
      have hb := h.belongs call id pc hpc
      rw [hshared] at he ⊢
      rcases hdeploy.entries hb e he with ⟨hold, hcreator⟩ | ⟨-, hcreator, pc', rfl, henters⟩
      · obtain ⟨q, hq, haccounted⟩ := h.accounted e hold
        refine ⟨q, by rw [hcreator]; exact hq, ?_⟩
        have hstops := foundStop_congr hstopping
        rcases haccounted with hflight | ⟨hremoves, hdeployed⟩
        · rcases hflight.deploy hpc hcalls hdeploys with hflight | ⟨hid, henters, hends⟩
          · exact .inl hflight
          · rw [hid]
            rcases hC.leaves hstep hmoves hdeploy hshared henters hends e hold q hq hid with
              ⟨c, hlt, hne, p, hp, hin⟩ | ⟨hremoves, hrow⟩
            · refine .inl ⟨c, hcalls ▸ hlt, p, ?_, hin⟩
              rw [hdeploys, Function.update_of_ne hne]
              exact hp
            · exact .inr ⟨hstops ▸ hremoves, hstops ▸ hrow⟩
        · refine .inr ⟨hstops ▸ hremoves, fun hno => ?_⟩
          rw [hshared]
          exact hdeploy.spares q.2 (Option.some_ne_none _) (hdeployed (hstops ▸ hno))
      · refine ⟨(call, id), hcreator, .inl ⟨call, ?_, (id, pc'), ?_, rfl, henters⟩⟩
        · rw [hcalls]
          exact h.fresh.lt hpc
        · rw [hdeploys, Function.update_self]
          rfl
  | @stop _ _ call id pc after t next hnone hmoves hpc hstop hshared hdeploys hstopping
      hsync hcalls =>
      rw [← hshared] at hstop
      refine h.shrinks hstop.entries.1 fun e he i ⟨c, hcreator⟩ haccounted => ?_
      by_cases hi : i = id
      · subst hi
        exact hC.stop_accounted hmoves hpc hstop hdeploys hstopping hcalls he hcreator haccounted
      · have hstops : s'.foundStop i = s.foundStop i := by
          rw [foundStop, foundStop, hstopping, hpc]
          cases next <;> simp [Ne.symm hi]
        exact haccounted.congr (Nat.le_of_eq hcalls.symm) (fun c _ => by rw [hdeploys]) hstops
          fun _ hdep => hstop.stays.1.spares i (fun heq => hi (Option.some.inj heq)) hdep
  | @start _ _ id hnone hshared hdeploys hstopping hsync hcalls =>
      refine h.shrinks (hshared ▸ .of_same rfl rfl) fun e he i hcreator haccounted =>
        haccounted.congr (hcalls ▸ Nat.le_succ _) (fun c hc => ?_)
          (by rw [foundStop_congr hstopping])
          fun _ hdep => hshared ▸ hdep
      rw [hdeploys, Function.update_of_ne (Nat.ne_of_lt hc)]
  | @startStop _ _ id hmoves hshared hdeploys hnone hstopping hsync hcalls =>
      refine h.shrinks (hshared ▸ .of_same rfl rfl) fun e he i hcreator haccounted =>
        haccounted.congr (hcalls ▸ Nat.le_succ _) (fun c _ => by rw [hdeploys]) ?_
          fun _ hdep => hshared ▸ hdep
      rw [foundStop_none hnone, foundStop, hstopping]
      exact if_neg fun hfound => by cases hfound.2
  | @request fault r _ hidle hshared hdeploys hnone hstopping hsync hcalls =>
      have hwrite := s.shared.request_write fault r
      obtain ⟨db, pool, hframe⟩ := s.shared.request_frame fault r
      rw [hframe] at hshared hwrite
      refine h.shrinks (hshared ▸ .of_same rfl rfl) fun e he i hcreator haccounted =>
        haccounted.congr (Nat.le_of_eq hcalls.symm) (fun c _ => by rw [hdeploys])
          (by rw [foundStop_congr (hstopping.trans hnone.symm)]) fun _ hdep => ?_
      rw [hshared]
      exact hwrite.stays.spares i (Option.some_ne_none i) hdep
  | @handler fault _ t pc hhandler hshared hdeploys hnone hstopping hsync hcalls =>
      have hwrite := Shared.handlerStep_write hhandler
      obtain ⟨db, pool, hframe⟩ := Shared.handlerStep_frame hhandler
      rw [hframe] at hshared hwrite
      refine h.shrinks (hshared ▸ .of_same rfl rfl) fun e he i ⟨call, hcreator⟩ haccounted => ?_
      have hold : e ∈ s.shared.entries := by rw [hshared] at he; exact he
      rcases hwrite.spares with hspares | ⟨id, rfl, hapi, hspares⟩
      · refine haccounted.congr (Nat.le_of_eq hcalls.symm) (fun c _ => by rw [hdeploys])
          (by rw [foundStop_congr (hstopping.trans hnone.symm)]) fun _ hdep => ?_
        rw [hshared]
        exact hspares i (Option.some_ne_none i) hdep
      · by_cases hi : i = id
        · subst hi
          have hclears : s.Clears i := by
            have hrow := hC.row
            simpa only [TidyRow, hapi] using hrow
          exact .inl ((hclears e hold _ hcreator rfl).congr (Nat.le_of_eq hcalls.symm)
            fun c _ => by rw [hdeploys])
        · refine haccounted.congr (Nat.le_of_eq hcalls.symm) (fun c _ => by rw [hdeploys])
            (by rw [foundStop_congr (hstopping.trans hnone.symm)]) fun _ hdep => ?_
          rw [hshared]
          exact hspares i (fun heq => hi (Option.some.inj heq)) hdep
  | @event fault update _ hidle hshared hdeploys hstopping hsync hcalls =>
      obtain ⟨clientNodes, hframe⟩ := s.shared.syncEvent_frame fault update
      rw [hframe] at hshared
      refine h.shrinks (hshared ▸ .of_same rfl rfl) fun e he i hcreator haccounted =>
        haccounted.congr (Nat.le_of_eq hcalls.symm) (fun c _ => by rw [hdeploys])
          (by rw [foundStop_congr hstopping]) fun _ hdep => ?_
      rw [hshared]
      exact hdep
  | @sync fault _ t pc hsync hshared hdeploys hstopping hsyncs hcalls =>
      rw [← hshared] at hsync
      refine h.shrinks hsync.entries fun e he i ⟨call, hcreator⟩ haccounted => ?_
      have hold := (hsync.entries e he).1
      rcases hsync.stays with hstays | ⟨uuid, nodeId, cid, rest, rfl, hpc, hset⟩
      · exact haccounted.congr (Nat.le_of_eq hcalls.symm) (fun c _ => by rw [hdeploys])
          (by rw [foundStop_congr hstopping]) fun _ hdep =>
            hstays.spares i (Option.some_ne_none i) hdep
      · by_cases hi : i = cid ∧ s.foundStop i = none
        · obtain ⟨rfl, hnone⟩ := hi
          have hclears : s.Clears i := by
            have hrow := hC.row
            simp only [TidyRow, hpc] at hrow
            exact hrow hnone
          exact .inl ((hclears e hold _ hcreator rfl).congr (Nat.le_of_eq hcalls.symm)
            fun c _ => by rw [hdeploys])
        · refine haccounted.congr (Nat.le_of_eq hcalls.symm) (fun c _ => by rw [hdeploys])
            (by rw [foundStop_congr hstopping]) fun hnone hdep =>
              (Database.Stays.updateConnectionNode hset).spares i ?_ hdep
          exact fun heq => hi ⟨Option.some.inj heq, hnone⟩
  | surroundings hnone hsurr hdeploys hstopping hsync hcalls =>
      exact h.shrinks hsurr.entries fun e he i hcreator haccounted =>
        haccounted.congr (Nat.le_of_eq hcalls.symm) (fun c _ => by rw [hdeploys])
          (by rw [foundStop_congr hstopping])
          fun _ hdep => hsurr.stays.spares i (Option.some_ne_none i) hdep
  | restart => exact fun e he => absurd he List.not_mem_nil

theorem tidyInv_boot (ports : FreshPool) : (boot .empty ports).TidyInv :=
  ⟨fresh_boot _ ports, fun _ _ _ h => (by cases h),
    fun _ he => absurd he List.not_mem_nil⟩

/-- With nothing in flight only the rows account for what is left. -/
theorem TidyInv.owned (h : s.TidyInv) (hcalm : s.Calm) : s.Owned := by
  intro e he
  obtain ⟨q, hq, hflight | ⟨-, hdeployed⟩⟩ := h.accounted e he
  · obtain ⟨call, hlt, p, hp, -⟩ := hflight
    rw [hcalm.1 call hlt] at hp
    cases hp
  · exact ⟨q, hq, hdeployed (foundStop_none hcalm.2 q.2)⟩

/-- In a run of tidy steps, whatever is left in memory when no deploy and no stop is in
flight was made by a deploy of a connection that is deployed. -/
theorem owned_of_tidy (ports : FreshPool) (localAddr : LocalAddr) (labels : List Label)
    (h : (kdcts ports localAddr).Meets Tidy (.boot .empty ports) labels) :
    (kdcts ports localAddr).Always (fun s => s.Calm → s.Owned) (.boot .empty ports) labels := by
  have hinv : (kdcts ports localAddr).Always TidyInv (.boot .empty ports) labels :=
    Machine.always_of_meets (fun _ _ _ hI hC hstep => tidyInv_step hI hC hstep)
      (tidyInv_boot ports) h
  exact hinv.mono fun _ hI hcalm => hI.owned hcalm

end Server

set_option maxRecDepth 4000 in
theorem owned_of_tidy_redeploy :
    (kdcts samplePool fun _ => none).Always (fun s => s.Calm → s.Owned) (.boot .empty samplePool)
      visitAndRedeploy :=
  Server.owned_of_tidy samplePool (fun _ => none) visitAndRedeploy (by decide)

/-- A connection is deleted while its deploy waits for the container. -/
def deletedWhileWaiting : List Label :=
  Label.oneConnection ++ List.replicate 10 (.attempt 0 false) ++
    [.request false (.deleteConnection 1), .api false, .api false] ++
      .message 0 (.containerStarted "kdct-a-1" [8000]) :: List.replicate 7 (.attempt 0 false)

set_option maxRecDepth 4000 in
theorem deletedWhileWaiting_leaks :
    ¬(kdcts samplePool fun _ => none).Always (fun s => s.Calm → s.Owned) (.boot .empty samplePool)
      deletedWhileWaiting := by
  intro h
  obtain ⟨s, hs⟩ : ∃ s, (kdcts samplePool fun _ => none).run (.boot .empty samplePool)
      deletedWhileWaiting = some s := Option.isSome_iff_exists.mp (by decide)
  have hfacts : ((kdcts samplePool fun _ => none).run (.boot .empty samplePool)
      deletedWhileWaiting).map (fun s => (decide s.Calm, s.shared.db.connections.rows,
        s.shared.routes.routes.lookup "/a")) = some (true, [], some 20000) := by
    decide
  rw [hs] at hfacts
  obtain ⟨hcalm, hrest⟩ := Prod.mk.inj (Option.some.inj hfacts)
  obtain ⟨hrows, hroute⟩ := Prod.mk.inj hrest
  obtain ⟨q, -, c, hc, -⟩ := (h.last hs) (of_decide_eq_true hcalm) (.route "/a" 20000)
    (Shared.mem_entries_route.mpr hroute)
  rw [hrows] at hc
  cases hc

end Kdct
