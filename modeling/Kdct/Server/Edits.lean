/-
Whether an acknowledged PATCH of a connection lasts.

A deploy writes the node it read minutes earlier, and the sync task writes the node
whose connections it has listed.  Neither looks at the row again.  Beside the server
this file keeps, for every connection, the slots its last acknowledged PATCH left,
and asks that no such write changes them.
-/
import Kdct.Server.Deployed

namespace Kdct

/-- The slots of a row. -/
structure RowSlots where
  bridgeId : Option RowId
  imageId : Option RowId
  nodeId : Option RowId
  deriving DecidableEq

namespace Database

def slots (db : Database) (id : RowId) : Option RowSlots :=
  (db.connections.find? id).map fun c =>
    { bridgeId := c.bridgeId, imageId := c.imageId, nodeId := c.nodeId }

theorem updateConnectionNode_slots {db db' : Database} {id : RowId} {nodeId : Option RowId}
    {status : Status} {containerName : Option String}
    (h : db.updateConnectionNode id nodeId status containerName = some db') (i : RowId) :
    db'.slots i =
      if i = id then (db.slots i).map fun sl => { sl with nodeId := nodeId } else db.slots i := by
  rw [updateConnectionNode_eq h, slots, slots]
  dsimp only
  rw [Table.find?_updateWhere]
  cases hfind : db.connections.find? i with
  | none => simp
  | some c =>
      obtain rfl := (Table.find?_eq_some.mp hfind).2
      by_cases hid : c.id = id
      · simp [hid]
      · simp [hid]

end Database

/-! ## Edits beside a server -/

/-- The connection whose node slot a PATCH under way sets. -/
def ApiPc.setsNode : ApiPc → Option RowId
  | .patchCheck id slots | .patch id slots | .stop id (.patch slots)
  | .stopping _ id _ (.patch slots) => if slots.nodeId.isSome then some id else none
  | _ => none

/-- The thread stops a connection only for a PATCH that sets its node. -/
def ApiPc.Stops : ApiPc → Prop
  | .patchCheck _ slots | .stop _ (.patch slots) | .stopping _ _ _ (.patch slots) =>
      slots.nodeId.isSome
  | _ => True

/-- A server and the slots the last acknowledged PATCH of each connection left. -/
structure Edited where
  server : Server
  acked : RowId → Option RowSlots

namespace RowSlots

/-- What an edit leaves of the acknowledged slots: a column it changed has its new
value. -/
def follow (old new : RowSlots) (acked : RowSlots) : RowSlots where
  bridgeId := if new.bridgeId = old.bridgeId then acked.bridgeId else new.bridgeId
  imageId := if new.imageId = old.imageId then acked.imageId else new.imageId
  nodeId := if new.nodeId = old.nodeId then acked.nodeId else new.nodeId

theorem follow_self (new sl : RowSlots) : follow sl new sl = new := by
  unfold follow
  congr 1 <;> split <;> simp_all

theorem follow_same (old sl : RowSlots) : follow old old sl = sl := by
  simp [follow]

end RowSlots

namespace Edited

/-- Edits by requests and by the surroundings are followed. -/
def followed (e : Edited) (t : Server) (i : RowId) : Option RowSlots :=
  (e.acked i).bind fun acked =>
    (t.shared.db.slots i).map fun new =>
      match e.server.shared.db.slots i with
      | some old => old.follow new acked
      | none => new

/-- The edits after a step.  What a deploy, the sync task or the stop of a PATCH
writes is no edit. -/
def edit (e : Edited) (label : Label) (t : Server) : RowId → Option RowSlots :=
  match label, e.server.api with
  | .attempt .., _ | .sync _, _ | .api _, .autoDeploy .. | .api _, .stopping _ _ _ (.patch _) =>
      e.acked
  | .api _, .patch id _ =>
      if t.api = .spawn id then Function.update e.acked id (t.shared.db.slots id) else e.followed t
  | _, _ => e.followed t

/-- Unless a PATCH is setting its node, a row has the slots its last acknowledged
PATCH left. -/
def Kept (e : Edited) : Prop :=
  ∀ id sl, e.acked id = some sl → e.server.api.setsNode ≠ some id →
    e.server.shared.db.slots id = some sl

end Edited

/-- A server with its edits. -/
def edits (ports : FreshPool) (localAddr : LocalAddr) : Machine Edited Label where
  init := { server := .boot .empty ports, acked := fun _ => none }
  step e label :=
    (Server.step ports localAddr e.server label).map fun t =>
      { server := t, acked := e.edit label t }

/-! ## Writes of what was read earlier -/

namespace Server

/-- The row a step writes a node to that was read earlier, and the node. -/
def rewrites (s : Server) : Label → Option (RowId × RowId)
  | .attempt call false =>
      match s.attempts call with
      | some (id, .finish d) => some (id, d.plan.node.id)
      | _ => none
  | .api false =>
      match s.api with
      | .autoDeploy _ id (.finish d) _ => some (id, d.plan.node.id)
      | _ => none
  | .sync false =>
      match s.sync with
      | .pend _ nodeId (cid :: _) => some (cid, nodeId)
      | _ => none
  | _ => none

/-- The connection of a PATCH that ends here without being acknowledged. -/
def abandons (s : Server) : Label → Option RowId
  | .api fault =>
      match s.api with
      | .patch id slots =>
          if fault ∨
              s.shared.db.updateConnection id slots.bridgeId slots.imageId slots.nodeId = none
          then s.api.setsNode
          else none
      | _ => none
  | .restart => s.api.setsNode
  | _ => none

end Server

/-- A node read earlier is still the row's when it is written, and a PATCH that fails
has not stopped the connection. -/
structure Edited.Current (e : Edited) (label : Label) : Prop where
  rewrites : ∀ id node, e.server.rewrites label = some (id, node) → ∀ sl ∈ e.acked id,
    e.server.api.setsNode ≠ some id → (e.server.shared.db.getNodeById node).isSome →
      sl.nodeId = some node
  abandons : ∀ id, e.server.abandons label = some id → ∀ sl ∈ e.acked id,
    ∀ row ∈ e.server.shared.db.slots id, row = sl

/-! ## What the steps write -/

/-- Slots stay, or a row gets a node that was read earlier. -/
def Database.Rewritten (db db' : Database) (write : Option (RowId × RowId)) : Prop :=
  db'.slots = db.slots ∨ ∃ id node status containerName, write = some (id, node) ∧
    db.updateConnectionNode id (some node) status containerName = some db'

/-- A write to a row that is there found its node. -/
theorem Database.node_of_updateConnectionNode {db db' : Database} {id node : RowId}
    {status : Status} {containerName : Option String} {sl : RowSlots}
    (h : db.updateConnectionNode id (some node) status containerName = some db')
    (hrow : db.slots id = some sl) : (db.getNodeById node).isSome := by
  obtain ⟨c, hc, -⟩ := Option.map_eq_some_iff.mp hrow
  unfold updateConnectionNode at h
  split at h
  · rename_i hcond
    rw [hc] at hcond
    simpa [getNodeById] using hcond
  · cases h

namespace Shared

variable {s t : Shared} {call : CallId} {id : RowId} {fault : Bool}

theorem DeployStep.rewritten {pc : DeployPc} {next : DeployNext}
    (h : DeployStep s call id fault pc t next) :
    t.db.slots = s.db.slots ∨ ∃ d, fault = false ∧ pc = .finish d ∧
      s.db.updateConnectionNode id (some d.plan.node.id) .deployed (some d.plan.containerName) =
        some t.db := by
  rcases h.lastDeploy with ⟨_, hdb⟩ | ⟨d, db, hfault, hpc, rfl, hset, _⟩
  · exact .inl (by rw [hdb])
  · exact .inr ⟨d, hfault, hpc, hset⟩

theorem SyncStep.rewritten {pc next : SyncPc} (h : SyncStep s fault pc t next) :
    t.db.slots = s.db.slots ∨ ∃ uuid nodeId cid rest, fault = false ∧
      pc = .pend uuid nodeId (cid :: rest) ∧
      s.db.updateConnectionNode cid (some nodeId) .pending none = some t.db := by
  cases h
  case pend uuid nodeId cid rest db hfault hdb => exact .inr ⟨_, _, _, _, hfault, rfl, hdb⟩
  all_goals exact .inl rfl

/-- A stop writes to its own row only. -/
theorem StopStep.slots {pc : StopPc} {next : StopNext} (h : StopStep s call id fault pc t next)
    {i : RowId} (hi : i ≠ id) : t.db.slots i = s.db.slots i := by
  cases h
  case insert info nodeUuid ch =>
    obtain ⟨_, _, _, h⟩ := s.insertWaiter_frame ch info.containerName call
    rw [h]
  case finished info db hfault hdb =>
    show db.slots i = _
    rw [Database.updateConnectionNode_slots hdb, if_neg hi]
  all_goals rfl

theorem endCall_db (next : DeployNext) : (s.endCall call id next).db = s.db := by
  cases next <;> rfl

theorem syncStep_pend {uuid : NodeUuid} {nodeId cid : RowId} {rest : List RowId} {next : SyncPc}
    (h : s.syncStep false (.pend uuid nodeId (cid :: rest)) = some (t, next))
    (hnode : (s.db.getNodeById nodeId).isSome) :
    t.db.slots cid = (s.db.slots cid).map fun sl => { sl with nodeId := some nodeId } := by
  obtain ⟨db, hdb⟩ : ∃ db, s.db.updateConnectionNode cid (some nodeId) .pending none = some db :=
    Database.updateConnectionNode_isSome hnode
  simp only [syncStep, hdb, Bool.false_eq_true, if_false] at h
  obtain ⟨rfl, -⟩ := Prod.mk.inj (Option.some.inj h)
  show db.slots cid = _
  rw [Database.updateConnectionNode_slots hdb, if_pos rfl]

end Shared

/-! ## Runs -/

namespace Edited

variable {e : Edited} {label : Label} {t : Server}

/-- A write of a node that still is the row's changes nothing. -/
theorem Current.slots (hC : e.Current label) (hk : e.Kept)
    (h : e.server.shared.db.Rewritten t.shared.db (e.server.rewrites label)) {i : RowId}
    {sl : RowSlots} (hi : e.acked i = some sl) (hsets : e.server.api.setsNode ≠ some i) :
    t.shared.db.slots i = some sl := by
  have hrow := hk i sl hi hsets
  rcases h with h | ⟨id, node, status, containerName, hwrite, hdb⟩
  · rw [h, hrow]
  · rw [Database.updateConnectionNode_slots hdb, hrow]
    split
    · rename_i hid
      subst hid
      have hnode := Database.node_of_updateConnectionNode hdb hrow
      rw [← hC.rewrites i node hwrite sl hi hsets hnode]
      rfl
    · rfl

/-- Following an edit keeps the rows that had their slots. -/
theorem followed_kept {i : RowId} {sl : RowSlots} (hi : e.followed t i = some sl)
    (hrow : ∀ acked, e.acked i = some acked → e.server.shared.db.slots i = some acked) :
    t.shared.db.slots i = some sl := by
  obtain ⟨acked, hacked, hnew⟩ := Option.bind_eq_some_iff.mp hi
  obtain ⟨new, hslots, heq⟩ := Option.map_eq_some_iff.mp hnew
  rw [hrow acked hacked] at heq
  rw [hslots, ← heq]
  exact congrArg some (RowSlots.follow_self new acked).symm

/-- Where the rows stay, the edits of those that are there stay. -/
theorem followed_same (h : t.shared.db.slots = e.server.shared.db.slots) {i : RowId}
    {sl : RowSlots} : e.followed t i = some sl ↔
      e.acked i = some sl ∧ (e.server.shared.db.slots i).isSome := by
  unfold followed
  rw [h]
  cases hacked : e.acked i <;> cases e.server.shared.db.slots i <;> simp [RowSlots.follow_same]

/-- A handler goes on to a stop only for a PATCH that sets the node. -/
theorem handlerStep_stops {s u : Shared} {fault : Bool} {pc next : ApiPc}
    (h : s.handlerStep fault pc = some (u, next)) (hpc : pc.Stops) : next.Stops := by
  cases pc
  case patchCheck i slots =>
    unfold Shared.handlerStep at h
    dsimp only at h
    split at h
    all_goals obtain ⟨rfl, rfl⟩ := Prod.mk.inj (Option.some.inj h)
    · split
      · exact hpc
      · trivial
    · trivial
  case releaseBridge bridgeId rest =>
    cases rest <;> obtain ⟨rfl, rfl⟩ := Prod.mk.inj (Option.some.inj h) <;> trivial
  case autoNext rest =>
    cases rest with
    | nil =>
        obtain ⟨rfl, rfl⟩ := Prod.mk.inj (Option.some.inj h)
        trivial
    | cons id rest => cases h
  all_goals
    unfold Shared.handlerStep at h
    dsimp only at h
    repeat' split at h
    all_goals first
      | cases h
        done
      | obtain ⟨rfl, rfl⟩ := Prod.mk.inj (Option.some.inj h)
        trivial

/-- Looking at the row of a PATCH changes nothing. -/
theorem handlerStep_patchCheck {s u : Shared} {fault : Bool} {id : RowId} {slots : Slots}
    {next : ApiPc} (h : s.handlerStep fault (.patchCheck id slots) = some (u, next)) :
    u = s ∧ next.setsNode = (ApiPc.patchCheck id slots).setsNode := by
  unfold Shared.handlerStep at h
  dsimp only at h
  split at h
  all_goals obtain ⟨rfl, rfl⟩ := Prod.mk.inj (Option.some.inj h)
  · refine ⟨rfl, ?_⟩
    split <;> rfl
  · exact ⟨rfl, rfl⟩

theorem request_stops (s : Shared) (fault : Bool) (r : Request) : (s.request fault r).2.Stops := by
  cases r with
  | patchConnection id slots =>
      simp only [Shared.request]
      split
      · rename_i hnode
        exact hnode
      · trivial
  | _ =>
      simp only [Shared.request]
      repeat' split
      all_goals trivial

/-- A PATCH writes its connection's row, or ends without an acknowledgement. -/
theorem handlerStep_patch {s u : Shared} {fault : Bool} {id : RowId} {slots : Slots} {next : ApiPc}
    (h : s.handlerStep fault (.patch id slots) = some (u, next)) :
    (next = .spawn id ∧ (∀ i, i ≠ id → u.db.slots i = s.db.slots i) ∧
        ¬(fault = true ∨
          s.db.updateConnection id slots.bridgeId slots.imageId slots.nodeId = none)) ∨
      next = .idle ∧ u = s ∧
        (fault = true ∨
          s.db.updateConnection id slots.bridgeId slots.imageId slots.nodeId = none) := by
  unfold Shared.handlerStep at h
  dsimp only at h
  split at h
  · rename_i hnone
    obtain ⟨rfl, rfl⟩ := Prod.mk.inj (Option.some.inj h)
    refine .inr ⟨rfl, rfl, ?_⟩
    cases fault with
    | true => exact .inl rfl
    | false => exact .inr (by simpa using hnone)
  · rename_i db hdb
    obtain ⟨rfl, rfl⟩ := Prod.mk.inj (Option.some.inj h)
    have hdb : s.db.updateConnection id slots.bridgeId slots.imageId slots.nodeId = some db ∧
        fault = false := by
      cases fault with
      | true => cases hdb
      | false => exact ⟨hdb, rfl⟩
    obtain ⟨hset, hfault⟩ := hdb
    refine .inl ⟨rfl, fun i hi => ?_, by simp [hset, hfault]⟩
    unfold Database.updateConnection at hset
    split at hset
    · obtain rfl := Option.some.inj hset
      rfl
    · dsimp only at hset
      split at hset
      · obtain rfl := Option.some.inj hset
        show (Table.find? _ i).map _ = (Table.find? _ i).map _
        rw [Table.find?_updateWhere]
        cases hfind : s.db.connections.find? i with
        | none => rfl
        | some c =>
            obtain rfl := (Table.find?_eq_some.mp hfind).2
            simp [hi]
      · cases hset

/-- What holds of an edited server in runs whose steps are current. -/
structure Inv (e : Edited) : Prop where
  kept : e.Kept
  stops : e.server.api.Stops

variable {ports : FreshPool} {localAddr : LocalAddr} {fault : Bool}

/-- A step that leaves the rows and the PATCH under way alone. -/
theorem Inv.unmoved (h : e.Inv) (hedit : e.edit label t = e.followed t)
    (hslots : t.shared.db.slots = e.server.shared.db.slots)
    (hsets : t.api.setsNode = e.server.api.setsNode) (hstops : t.api.Stops) :
    Inv { server := t, acked := e.edit label t } := by
  refine ⟨fun i sl hi hi' => ?_, hstops⟩
  rw [hedit] at hi
  show t.shared.db.slots i = some sl
  rw [hslots]
  exact h.kept i sl ((followed_same hslots).mp hi).1 (hsets ▸ hi')

/-- An edit that ends no PATCH that sets a node. -/
theorem Inv.followed (h : e.Inv) (hedit : e.edit label t = e.followed t)
    (hsets : e.server.api.setsNode = none ∨ t.api = e.server.api) (hstops : t.api.Stops) :
    Inv { server := t, acked := e.edit label t } := by
  refine ⟨fun i sl hi hi' => ?_, hstops⟩
  rw [hedit] at hi
  refine followed_kept hi fun acked hacked => h.kept i acked hacked ?_
  rcases hsets with hsets | hsets
  · rw [hsets]
    exact (Option.some_ne_none i).symm
  · exact hsets ▸ hi'

/-- A write of what was read earlier. -/
theorem Inv.rewritten (h : e.Inv) (hC : e.Current label) (hedit : e.edit label t = e.acked)
    (hwrite : e.server.shared.db.Rewritten t.shared.db (e.server.rewrites label))
    (hsets : t.api.setsNode = e.server.api.setsNode) (hstops : t.api.Stops) :
    Inv { server := t, acked := e.edit label t } := by
  refine ⟨fun i sl hi hi' => ?_, hstops⟩
  rw [hedit] at hi
  exact hC.slots h.kept hwrite hi (hsets ▸ hi')

/-- A PATCH that ends where the rows stay. -/
theorem Inv.abandoned (h : e.Inv) (hC : e.Current label) (hedit : e.edit label t = e.followed t)
    (hslots : t.shared.db.slots = e.server.shared.db.slots)
    (habandons : ∀ i, e.server.api.setsNode = some i → e.server.abandons label = some i) (i : RowId)
    (sl : RowSlots) (hi : e.edit label t i = some sl) : t.shared.db.slots i = some sl := by
  rw [hedit] at hi
  obtain ⟨hacked, hrow⟩ := (followed_same hslots).mp hi
  rw [hslots]
  by_cases hsets : e.server.api.setsNode = some i
  · obtain ⟨row, hrow⟩ := Option.isSome_iff_exists.mp hrow
    rw [hrow, hC.abandons i (habandons i hsets) sl hacked row hrow]
  · exact h.kept i sl hacked hsets

theorem setsNode_handler {pc : ApiPc} (hcheck : ∀ id slots, pc ≠ .patchCheck id slots)
    (hpatch : ∀ id slots, pc ≠ .patch id slots) (hstop : ∀ id after, pc ≠ .stop id after)
    (hstopping : ∀ call id at' after, pc ≠ .stopping call id at' after) : pc.setsNode = none := by
  unfold ApiPc.setsNode
  split
  · exact absurd rfl (hcheck _ _)
  · exact absurd rfl (hpatch _ _)
  · exact absurd rfl (hstop _ _)
  · exact absurd rfl (hstopping _ _ _ _)
  · rfl

theorem inv_api (h : e.Inv) (hC : e.Current (.api fault))
    (hstep : e.server.apiStep fault = some t) :
    Inv { server := t, acked := e.edit (.api fault) t } := by
  unfold Server.apiStep at hstep
  split at hstep
  · rename_i id hapi
    obtain rfl := Option.some.inj hstep
    exact h.followed (by simp [edit, hapi]) (.inl (by rw [hapi]; rfl)) trivial
  · rename_i id after hapi
    obtain rfl := Option.some.inj hstep
    have hstops := h.stops
    rw [hapi] at hstops
    refine h.unmoved (by simp [edit, hapi]) rfl ?_ ?_
    · rw [hapi]
      cases after <;> rfl
    · cases after with
      | patch slots => exact hstops
      | delete => trivial
  · rename_i call id pc after hapi
    obtain ⟨⟨u, next⟩, hstop, rfl⟩ := Option.map_eq_some_iff.mp hstep
    have hstops := h.stops
    rw [hapi] at hstops
    cases after with
    | delete =>
        refine h.followed (by simp [edit, hapi]) (.inl (by rw [hapi]; rfl)) ?_
        cases next <;> trivial
    | patch slots =>
        have hnode : slots.nodeId.isSome = true := hstops
        refine ⟨fun i sl hi hi' => ?_, ?_⟩
        · have hi : e.acked i = some sl := by simpa [edit, hapi] using hi
          have hne : i ≠ id := by
            rintro rfl
            refine hi' ?_
            cases next <;> simp [ApiPc.setsNode, AfterStop.pc, hnode]
          show u.db.slots i = some sl
          rw [(Shared.stopStep_cases hstop).slots hne]
          refine h.kept i sl hi ?_
          simpa [hapi, ApiPc.setsNode, hnode] using hne.symm
        · cases next with
          | some pc => exact hnode
          | none => trivial
  · rename_i id rest hapi
    obtain rfl := Option.some.inj hstep
    exact h.followed (by simp [edit, hapi]) (.inl (by rw [hapi]; rfl)) trivial
  · rename_i call id pc rest hapi
    obtain ⟨⟨u, next⟩, hdeploy, rfl⟩ := Option.map_eq_some_iff.mp hstep
    refine h.rewritten hC (by simp [edit, hapi]) ?_ ?_ ?_
    · rcases (Shared.deployStep_cases hdeploy).rewritten with hsame | ⟨d, rfl, rfl, hdb⟩
      · exact .inl (by rw [← hsame]; exact congrArg _ (Shared.endCall_db next))
      · refine .inr ⟨id, d.plan.node.id, _, _, by simp [Server.rewrites, hapi], hdb.trans ?_⟩
        exact congrArg some (Shared.endCall_db next).symm
    · rw [hapi]
      cases next <;> rfl
    · cases next <;> trivial
  · rename_i hspawn hstop hstopping hnext hauto
    obtain ⟨⟨u, pc⟩, hhandler, rfl⟩ := Option.map_eq_some_iff.mp hstep
    have hstops := handlerStep_stops hhandler h.stops
    by_cases hcheck : ∃ id slots, e.server.api = .patchCheck id slots
    · obtain ⟨id, slots, hapi⟩ := hcheck
      rw [hapi] at hhandler
      obtain ⟨rfl, hsets⟩ := handlerStep_patchCheck hhandler
      exact h.unmoved (by simp [edit, hapi]) rfl (hapi ▸ hsets) hstops
    by_cases hpatch : ∃ id slots, e.server.api = .patch id slots
    · obtain ⟨id, slots, hapi⟩ := hpatch
      rw [hapi] at hhandler
      refine ⟨fun i sl hi hi' => ?_, hstops⟩
      rcases handlerStep_patch hhandler with ⟨rfl, hothers, -⟩ | ⟨rfl, rfl, hfails⟩
      · simp only [edit, hapi, if_true] at hi
        by_cases hid : i = id
        · subst hid
          rwa [Function.update_self] at hi
        · rw [Function.update_of_ne hid] at hi
          show u.db.slots i = some sl
          rw [hothers i hid]
          refine h.kept i sl hi ?_
          rw [hapi]
          show (if slots.nodeId.isSome then some id else none) ≠ some i
          split
          · exact fun heq => hid (Option.some.inj heq).symm
          · exact (Option.some_ne_none i).symm
      · have hedit : e.edit (.api fault) { e.server with api := .idle } =
            e.followed { e.server with api := .idle } := by
          simp [edit, hapi]
        refine h.abandoned hC hedit rfl ?_ i sl hi
        intro i hsets
        simp only [Server.abandons, hapi, if_pos hfails]
        rw [← hapi, hsets]
    · have hedit : e.edit (.api fault) { e.server with shared := u, api := pc } =
          e.followed { e.server with shared := u, api := pc } := by
        unfold edit
        split
        · rename_i heq
          cases heq
        · rename_i heq
          cases heq
        · rename_i hapi
          exact absurd hapi (hauto _ _ _ _)
        · rename_i hapi
          exact absurd hapi (hstopping _ _ _ _)
        · rename_i hapi
          exact absurd ⟨_, _, hapi⟩ hpatch
        · rfl
      exact h.followed hedit (.inl (setsNode_handler (fun id slots heq => hcheck ⟨id, slots, heq⟩)
        (fun id slots heq => hpatch ⟨id, slots, heq⟩) hstop hstopping)) hstops

theorem inv_step (h : e.Inv) (hC : e.Current label)
    (hstep : e.server.step ports localAddr label = some t) :
    Inv { server := t, acked := e.edit label t } := by
  have hsurroundings : e.edit label t = e.followed t →
      (e.server.shared.surroundings localAddr label).map (fun u => { e.server with shared := u }) =
        some t → Inv { server := t, acked := e.edit label t } := by
    intro hedit hsurr
    obtain ⟨u, -, rfl⟩ := Option.map_eq_some_iff.mp hsurr
    exact h.followed hedit (.inr rfl) h.stops
  cases label with
  | api fault => exact inv_api h hC hstep
  | attempt call fault =>
      obtain ⟨⟨id, pc⟩, hcall, hstep⟩ := Option.bind_eq_some_iff.mp hstep
      obtain ⟨⟨u, next⟩, hdeploy, rfl⟩ := Option.map_eq_some_iff.mp hstep
      refine h.rewritten hC rfl ?_ rfl h.stops
      rcases (Shared.deployStep_cases hdeploy).rewritten with hsame | ⟨d, rfl, rfl, hdb⟩
      · exact .inl (by rw [← hsame]; exact congrArg _ (Shared.endCall_db next))
      · refine .inr ⟨id, d.plan.node.id, _, _, by simp [Server.rewrites, hcall], hdb.trans ?_⟩
        exact congrArg some (Shared.endCall_db next).symm
  | sync fault =>
      obtain ⟨⟨u, pc⟩, hsync, rfl⟩ := Option.map_eq_some_iff.mp hstep
      refine h.rewritten hC rfl ?_ rfl h.stops
      rcases (Shared.syncStep_cases hsync).rewritten with
        hsame | ⟨uuid, nodeId, cid, rest, rfl, hpc, hdb⟩
      · exact .inl hsame
      · exact .inr ⟨cid, nodeId, _, _, by simp [Server.rewrites, hpc], hdb⟩
  | request fault r =>
      simp only [Server.step] at hstep
      split at hstep
      · rename_i hidle
        obtain rfl := Option.some.inj hstep
        exact h.followed rfl (.inl (by rw [hidle]; rfl)) (request_stops _ _ _)
      · cases hstep
  | event fault update =>
      simp only [Server.step] at hstep
      split at hstep
      · obtain rfl := Option.some.inj hstep
        obtain ⟨clientNodes, hframe⟩ := e.server.shared.syncEvent_frame fault update
        refine h.unmoved rfl ?_ rfl h.stops
        show Database.slots (e.server.shared.syncEvent fault update).1.db = _
        rw [hframe]
        rfl
      · cases hstep
  | restart =>
      obtain rfl := Option.some.inj hstep
      exact ⟨fun i sl hi _ => h.abandoned hC rfl rfl (fun _ hsets => hsets) i sl hi, trivial⟩
  | _ => exact hsurroundings rfl hstep

/-! ## When a step loses an edit -/

/-- A node read earlier is what the row has after it is written. -/
theorem rewrites_slots {s t : Server} {id node : RowId}
    (hstep : s.step ports localAddr label = some t) (hwrite : s.rewrites label = some (id, node))
    (hnode : (s.shared.db.getNodeById node).isSome) :
    t.shared.db.slots id = (s.shared.db.slots id).map (fun sl => { sl with nodeId := some node }) ∧
      (t.api.setsNode = some id → s.api.setsNode = some id) := by
  unfold Server.rewrites at hwrite
  split at hwrite
  · split at hwrite
    · rename_i id' d hcall
      obtain ⟨rfl, rfl⟩ := Prod.mk.inj (Option.some.inj hwrite)
      obtain ⟨⟨i, pc⟩, hcall', hstep⟩ := Option.bind_eq_some_iff.mp hstep
      obtain ⟨rfl, rfl⟩ := Prod.mk.inj (Option.some.inj (hcall'.symm.trans hcall))
      obtain ⟨⟨u, next⟩, hdeploy, rfl⟩ := Option.map_eq_some_iff.mp hstep
      refine ⟨?_, fun hsets => hsets⟩
      show (u.endCall _ i next).db.slots i = _
      rw [Shared.endCall_db,
        Database.updateConnectionNode_slots (Shared.deployStep_finish hdeploy hnode),
        if_pos rfl]
    · cases hwrite
  · split at hwrite
    · rename_i call id' d rest hapi
      obtain ⟨rfl, rfl⟩ := Prod.mk.inj (Option.some.inj hwrite)
      simp only [Server.step, Server.apiStep, hapi] at hstep
      obtain ⟨⟨u, next⟩, hdeploy, rfl⟩ := Option.map_eq_some_iff.mp hstep
      refine ⟨?_, fun hsets => ?_⟩
      · show (u.endCall call id' next).db.slots id' = _
        rw [Shared.endCall_db,
          Database.updateConnectionNode_slots (Shared.deployStep_finish hdeploy hnode),
        if_pos rfl]
      · cases next <;> cases hsets
    · cases hwrite
  · split at hwrite
    · rename_i uuid nodeId cid rest hsync
      obtain ⟨rfl, rfl⟩ := Prod.mk.inj (Option.some.inj hwrite)
      obtain ⟨⟨u, pc⟩, hsyncStep, rfl⟩ := Option.map_eq_some_iff.mp hstep
      rw [hsync] at hsyncStep
      exact ⟨Shared.syncStep_pend hsyncStep hnode, fun hsets => hsets⟩
    · cases hwrite
  · cases hwrite

/-- A step that writes a node read earlier is no edit. -/
theorem edit_rewrites {w : RowId × RowId} (hwrite : e.server.rewrites label = some w) :
    e.edit label t = e.acked := by
  unfold Server.rewrites at hwrite
  split at hwrite
  · rfl
  · split at hwrite
    · rename_i hapi
      simp [edit, hapi]
    · cases hwrite
  · rfl
  · cases hwrite

/-- A PATCH that is abandoned writes nothing, and none is under way afterwards. -/
theorem abandons_slots {id : RowId} (hstep : e.server.step ports localAddr label = some t)
    (habandons : e.server.abandons label = some id) :
    t.shared.db.slots = e.server.shared.db.slots ∧ t.api.setsNode = none ∧
      e.edit label t = e.followed t := by
  unfold Server.abandons at habandons
  split at habandons
  · rename_i fault
    split at habandons
    · rename_i i slots hapi
      split at habandons
      · rename_i hfails
        simp only [Server.step, Server.apiStep, hapi] at hstep
        obtain ⟨⟨u, pc⟩, hhandler, rfl⟩ := Option.map_eq_some_iff.mp hstep
        rcases handlerStep_patch hhandler with ⟨_, _, hno⟩ | ⟨rfl, rfl, _⟩
        · exact absurd hfails hno
        · exact ⟨rfl, rfl, by simp [edit, hapi]⟩
      · cases habandons
    · cases habandons
  · obtain rfl := Option.some.inj hstep
    exact ⟨rfl, rfl, rfl⟩
  · cases habandons

theorem Inv.current (h : e.Inv) (hstep : e.server.step ports localAddr label = some t)
    (hk : Kept { server := t, acked := e.edit label t }) : e.Current label := by
  refine ⟨fun id node hwrite sl hsl hsets hnode => ?_, fun id habandons sl hsl row hrow => ?_⟩
  · obtain ⟨hslots, hapi⟩ := rewrites_slots hstep hwrite hnode
    have hedit : e.edit label t id = some sl := by rw [edit_rewrites hwrite, hsl]
    have hnew : t.shared.db.slots id = some sl := hk id sl hedit fun hsets' => hsets (hapi hsets')
    rw [h.kept id sl hsl hsets, Option.map_some, hnew] at hslots
    exact congrArg RowSlots.nodeId (Option.some.inj hslots)
  · obtain ⟨hslots, hapi, hedit⟩ := abandons_slots hstep habandons
    have hfollowed : e.edit label t id = some sl := by
      rw [hedit]
      exact (followed_same hslots).mpr ⟨hsl, Option.isSome_iff_exists.mpr ⟨row, hrow⟩⟩
    have hnew : t.shared.db.slots id = some sl := hk id sl hfollowed (by rw [hapi]; nofun)
    rw [hslots, hrow] at hnew
    exact Option.some.inj hnew

/-- Acknowledged edits last exactly in the runs in which every node that was read
earlier is still the row's when it is written. -/
theorem kept_iff_current (ports : FreshPool) (localAddr : LocalAddr) (labels : List Label) :
    (edits ports localAddr).Always Kept (edits ports localAddr).init labels ↔
      (edits ports localAddr).Meets Current (edits ports localAddr).init labels := by
  refine Machine.always_iff_meets (I := Inv) ?_ (fun _ h => h.kept) ?_
    ⟨fun _ _ h => (by cases h), trivial⟩
  · intro e label e' h hC hstep
    obtain ⟨t, ht, rfl⟩ := Option.map_eq_some_iff.mp hstep
    exact inv_step h hC ht
  · intro e label e' h hstep hk
    obtain ⟨t, ht, rfl⟩ := Option.map_eq_some_iff.mp hstep
    exact h.current ht hk

end Edited

/-- Nothing of the server's own is in flight. -/
def Server.Quiet (s : Server) : Prop :=
  s.api = .idle ∧ s.sync = .idle ∧ ∀ call < s.nextCall, s.attempts call = none

instance (s : Server) : Decidable s.Quiet := inferInstanceAs (Decidable (_ ∧ _))

/-- A connection is moved to another node while its deploy waits for the first. -/
def movedNode : List Label :=
  Label.oneConnection ++ Label.connects "v" 1 ++ List.replicate 10 (.attempt 0 false) ++
    [.request false (.patchConnection 1
      { bridgeId := none, imageId := none, nodeId := some (some 2) }), .api false, .api false,
     .api false] ++
    .message 0 (.containerStarted "kdct-a-1" [8000]) :: List.replicate 7 (.attempt 0 false) ++
    [.attempt 1 false]

set_option maxRecDepth 4000 in
theorem movedNode_movedBack :
    ¬(edits samplePool fun _ => none).Always (fun e => e.server.Quiet → e.Kept)
      (edits samplePool fun _ => none).init movedNode := by
  intro h
  obtain ⟨e, he⟩ : ∃ e, (edits samplePool fun _ => none).run
      (edits samplePool fun _ => none).init movedNode = some e :=
    Option.isSome_iff_exists.mp (by decide)
  have hfacts : ((edits samplePool fun _ => none).run (edits samplePool fun _ => none).init
      movedNode).map (fun e => (decide e.server.Quiet, e.acked 1, e.server.shared.db.slots 1)) =
        some (true, some { bridgeId := some 1, imageId := some 1, nodeId := some 2 },
          some { bridgeId := some 1, imageId := some 1, nodeId := some 1 }) := by
    decide
  rw [he] at hfacts
  obtain ⟨hquiet, hrest⟩ := Prod.mk.inj (Option.some.inj hfacts)
  obtain ⟨hacked, hrow⟩ := Prod.mk.inj hrest
  have hquiet : e.server.Quiet := of_decide_eq_true hquiet
  have hnone : e.server.api.setsNode ≠ some 1 := by rw [hquiet.1]; nofun
  have hkept := (h.last he) hquiet 1 _ hacked hnone
  rw [hrow] at hkept
  cases hkept

end Kdct
