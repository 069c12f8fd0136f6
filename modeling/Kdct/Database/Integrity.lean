/-
What the schema promises, and what every statement keeps.

`Write` lists the statements that change the database, each with the arguments the
server can give it.  `Sound` is the schema's own promise: names and other unique columns
are unique, a foreign key names a row that is there, and a connection is deployed exactly
when it has the name of a container.  The last one the schema does not say; it holds
because `update_connection_node` writes both columns at once.
-/
import Kdct.Database
import Kdct.Lib.Constraints

namespace Kdct

/-- A connection is deployed exactly when it has a container. -/
def Connection.Coherent (c : Connection) : Prop := c.status = .deployed ↔ c.containerName.isSome

namespace Database

/-! ## The statements -/

/-- A statement that changes the database, as the server runs it. -/
inductive Write (db : Database) : Database → Prop
  | insertImage (name source sourceType : String) : Write db (db.insertImage name source sourceType)
  | insertBridge {name : String} {db'} (h : db.insertBridge name = some db') : Write db db'
  | deleteBridge (bridgeId : RowId) : Write db (db.deleteBridge bridgeId)
  | insertBridgePort {bridgeId containerPort mode routePath protocols poolPort db'}
      (h : db.insertBridgePort bridgeId containerPort mode routePath protocols poolPort =
        some db') : Write db db'
  | deleteBridgePort (bridgeId : RowId) (containerPort : Int) :
      Write db (db.deleteBridgePort bridgeId containerPort)
  | setBridgeEnvs (bridgeId : RowId) (envs : List (String × String)) (good : Nat) :
      Write db (db.setBridgeEnvs bridgeId envs good)
  | insertConnection (name : String) : Write db (db.insertConnection name)
  | updateConnection {id bridgeId imageId nodeId db'}
      (h : db.updateConnection id bridgeId imageId nodeId = some db') : Write db db'
  | updateConnectionNode {id nodeId status containerName db'}
      (hstatus : status = .deployed ↔ Option.isSome containerName = true)
      (h : db.updateConnectionNode id nodeId status containerName = some db') : Write db db'
  | deleteConnection (id : RowId) : Write db (db.deleteConnection id)
  | upsertNode (nodeUuid serviceDigest hostname : String) (portRangeStart portRangeEnd : Port) :
      Write db (db.upsertNode nodeUuid serviceDigest hostname portRangeStart portRangeEnd)
  | setNodeOffline (nodeUuid : String) : Write db (db.setNodeOffline nodeUuid)
  | markAllOffline : Write db db.markAllOffline

/-- A statement that ran, or none. -/
def Write? (db db' : Database) : Prop := db' = db ∨ db.Write db'

theorem Write?.of_eq {db db' : Database} (h : db' = db) : db.Write? db' := .inl h

/-! ## The promise -/

structure Sound (db : Database) : Prop where
  imageNames : db.images.Unique ImageNode.name
  bridgeNames : db.bridges.Unique Bridge.name
  portKeys : db.bridgePorts.Unique fun p => (p.bridgeId, p.containerPort)
  envKeys : db.bridgeEnvs.Unique fun e => (e.bridgeId, e.key)
  nodeUuids : db.clientNodes.Unique ClientNode.nodeUuid
  bridgeOfPort : db.bridgePorts.Refers (fun p => some p.bridgeId) db.bridges
  bridgeOfEnv : db.bridgeEnvs.Refers (fun e => some e.bridgeId) db.bridges
  bridgeOf : db.connections.Refers Connection.bridgeId db.bridges
  imageOf : db.connections.Refers Connection.imageId db.images
  nodeOf : db.connections.Refers Connection.nodeId db.clientNodes
  coherent : ∀ c ∈ db.connections.rows, c.Coherent

theorem sound_empty : Sound .empty where
  imageNames := Table.unique_empty
  bridgeNames := Table.unique_empty
  portKeys := Table.unique_empty
  envKeys := Table.unique_empty
  nodeUuids := Table.unique_empty
  bridgeOfPort := Table.refers_empty _
  bridgeOfEnv := Table.refers_empty _
  bridgeOf := Table.refers_empty _
  imageOf := Table.refers_empty _
  nodeOf := Table.refers_empty _
  coherent := fun _ h => absurd h List.not_mem_nil

namespace Sound

variable {db db' : Database}

/-! ### Images and bridges -/

theorem insertImage (h : db.Sound) (name source sourceType : String) :
    (db.insertImage name source sourceType).Sound where
  imageNames := by
    refine (h.imageNames.deleteWhere _).insert fun r hr heq => ?_
    have hkept := (Table.mem_deleteWhere.mp hr).2
    exact absurd heq (by simpa using hkept)
  bridgeNames := h.bridgeNames
  portKeys := h.portKeys
  envKeys := h.envKeys
  nodeUuids := h.nodeUuids
  bridgeOfPort := h.bridgeOfPort
  bridgeOfEnv := h.bridgeOfEnv
  bridgeOf := h.bridgeOf.of_others rfl fun _ => rfl
  imageOf := by
    -- Whoever points at the row that is replaced has lost its image before it goes.
    refine Table.Refers.insert_target (h.imageOf.set_null rfl (fun _ => rfl) ?_)
    intro c _ i hi hname himage
    have hfind : db.images.find? i.id = some i := Table.find?_eq_some.mpr ⟨hi, rfl⟩
    simp [himage, hfind, hname]
  nodeOf := h.nodeOf.of_others rfl fun _ => rfl
  coherent := Table.Changes.all rfl h.coherent fun c hc _ => h.coherent c hc

theorem insertBridge {name : String} (h : db.Sound) (hdb : db.insertBridge name = some db') :
    db'.Sound := by
  unfold Database.insertBridge at hdb
  split at hdb
  · cases hdb
  · rename_i hnew
    obtain rfl := Option.some.inj hdb
    refine { h with
      bridgeNames := h.bridgeNames.insert fun r hr heq => hnew ?_
      bridgeOfPort := h.bridgeOfPort.insert_target
      bridgeOfEnv := h.bridgeOfEnv.insert_target
      bridgeOf := h.bridgeOf.insert_target }
    exact List.any_eq_true.mpr ⟨r, hr, beq_iff_eq.mpr heq⟩

theorem deleteBridge (h : db.Sound) (bridgeId : RowId) : (db.deleteBridge bridgeId).Sound where
  imageNames := h.imageNames
  bridgeNames := h.bridgeNames.deleteWhere _
  portKeys := h.portKeys.deleteWhere _
  envKeys := h.envKeys.deleteWhere _
  nodeUuids := h.nodeUuids
  bridgeOfPort := h.bridgeOfPort.cascade fun _ _ _ hb heq =>
    beq_iff_eq.mpr ((Option.some.inj heq).trans (beq_iff_eq.mp hb))
  bridgeOfEnv := h.bridgeOfEnv.cascade fun _ _ _ hb heq =>
    beq_iff_eq.mpr ((Option.some.inj heq).trans (beq_iff_eq.mp hb))
  bridgeOf := by
    refine h.bridgeOf.set_null rfl (fun _ => rfl) fun c _ b _ hb heq => ?_
    rw [heq, beq_iff_eq.mp hb]
    exact beq_self_eq_true _
  imageOf := h.imageOf.of_others rfl fun _ => rfl
  nodeOf := h.nodeOf.of_others rfl fun _ => rfl
  coherent := Table.Changes.all rfl h.coherent fun c hc _ => h.coherent c hc

theorem insertBridgePort {bridgeId : RowId} {containerPort : Int} {mode : String}
    {routePath protocols : Option String} {poolPort : Option Port} (h : db.Sound)
    (hdb : db.insertBridgePort bridgeId containerPort mode routePath protocols poolPort =
      some db') : db'.Sound := by
  unfold Database.insertBridgePort at hdb
  split at hdb
  · cases hdb
  · rename_i hbridge
    split at hdb
    · cases hdb
    · rename_i hnew
      obtain rfl := Option.some.inj hdb
      refine { h with
        portKeys := h.portKeys.insert fun p hp heq => hnew ?_
        bridgeOfPort := h.bridgeOfPort.insert fun k hk => ?_ }
      · obtain ⟨hb, hc⟩ := Prod.mk.inj heq
        exact List.any_eq_true.mpr ⟨p, hp, by simp [hb, hc]⟩
      · obtain rfl := Option.some.inj hk
        exact Table.isSome_find?.mp (by simpa [Option.isSome_iff_ne_none] using hbridge)

theorem deleteBridgePort (h : db.Sound) (bridgeId : RowId) (containerPort : Int) :
    (db.deleteBridgePort bridgeId containerPort).Sound :=
  { h with
    portKeys := h.portKeys.deleteWhere _
    bridgeOfPort := h.bridgeOfPort.deleteWhere _ }

theorem insertBridgeEnv {bridgeId : RowId} {key value : String} (h : db.Sound)
    (hdb : db.insertBridgeEnv bridgeId key value = some db') : db'.Sound := by
  unfold Database.insertBridgeEnv at hdb
  split at hdb
  · cases hdb
  · rename_i hbridge
    split at hdb
    · cases hdb
    · rename_i hnew
      obtain rfl := Option.some.inj hdb
      refine { h with
        envKeys := h.envKeys.insert fun e he heq => hnew ?_
        bridgeOfEnv := h.bridgeOfEnv.insert fun k hk => ?_ }
      · obtain ⟨hb, hk⟩ := Prod.mk.inj heq
        exact List.any_eq_true.mpr ⟨e, he, by simp [hb, hk]⟩
      · obtain rfl := Option.some.inj hk
        exact Table.isSome_find?.mp (by simpa [Option.isSome_iff_ne_none] using hbridge)

theorem insertBridgeEnvs (h : db.Sound) (bridgeId : RowId) (envs : List (String × String))
    (good : Nat) : (db.insertBridgeEnvs bridgeId envs good).2.Sound := by
  induction envs generalizing db good with
  | nil => cases good <;> exact h
  | cons pair rest ih =>
      cases good with
      | zero => exact h
      | succ good =>
          simp only [Database.insertBridgeEnvs]
          split
          · rename_i db' hdb
            exact ih (h.insertBridgeEnv hdb) good
          · exact h

theorem setBridgeEnvs (h : db.Sound) (bridgeId : RowId) (envs : List (String × String))
    (good : Nat) : (db.setBridgeEnvs bridgeId envs good).Sound := by
  cases good with
  | zero => exact h
  | succ good =>
      have hdeleted : Sound { db with
          bridgeEnvs := db.bridgeEnvs.deleteWhere fun r => r.bridgeId == bridgeId } :=
        { h with
          envKeys := h.envKeys.deleteWhere _
          bridgeOfEnv := h.bridgeOfEnv.deleteWhere _ }
      exact hdeleted.insertBridgeEnvs bridgeId envs good

/-! ### Connections -/

theorem insertConnection (h : db.Sound) (name : String) : (db.insertConnection name).Sound :=
  { h with
    bridgeOf := h.bridgeOf.insert fun _ hk => by cases hk
    imageOf := h.imageOf.insert fun _ hk => by cases hk
    nodeOf := h.nodeOf.insert fun _ hk => by cases hk
    coherent := fun c hc => by
      rcases Table.mem_insert.mp hc with hc | rfl
      · exact h.coherent c hc
      · exact ⟨fun heq => (by cases heq), fun heq => (by cases heq)⟩ }

theorem deleteConnection (h : db.Sound) (id : RowId) : (db.deleteConnection id).Sound :=
  { h with
    bridgeOf := h.bridgeOf.deleteWhere _
    imageOf := h.imageOf.deleteWhere _
    nodeOf := h.nodeOf.deleteWhere _
    coherent := fun c hc => h.coherent c (Table.mem_deleteWhere.mp hc).1 }

/-- A slot that passes its check names a row. -/
theorem exists_of_all {ρ : Type} {key : ρ → Nat} {t : Table ρ key} {slot : Option Nat}
    (h : slot.all (fun k => (t.find? k).isSome) = true) : ∀ k ∈ slot, ∃ x ∈ t.rows, key x = k := by
  intro k hk
  obtain rfl := Option.mem_def.mp hk
  exact Table.isSome_find?.mp h

theorem updateConnection {id : RowId} {bridgeId imageId nodeId : Slot} (h : db.Sound)
    (hdb : db.updateConnection id bridgeId imageId nodeId = some db') : db'.Sound := by
  unfold Database.updateConnection at hdb
  split at hdb
  · obtain rfl := Option.some.inj hdb
    exact h
  · dsimp only at hdb
    split at hdb
    · rename_i hslots
      obtain rfl := Option.some.inj hdb
      simp only [Bool.and_eq_true] at hslots
      obtain ⟨⟨hbridge, himage⟩, hnode⟩ := hslots
      refine { h with
        bridgeOf := h.bridgeOf.of_changes rfl fun _ _ _ => exists_of_all hbridge
        imageOf := h.imageOf.of_changes rfl fun _ _ _ => exists_of_all himage
        nodeOf := h.nodeOf.of_changes rfl fun _ _ _ => exists_of_all hnode
        coherent := ?_ }
      exact Table.Changes.all rfl h.coherent fun c hc _ => h.coherent c hc
    · cases hdb

theorem updateConnectionNode {id : RowId} {nodeId : Option RowId} {status : Status}
    {containerName : Option String} (h : db.Sound)
    (hstatus : status = .deployed ↔ containerName.isSome)
    (hdb : db.updateConnectionNode id nodeId status containerName = some db') : db'.Sound := by
  unfold Database.updateConnectionNode at hdb
  split at hdb
  · rename_i hcheck
    obtain rfl := Option.some.inj hdb
    refine { h with
      bridgeOf := h.bridgeOf.of_others rfl fun _ => rfl
      imageOf := h.imageOf.of_others rfl fun _ => rfl
      nodeOf := h.nodeOf.of_changes rfl fun c hc hid => ?_
      coherent := ?_ }
    · -- The check is skipped only for a row that is not there.
      have hfind : db.connections.find? id = some c :=
        Table.find?_eq_some.mpr ⟨hc, beq_iff_eq.mp hid⟩
      simp only [hfind, Option.isNone_some, Bool.false_or] at hcheck
      exact exists_of_all hcheck
    · exact Table.Changes.all rfl h.coherent fun _ _ _ => hstatus
  · cases hdb

/-! ### Nodes -/

theorem upsertNode (h : db.Sound) (nodeUuid serviceDigest hostname : String)
    (portRangeStart portRangeEnd : Port) :
    (db.upsertNode nodeUuid serviceDigest hostname portRangeStart portRangeEnd).Sound := by
  unfold Database.upsertNode
  split
  · exact { h with
      nodeUuids := h.nodeUuids.of_changes rfl fun _ => rfl
      nodeOf := h.nodeOf.changes_target rfl fun _ => rfl }
  · rename_i hnone
    refine { h with
      nodeUuids := h.nodeUuids.insert fun n hn heq => ?_
      nodeOf := h.nodeOf.insert_target }
    exact List.find?_eq_none.mp hnone n hn (beq_iff_eq.mpr heq)

theorem setNodeOffline (h : db.Sound) (nodeUuid : String) : (db.setNodeOffline nodeUuid).Sound :=
  { h with
    nodeUuids := h.nodeUuids.of_changes rfl fun _ => rfl
    nodeOf := h.nodeOf.changes_target rfl fun _ => rfl }

theorem markAllOffline (h : db.Sound) : db.markAllOffline.Sound :=
  { h with
    nodeUuids := h.nodeUuids.of_changes rfl fun _ => rfl
    nodeOf := h.nodeOf.changes_target rfl fun _ => rfl }

/-- Every statement keeps the promise. -/
theorem write (h : db.Sound) (hw : db.Write db') : db'.Sound := by
  cases hw with
  | insertImage name source sourceType => exact h.insertImage name source sourceType
  | insertBridge hdb => exact h.insertBridge hdb
  | deleteBridge bridgeId => exact h.deleteBridge bridgeId
  | insertBridgePort hdb => exact h.insertBridgePort hdb
  | deleteBridgePort bridgeId containerPort => exact h.deleteBridgePort bridgeId containerPort
  | setBridgeEnvs bridgeId envs good => exact h.setBridgeEnvs bridgeId envs good
  | insertConnection name => exact h.insertConnection name
  | updateConnection hdb => exact h.updateConnection hdb
  | updateConnectionNode hstatus hdb => exact h.updateConnectionNode hstatus hdb
  | deleteConnection id => exact h.deleteConnection id
  | upsertNode nodeUuid serviceDigest hostname first last => exact h.upsertNode ..
  | setNodeOffline nodeUuid => exact h.setNodeOffline nodeUuid
  | markAllOffline => exact h.markAllOffline

end Sound

end Database

end Kdct
