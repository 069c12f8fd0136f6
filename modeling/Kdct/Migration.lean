/-
The database file and its migration (`Database::open` and `migrate` in
`crates/kdcts/src/db.rs`).

`Stored` is the file as `migrate` finds it: `client_nodes` may be older than its
`node_uuid` column.  A file without a table gets it empty from
`CREATE TABLE IF NOT EXISTS`, with the unique column, so every table is taken to be
there.  `migrate` runs again at every `Database::open`, which is on every event of a
node, so it must leave alone what it and the operations have made of the file.
-/
import Kdct.Database
import Mathlib.Data.List.Find

namespace Kdct

/-- How `client_nodes` has its `node_uuid`. -/
inductive NodeSchema
  /-- The table is older than the column. -/
  | legacy
  /-- The column was added and has no index yet. -/
  | plain
  /-- `CREATE UNIQUE INDEX … WHERE node_uuid IS NOT NULL`. -/
  | partialIndex
  /-- `node_uuid TEXT UNIQUE`. -/
  | unique
  deriving DecidableEq

/-- Whether a uuid that another row has is refused. -/
def NodeSchema.indexed : NodeSchema → Bool
  | .legacy | .plain => false
  | .partialIndex | .unique => true

/-- What a client reports of its machine. -/
structure NodeInfo where
  hostname : String
  os : String
  arch : String
  dockerVersion : String
  portRangeStart : Port
  portRangeEnd : Port
  cpuCores : Int
  memoryMb : Int
  deriving DecidableEq

/-- A row of `client_nodes`. -/
structure NodeRow where
  id : RowId
  info : NodeInfo
  status : NodeState
  authDigest : Option String
  nodeUuid : Option String
  lastSeen : Int
  deriving DecidableEq

/-- The row as the operations see it; a null uuid reads as the empty text. -/
def NodeRow.node (r : NodeRow) : ClientNode where
  id := r.id
  hostname := r.info.hostname
  portRangeStart := r.info.portRangeStart
  portRangeEnd := r.info.portRangeEnd
  status := r.status
  authDigest := r.authDigest
  nodeUuid := r.nodeUuid.getD ""

structure Stored where
  images : Table ImageNode ImageNode.id
  bridges : Table Bridge Bridge.id
  bridgePorts : Table BridgePort BridgePort.id
  bridgeEnvs : Table BridgeEnv BridgeEnv.id
  connections : Table Connection Connection.id
  clientNodes : Table NodeRow NodeRow.id
  schema : NodeSchema
  noColumn : schema = .legacy → ∀ r ∈ clientNodes.rows, r.nodeUuid = none

namespace Stored

/-! ## The migration -/

/-- `ALTER TABLE client_nodes ADD COLUMN`. -/
def addColumn (s : Stored) : Stored :=
  { s with schema := .plain, noColumn := fun h => by cases h }

/-- No row has a uuid yet, so the index is accepted. -/
def createIndex (s : Stored) : Stored :=
  { s with schema := .partialIndex, noColumn := fun h => by cases h }

/-- The step of databases that do not have the column. -/
def ensureColumn (s : Stored) : Stored :=
  if s.schema = .legacy then s.addColumn.createIndex else s

def setNodeUuid (s : Stored) (id : RowId) (nodeUuid : String) : Option Stored :=
  if h : s.schema = .legacy ∨
      (s.schema.indexed &&
        s.clientNodes.rows.any fun r => r.nodeUuid == some nodeUuid && r.id != id)
    then none
  else some { s with
    clientNodes := s.clientNodes.updateWhere (fun r => r.id == id)
      (fun r => { r with nodeUuid := some nodeUuid }) fun _ => rfl
    noColumn := fun hlegacy => absurd (.inl hlegacy) h }

/-- The rows that get a uuid: the digest is what the client will be known by. -/
def legacyIds (s : Stored) : List RowId :=
  (s.clientNodes.rows.filter fun r => r.nodeUuid.isNone && r.authDigest.isSome).map NodeRow.id

/-- `uuids` is what `Uuid::new_v4` gives from here on. -/
def backfill (uuids : Nat → String) : List RowId → Stored → Option Stored
  | [], s => some s
  | id :: ids, s => do
      let s ← s.setNodeUuid id (uuids 0)
      backfill (fun i => uuids (i + 1)) ids s

/-- `id IN (SELECT id FROM client_nodes WHERE node_uuid IS NULL)`. -/
def nameless (s : Stored) (id : RowId) : Bool :=
  (s.clientNodes.find? id).any fun r => r.nodeUuid.isNone

def detach (s : Stored) : Stored :=
  { s with
    connections := s.connections.updateWhere (fun c => c.nodeId.any s.nameless)
      (fun c => { c with nodeId := none, status := .pending }) fun _ => rfl }

/-- The foreign key sets the `node_id` of what still points there to null. -/
def deleteNameless (s : Stored) : Stored :=
  { s with
    clientNodes := s.clientNodes.deleteWhere fun r => r.nodeUuid.isNone
    connections := s.connections.updateWhere (fun c => c.nodeId.any s.nameless)
      (fun c => { c with nodeId := none }) fun _ => rfl
    noColumn := fun h r hr => s.noColumn h r (List.mem_filter.mp hr).1 }

def migrate (uuids : Nat → String) (s : Stored) : Option Stored :=
  let s := s.ensureColumn
  (s.backfill uuids s.legacyIds).map fun s => s.detach.deleteNameless

/-! ## The operations -/

/-- The file as it is modelled after its migration. -/
def database (s : Stored) : Database where
  images := s.images
  bridges := s.bridges
  bridgePorts := s.bridgePorts
  bridgeEnvs := s.bridgeEnvs
  connections := s.connections
  clientNodes := s.clientNodes.map NodeRow.node fun _ => rfl

/-- The file after an operation on other tables than `client_nodes`. -/
def withTables (s : Stored) (db : Database) : Stored :=
  { s with
    images := db.images
    bridges := db.bridges
    bridgePorts := db.bridgePorts
    bridgeEnvs := db.bridgeEnvs
    connections := db.connections }

def nodeRow? (s : Stored) (nodeUuid : String) : Option NodeRow :=
  s.clientNodes.rows.find? fun r => r.nodeUuid == some nodeUuid

/-- `ON CONFLICT(node_uuid)` has no `WHERE`, so the statement fails unless an index that is
not partial, or the constraint, is on the column. -/
def upsertNode (s : Stored) (nodeUuid serviceDigest : String) (info : NodeInfo) (now : Int) :
    Option Stored :=
  if h : s.schema = .unique then
    match s.nodeRow? nodeUuid with
    | some _ =>
        some { s with
          clientNodes := s.clientNodes.updateWhere (fun r => r.nodeUuid == some nodeUuid)
            (fun r => { r with info := info, authDigest := some serviceDigest, status := .online,
                               lastSeen := now })
            fun _ => rfl
          noColumn := fun hlegacy => by rw [h] at hlegacy; cases hlegacy }
    | none =>
        some { s with
          clientNodes := s.clientNodes.insert
            (fun id => { id := id, info := info, status := .online,
                         authDigest := some serviceDigest, nodeUuid := some nodeUuid,
                         lastSeen := now })
            fun _ => rfl
          noColumn := fun hlegacy => by rw [h] at hlegacy; cases hlegacy }
  else none

/-- `UPDATE client_nodes SET status='offline'` where `p` holds. -/
def offlineWhere (s : Stored) (p : NodeRow → Bool) : Stored :=
  { s with
    clientNodes := s.clientNodes.updateWhere p (fun r => { r with status := .offline }) fun _ => rfl
    noColumn := fun h r hr => by
      obtain ⟨r₀, hr₀, rfl⟩ := Table.mem_updateWhere.mp hr
      have hnone := s.noColumn h r₀ hr₀
      split <;> exact hnone }

def setNodeOffline (s : Stored) (nodeUuid : String) : Stored :=
  s.offlineWhere fun r => r.nodeUuid == some nodeUuid

def markAllOffline (s : Stored) : Stored := s.offlineWhere fun _ => true

end Stored

/-- The operations that write. -/
inductive DatabaseOp
  | insertImage (name source sourceType : String)
  | insertBridge (name : String)
  | deleteBridge (bridgeId : RowId)
  | insertBridgePort (bridgeId : RowId) (containerPort : Int) (mode : String)
      (routePath protocols : Option String) (poolPort : Option Port)
  | deleteBridgePort (bridgeId : RowId) (containerPort : Int)
  | setBridgeEnvs (bridgeId : RowId) (envs : List (String × String)) (good : Nat)
  | insertConnection (name : String)
  | updateConnection (id : RowId) (bridgeId imageId nodeId : Database.Slot)
  | updateConnectionNode (id : RowId) (nodeId : Option RowId) (status : Status)
      (containerName : Option String)
  | deleteConnection (id : RowId)
  | upsertNode (nodeUuid serviceDigest : String) (info : NodeInfo) (now : Int)
  | setNodeOffline (nodeUuid : String)
  | markAllOffline

namespace DatabaseOp

/-- The operations that do not write to `client_nodes`, on the other tables. -/
def onTables (db : Database) : DatabaseOp → Option Database
  | .insertImage name source sourceType => some (db.insertImage name source sourceType)
  | .insertBridge name => db.insertBridge name
  | .deleteBridge bridgeId => some (db.deleteBridge bridgeId)
  | .insertBridgePort bridgeId containerPort mode routePath protocols poolPort =>
      db.insertBridgePort bridgeId containerPort mode routePath protocols poolPort
  | .deleteBridgePort bridgeId containerPort => some (db.deleteBridgePort bridgeId containerPort)
  | .setBridgeEnvs bridgeId envs good => some (db.setBridgeEnvs bridgeId envs good)
  | .insertConnection name => some (db.insertConnection name)
  | .updateConnection id bridgeId imageId nodeId => db.updateConnection id bridgeId imageId nodeId
  | .updateConnectionNode id nodeId status containerName =>
      db.updateConnectionNode id nodeId status containerName
  | .deleteConnection id => some (db.deleteConnection id)
  | .upsertNode .. | .setNodeOffline _ | .markAllOffline => none

/-- Nothing changes when the statement fails. -/
def apply (s : Stored) : DatabaseOp → Stored
  | .upsertNode nodeUuid serviceDigest info now =>
      (s.upsertNode nodeUuid serviceDigest info now).getD s
  | .setNodeOffline nodeUuid => s.setNodeOffline nodeUuid
  | .markAllOffline => s.markAllOffline
  | op => ((op.onTables s.database).map s.withTables).getD s

end DatabaseOp

namespace Stored

def run (s : Stored) (ops : List DatabaseOp) : Stored := ops.foldl DatabaseOp.apply s

/-! ## What migration leaves -/

def Complete (s : Stored) : Prop := ∀ r ∈ s.clientNodes.rows, r.nodeUuid.isSome

/-- An index keeps this; without one only a migration that was cut short has written
uuids. -/
def Distinct (s : Stored) : Prop :=
  ∀ r ∈ s.clientNodes.rows, ∀ r' ∈ s.clientNodes.rows, ∀ u,
    r.nodeUuid = some u → r'.nodeUuid = some u → r = r'

/-- The generated uuids are new. -/
structure FreshUuids (uuids : Nat → String) (s : Stored) : Prop where
  injective : Function.Injective uuids
  unused : ∀ i, ∀ r ∈ s.clientNodes.rows, r.nodeUuid ≠ some (uuids i)

/-- The rows that a migration must keep. -/
def Known (r : NodeRow) : Prop := r.authDigest.isSome ∨ r.nodeUuid.isSome

structure Migrates (s t : Stored) : Prop where
  complete : t.Complete
  distinct : t.Distinct
  /-- Rows that are known stay and at most get a uuid. -/
  kept : ∀ r ∈ s.clientNodes.rows, Known r → ∃ r' ∈ t.clientNodes.rows,
    r' = { r with nodeUuid := r'.nodeUuid } ∧ ∀ u, r.nodeUuid = some u → r'.nodeUuid = some u
  pointing : ∀ r ∈ s.clientNodes.rows, Known r → ∀ c ∈ s.connections.rows,
    c.nodeId = some r.id → c ∈ t.connections.rows
  detached : ∀ r ∈ s.clientNodes.rows, (∀ r' ∈ t.clientNodes.rows, r'.id ≠ r.id) →
    ∀ c ∈ s.connections.rows, c.nodeId = some r.id →
      { c with nodeId := none, status := .pending } ∈ t.connections.rows

/-! ## The backfill -/

/-- The rows with the uuids that `name` has for them. -/
def named (name : RowId → Option String) (rows : List NodeRow) : List NodeRow :=
  rows.map fun r => { r with nodeUuid := (name r.id).or r.nodeUuid }

theorem mem_named {name : RowId → Option String} {rows : List NodeRow} {r : NodeRow} :
    r ∈ named name rows ↔ ∃ r₀ ∈ rows, r = { r₀ with nodeUuid := (name r₀.id).or r₀.nodeUuid } := by
  simp only [named, List.mem_map, eq_comm]

variable {s t : Stored} {uuids : Nat → String}

theorem setNodeUuid_spec (hschema : s.schema ≠ .legacy) (hdistinct : s.Distinct)
    (hfresh : FreshUuids uuids s) (id : RowId) :
    ∃ t, s.setNodeUuid id (uuids 0) = some t ∧ t.schema = s.schema ∧
      t.connections = s.connections ∧ t.Distinct ∧ FreshUuids (fun i => uuids (i + 1)) t ∧
      t.clientNodes.rows =
        named (fun k => if k = id then some (uuids 0) else none) s.clientNodes.rows := by
  have htaken : (s.clientNodes.rows.any fun r => r.nodeUuid == some (uuids 0) && r.id != id) =
      false := by
    rw [List.any_eq_false]
    intro r hr htrue
    rw [Bool.and_eq_true, beq_iff_eq] at htrue
    exact hfresh.unused 0 r hr htrue.1
  have hrows : ∀ r ∈ s.clientNodes.rows.map
      (fun r => if r.id == id then { r with nodeUuid := some (uuids 0) } else r),
      r.id = id ∧ r.nodeUuid = some (uuids 0) ∨ r ∈ s.clientNodes.rows := by
    intro r hr
    obtain ⟨r₀, hr₀, rfl⟩ := List.mem_map.mp hr
    by_cases hid : r₀.id = id
    · rw [if_pos (beq_iff_eq.mpr hid)]
      exact .inl ⟨hid, rfl⟩
    · rw [if_neg (by rwa [beq_iff_eq])]
      exact .inr hr₀
  refine ⟨_, dif_neg ?_, rfl, rfl, ?_, ⟨?_, ?_⟩, ?_⟩
  · rw [htaken, Bool.and_false]
    exact fun h => h.elim hschema Bool.false_ne_true
  · intro r hr r' hr' u hu hu'
    rcases hrows r hr with ⟨hid, huuid⟩ | hold <;> rcases hrows r' hr' with ⟨hid', huuid'⟩ | hold'
    · exact Table.eq_of_key hr hr' (hid.trans hid'.symm)
    · exact absurd (hu'.trans (hu.symm.trans huuid)) (hfresh.unused 0 r' hold')
    · exact absurd (hu.trans (hu'.symm.trans huuid')) (hfresh.unused 0 r hold)
    · exact hdistinct r hold r' hold' u hu hu'
  · exact fun i j hij => Nat.succ_injective (hfresh.injective hij)
  · intro i r hr hu
    rcases hrows r hr with ⟨-, huuid⟩ | hold
    · exact absurd (hfresh.injective (Option.some.inj (huuid.symm.trans hu))) (by omega)
    · exact hfresh.unused (i + 1) r hold hu
  · refine List.map_congr_left fun r _ => ?_
    by_cases hid : r.id = id
    · rw [if_pos (beq_iff_eq.mpr hid)]
      simp [hid]
    · rw [if_neg (by rwa [beq_iff_eq])]
      simp [hid]

/-- Every row that is asked for gets a uuid, and nothing else changes. -/
theorem backfill_spec (ids : List RowId) (hschema : s.schema ≠ .legacy) (hdistinct : s.Distinct)
    (hfresh : FreshUuids uuids s) :
    ∃ t name, backfill uuids ids s = some t ∧ t.schema = s.schema ∧
      t.connections = s.connections ∧ t.Distinct ∧ (∀ id, (name id).isSome ↔ id ∈ ids) ∧
      t.clientNodes.rows = named name s.clientNodes.rows := by
  induction ids generalizing s uuids with
  | nil =>
      refine ⟨s, fun _ => none, rfl, rfl, rfl, hdistinct, fun id => ?_, ?_⟩
      · simp
      · exact (List.map_id _).symm
  | cons id ids ih =>
      obtain ⟨s₁, hset, hschema₁, hconnections₁, hdistinct₁, hfresh₁, hrows₁⟩ :=
        setNodeUuid_spec hschema hdistinct hfresh id
      obtain ⟨t, name, hfill, hschema', hconnections, hdistinct', hname, hrows⟩ :=
        ih (hschema₁ ▸ hschema) hdistinct₁ hfresh₁
      refine ⟨t, fun k => (name k).or (if k = id then some (uuids 0) else none), ?_,
        hschema'.trans hschema₁, hconnections.trans hconnections₁, hdistinct', fun k => ?_, ?_⟩
      · rw [backfill, hset]
        exact hfill
      · rw [Option.isSome_or, Bool.or_eq_true, hname, List.mem_cons]
        by_cases hk : k = id
        · simp [hk]
        · simp [hk]
      · rw [hrows, hrows₁, named, named, List.map_map, named]
        refine List.map_congr_left fun r _ => ?_
        rw [Function.comp_apply, Option.or_assoc]

/-! ## What stays and what goes -/

theorem ensureColumn_eq (s : Stored) : s.ensureColumn.schema ≠ .legacy ∧
    s.ensureColumn.clientNodes = s.clientNodes ∧ s.ensureColumn.connections = s.connections := by
  unfold ensureColumn
  by_cases h : s.schema = .legacy
  · rw [if_pos h]
    exact ⟨fun hplain => (by cases hplain), rfl, rfl⟩
  · rw [if_neg h]
    exact ⟨h, rfl, rfl⟩

theorem mem_legacyIds {r : NodeRow} (hr : r ∈ s.clientNodes.rows) :
    r.id ∈ s.legacyIds ↔ r.nodeUuid = none ∧ r.authDigest.isSome := by
  unfold legacyIds
  rw [List.mem_map]
  have hcond : (r.nodeUuid.isNone && r.authDigest.isSome) = true ↔
      r.nodeUuid = none ∧ r.authDigest.isSome := by
    rw [Bool.and_eq_true, Option.isNone_iff_eq_none]
  constructor
  · rintro ⟨r₀, hr₀, hid⟩
    obtain ⟨hmem, htrue⟩ := List.mem_filter.mp hr₀
    rw [Table.eq_of_key hmem hr hid] at htrue
    exact hcond.mp htrue
  · intro h
    exact ⟨r, List.mem_filter.mpr ⟨hr, hcond.mpr h⟩, rfl⟩

theorem nameless_eq {r : NodeRow} (hr : r ∈ s.clientNodes.rows) :
    s.nameless r.id = r.nodeUuid.isNone := by
  rw [nameless, Table.find?_eq_some.mpr ⟨hr, rfl⟩]
  rfl

theorem mem_detached {r : NodeRow} (hr : r ∈ s.clientNodes.rows) (huuid : r.nodeUuid = none)
    {c : Connection} (hc : c ∈ s.connections.rows) (hnode : c.nodeId = some r.id) :
    { c with nodeId := none, status := .pending } ∈ s.detach.deleteNameless.connections.rows := by
  have hpoints : (c.nodeId.any s.nameless) = true := by
    rw [hnode, Option.any_some, nameless_eq hr, huuid]
    rfl
  have hdetached : { c with nodeId := none, status := .pending } ∈ s.detach.connections.rows :=
    List.mem_map.mpr ⟨c, hc, if_pos hpoints⟩
  exact List.mem_map.mpr ⟨_, hdetached, if_neg Bool.false_ne_true⟩

theorem mem_pointing {r : NodeRow} (hr : r ∈ s.clientNodes.rows) (huuid : r.nodeUuid.isSome)
    {c : Connection} (hc : c ∈ s.connections.rows) (hnode : c.nodeId = some r.id) :
    c ∈ s.detach.deleteNameless.connections.rows := by
  have hpoints : (c.nodeId.any s.nameless) = false := by
    rw [hnode, Option.any_some, nameless_eq hr, Option.isNone_eq_false_iff]
    exact huuid
  have hkept : c ∈ s.detach.connections.rows :=
    List.mem_map.mpr ⟨c, hc, if_neg (Bool.eq_false_iff.mp hpoints)⟩
  exact List.mem_map.mpr ⟨c, hkept, if_neg (Bool.eq_false_iff.mp hpoints)⟩

/-- A row after the backfill: a uuid it had is there, and it has one if it is known. -/
theorem backfilled_uuid {name : RowId → Option String} {r : NodeRow}
    (hname : ∀ id, (name id).isSome ↔ id ∈ s.legacyIds) (hr : r ∈ s.clientNodes.rows) :
    (((name r.id).or r.nodeUuid).isSome ↔ Known r) ∧
      ∀ u, r.nodeUuid = some u → (name r.id).or r.nodeUuid = some u := by
  constructor
  · rw [Option.isSome_or, Bool.or_eq_true, hname, mem_legacyIds hr, Known]
    cases r.nodeUuid <;> simp
  · intro u hu
    have hnot : name r.id = none := by
      rw [← Option.not_isSome_iff_eq_none, hname, mem_legacyIds hr, hu]
      exact fun h => nomatch h.1
    rw [hnot, Option.none_or, hu]

theorem migrate_migrates (hdistinct : s.Distinct) (hfresh : FreshUuids uuids s) :
    ∃ t, s.migrate uuids = some t ∧ t.schema ≠ .legacy ∧ Migrates s t := by
  obtain ⟨hschema, hnodes, hconnections⟩ := s.ensureColumn_eq
  have hrows : s.ensureColumn.clientNodes.rows = s.clientNodes.rows := by rw [hnodes]
  have hids : s.ensureColumn.legacyIds = s.legacyIds := by rw [legacyIds, hrows, legacyIds]
  have hfresh' : FreshUuids uuids s.ensureColumn := ⟨hfresh.injective, by
    rw [hrows]
    exact hfresh.unused⟩
  have hdistinct' : s.ensureColumn.Distinct := by
    unfold Distinct
    rw [hrows]
    exact hdistinct
  obtain ⟨u, name, hfill, hschema', hconnections', hdistinct', hname, hnamed⟩ :=
    backfill_spec s.legacyIds hschema hdistinct' hfresh'
  rw [hrows] at hnamed
  have hu : ∀ r ∈ s.clientNodes.rows,
      { r with nodeUuid := (name r.id).or r.nodeUuid } ∈ u.clientNodes.rows := by
    intro r hr
    rw [hnamed]
    exact mem_named.mpr ⟨r, hr, rfl⟩
  have hc : u.connections = s.connections := hconnections'.trans hconnections
  refine ⟨u.detach.deleteNameless, ?_, hschema' ▸ hschema, ?_, ?_, ?_, ?_, ?_⟩
  · unfold migrate
    dsimp only
    rw [hids, hfill]
    rfl
  · intro r hr
    exact Option.isNone_eq_false_iff.mp (Table.mem_deleteWhere.mp hr).2
  · intro r hr r' hr'
    exact hdistinct' r (Table.mem_deleteWhere.mp hr).1 r' (Table.mem_deleteWhere.mp hr').1
  · intro r hr hknown
    obtain ⟨hsome, hsame⟩ := backfilled_uuid hname hr
    refine ⟨_, Table.mem_deleteWhere.mpr ⟨hu r hr, ?_⟩, rfl, hsame⟩
    exact Option.isNone_eq_false_iff.mpr (hsome.mpr hknown)
  · intro r hr hknown c hmem hnode
    exact mem_pointing (hu r hr) ((backfilled_uuid hname hr).1.mpr hknown) (hc ▸ hmem) hnode
  · intro r hr hgone c hmem hnode
    by_cases hknown : Known r
    · have hsome := (backfilled_uuid hname hr).1.mpr hknown
      refine absurd rfl (hgone { r with nodeUuid := (name r.id).or r.nodeUuid } ?_)
      exact Table.mem_deleteWhere.mpr ⟨hu r hr, Option.isNone_eq_false_iff.mpr hsome⟩
    · have hnone := mt (backfilled_uuid hname hr).1.mp hknown
      exact mem_detached (hu r hr) (Option.not_isSome_iff_eq_none.mp hnone) (hc ▸ hmem) hnode

/-! ## Migrating again -/

/-- No connection points at a row without a uuid. -/
theorem points_of_complete (h : s.Complete) (c : Connection) : c.nodeId.any s.nameless = false := by
  cases c.nodeId with
  | none => rfl
  | some id =>
      rw [Option.any_some, nameless]
      cases hfind : s.clientNodes.find? id with
      | none => rfl
      | some r => exact Option.isNone_eq_false_iff.mpr (h r (Table.find?_eq_some.mp hfind).1)

theorem detach_of_complete (h : s.Complete) : s.detach = s := by
  unfold detach
  rw [Table.updateWhere_eq_self fun c _ => points_of_complete h c]

theorem deleteNameless_of_complete (h : s.Complete) : s.deleteNameless = s := by
  have hnodes : (s.clientNodes.deleteWhere fun r => r.nodeUuid.isNone) = s.clientNodes :=
    Table.deleteWhere_eq_self fun r hr => Option.isNone_eq_false_iff.mpr (h r hr)
  have hconnections : s.connections.updateWhere (fun c => c.nodeId.any s.nameless)
      (fun c => { c with nodeId := none }) (fun _ => rfl) = s.connections :=
    Table.updateWhere_eq_self fun c _ => points_of_complete h c
  unfold deleteNameless
  simp only [hnodes, hconnections]

/-- No statement of a migration changes a migrated file. -/
theorem migrate_of_complete (hschema : s.schema ≠ .legacy) (h : s.Complete) :
    s.migrate uuids = some s := by
  have hids : s.legacyIds = [] := by
    rw [legacyIds, List.map_eq_nil_iff, List.filter_eq_nil_iff]
    intro r hr htrue
    rw [Bool.and_eq_true, Option.isNone_iff_eq_none] at htrue
    have hsome := h r hr
    rw [htrue.1] at hsome
    cases hsome
  unfold migrate ensureColumn
  rw [if_neg hschema]
  dsimp only
  rw [hids, backfill, Option.map_some, detach_of_complete h, deleteNameless_of_complete h]

theorem offlineWhere_complete {p : NodeRow → Bool} (h : s.Complete) :
    (s.offlineWhere p).Complete := by
  intro r hr
  obtain ⟨r₀, hr₀, rfl⟩ := List.mem_map.mp hr
  split <;> exact h r₀ hr₀

theorem upsertNode_complete {nodeUuid serviceDigest : String} {info : NodeInfo} {now : Int}
    (hupsert : s.upsertNode nodeUuid serviceDigest info now = some t) (h : s.Complete) :
    t.Complete := by
  unfold upsertNode at hupsert
  split at hupsert
  · split at hupsert
    · obtain rfl := Option.some.inj hupsert
      intro r hr
      obtain ⟨r₀, hr₀, rfl⟩ := List.mem_map.mp hr
      split <;> exact h r₀ hr₀
    · obtain rfl := Option.some.inj hupsert
      intro r hr
      rcases List.mem_append.mp hr with hr | hr
      · exact h r hr
      · obtain rfl := List.mem_singleton.mp hr
        rfl
  · cases hupsert

theorem upsertNode_schema {nodeUuid serviceDigest : String} {info : NodeInfo} {now : Int}
    (hupsert : s.upsertNode nodeUuid serviceDigest info now = some t) : t.schema = s.schema := by
  unfold upsertNode at hupsert
  split at hupsert
  · split at hupsert <;> obtain rfl := Option.some.inj hupsert <;> rfl
  · cases hupsert

/-- What no operation takes back. -/
def Opened (s : Stored) : Prop := s.schema ≠ .legacy ∧ s.Complete

theorem withTables_opened {db? : Option Database} (h : s.Opened) :
    ((db?.map s.withTables).getD s).Opened := by
  cases db? with
  | none => exact h
  | some db => exact h

theorem apply_opened (h : s.Opened) (op : DatabaseOp) : (op.apply s).Opened := by
  cases op with
  | upsertNode nodeUuid serviceDigest info now =>
      show ((s.upsertNode nodeUuid serviceDigest info now).getD s).Opened
      cases hupsert : s.upsertNode nodeUuid serviceDigest info now with
      | none => exact h
      | some t => exact ⟨upsertNode_schema hupsert ▸ h.1, upsertNode_complete hupsert h.2⟩
  | setNodeOffline nodeUuid => exact ⟨h.1, offlineWhere_complete h.2⟩
  | markAllOffline => exact ⟨h.1, offlineWhere_complete h.2⟩
  | _ => exact withTables_opened h

theorem run_opened (h : s.Opened) (ops : List DatabaseOp) : (s.run ops).Opened := by
  induction ops generalizing s with
  | nil => exact h
  | cons op ops ih => exact ih (apply_opened h op)

/-- Migration keeps identities, and migrating again changes nothing, whatever the
operations have done in between. -/
theorem migrate_keeps (hdistinct : s.Distinct) (hfresh : FreshUuids uuids s) :
    ∃ t, s.migrate uuids = some t ∧ Migrates s t ∧
      ∀ ops uuids', (t.run ops).migrate uuids' = some (t.run ops) := by
  obtain ⟨t, hmigrate, hschema, ht⟩ := migrate_migrates hdistinct hfresh
  refine ⟨t, hmigrate, ht, fun ops uuids' => ?_⟩
  obtain ⟨hschema', hcomplete⟩ := run_opened ⟨hschema, ht.complete⟩ ops
  exact migrate_of_complete hschema' hcomplete

end Stored

/-! ## The database of a migrated file -/

namespace DatabaseOp

/-- The operations on the database as it is modelled after its migration. -/
def write (db : Database) : DatabaseOp → Database
  | .upsertNode nodeUuid serviceDigest info _ =>
      db.upsertNode nodeUuid serviceDigest info.hostname info.portRangeStart info.portRangeEnd
  | .setNodeOffline nodeUuid => db.setNodeOffline nodeUuid
  | .markAllOffline => db.markAllOffline
  | op => (op.onTables db).getD db

theorem onTables_clientNodes {db db' : Database} {op : DatabaseOp}
    (h : op.onTables db = some db') : db'.clientNodes = db.clientNodes := by
  cases op with
  | insertBridge name => rw [Database.insertBridge_eq h]
  | insertBridgePort => rw [Database.insertBridgePort_eq h]
  | setBridgeEnvs bridgeId envs good =>
      obtain ⟨bridgeEnvs, hdb⟩ := Database.setBridgeEnvs_eq db bridgeId envs good
      rw [← Option.some.inj h, hdb]
  | updateConnection => rw [Database.updateConnection_eq h]
  | updateConnectionNode => rw [Database.updateConnectionNode_eq h]
  | upsertNode | setNodeOffline | markAllOffline => cases h
  | _ =>
      rw [← Option.some.inj h]
      rfl

end DatabaseOp

namespace Stored

variable {s t : Stored} {uuids : Nat → String}

theorem node_uuid_beq {r : NodeRow} (h : r.nodeUuid.isSome) (nodeUuid : String) :
    (r.node.nodeUuid == nodeUuid) = (r.nodeUuid == some nodeUuid) := by
  obtain ⟨u, hu⟩ := Option.isSome_iff_exists.mp h
  rw [NodeRow.node, hu]
  rfl

theorem getNodeByUuid_database (h : s.Complete) (nodeUuid : String) :
    s.database.getNodeByUuid nodeUuid = (s.nodeRow? nodeUuid).map NodeRow.node := by
  show (s.clientNodes.rows.map NodeRow.node).find? _ = _
  rw [List.find?_map, nodeRow?]
  refine congrArg (Option.map NodeRow.node) (List.find?_congr fun r hr => ?_)
  exact node_uuid_beq (h r hr) nodeUuid

theorem database_with {nodes nodes' : Table ClientNode ClientNode.id} (h : nodes = nodes') :
    { s.database with clientNodes := nodes } = { s.database with clientNodes := nodes' } := by
  rw [h]

theorem upsertNode_database {nodeUuid serviceDigest : String} {info : NodeInfo} {now : Int}
    (h : s.Complete) (hupsert : s.upsertNode nodeUuid serviceDigest info now = some t) :
    t.database = s.database.upsertNode nodeUuid serviceDigest info.hostname info.portRangeStart
      info.portRangeEnd := by
  unfold upsertNode at hupsert
  unfold Database.upsertNode
  rw [getNodeByUuid_database h]
  split at hupsert
  · cases hrow : s.nodeRow? nodeUuid with
    | some r =>
        rw [hrow] at hupsert
        obtain rfl := Option.some.inj hupsert
        apply database_with
        apply Table.map_updateWhere
        · exact fun _ => rfl
        · exact fun r hr => node_uuid_beq (h r hr) nodeUuid
        · exact fun _ => rfl
    | none =>
        rw [hrow] at hupsert
        obtain rfl := Option.some.inj hupsert
        apply database_with
        apply Table.map_insert
        · exact fun _ => rfl
        · exact fun _ => rfl
  · cases hupsert

theorem upsertNode_of_unique (h : s.schema = .unique) (nodeUuid serviceDigest : String)
    (info : NodeInfo) (now : Int) : ∃ t, s.upsertNode nodeUuid serviceDigest info now = some t := by
  unfold upsertNode
  rw [dif_pos h]
  cases s.nodeRow? nodeUuid with
  | none => exact ⟨_, rfl⟩
  | some r => exact ⟨_, rfl⟩

theorem withTables_database {db : Database} (h : db.clientNodes = s.database.clientNodes) :
    (s.withTables db).database = db := by
  cases db
  cases h
  rfl

theorem tables_database {op : DatabaseOp} :
    (((op.onTables s.database).map s.withTables).getD s).database =
      (op.onTables s.database).getD s.database := by
  cases htables : op.onTables s.database with
  | none => rfl
  | some db => exact withTables_database (DatabaseOp.onTables_clientNodes htables)

/-- With the unique column the operations are those of the modelled database. -/
theorem apply_database (hunique : s.schema = .unique) (h : s.Complete) (op : DatabaseOp) :
    (op.apply s).database = op.write s.database := by
  cases op with
  | upsertNode nodeUuid serviceDigest info now =>
      obtain ⟨t, hupsert⟩ := upsertNode_of_unique hunique nodeUuid serviceDigest info now
      show ((s.upsertNode nodeUuid serviceDigest info now).getD s).database = _
      rw [hupsert]
      exact upsertNode_database h hupsert
  | setNodeOffline nodeUuid =>
      apply database_with
      apply Table.map_updateWhere
      · exact fun _ => rfl
      · exact fun r hr => node_uuid_beq (h r hr) nodeUuid
      · exact fun _ => rfl
  | markAllOffline =>
      apply database_with
      apply Table.map_updateWhere
      · exact fun _ => rfl
      · exact fun _ _ => rfl
      · exact fun _ => rfl
  | _ => exact tables_database

/-! ## An old file -/

theorem distinct_of_legacy (h : s.schema = .legacy) : s.Distinct := by
  intro r hr _ _ u hu _
  exact absurd (hu.symm.trans (s.noColumn h r hr)) (Option.some_ne_none u)

theorem freshUuids_of_legacy (hinjective : Function.Injective uuids) (h : s.schema = .legacy) :
    FreshUuids uuids s :=
  ⟨hinjective, fun i r hr hu =>
    absurd (hu.symm.trans (s.noColumn h r hr)) (Option.some_ne_none (uuids i))⟩

/-- An old file: one machine that the server knows by its digest, one that it does not,
and a connection on each. -/
def oldFile : Stored where
  images := .empty
  bridges := .empty
  bridgePorts := .empty
  bridgeEnvs := .empty
  connections :=
    { rows := [⟨1, "site", none, none, some 1, .deployed, some "site-1"⟩,
               ⟨2, "blog", none, none, some 2, .deployed, some "blog-2"⟩]
      seq := 2, nodup := by decide, bounded := by decide }
  clientNodes :=
    { rows := [⟨1, ⟨"alpha", "linux", "x86_64", "27", 3000, 3999, 4, 8192⟩, .offline,
                some "9f86d081", none, 0⟩,
               ⟨2, ⟨"beta", "linux", "x86_64", "27", 3000, 3999, 4, 8192⟩, .offline,
                none, none, 0⟩]
      seq := 2, nodup := by decide, bounded := by decide }
  schema := .legacy
  noColumn := by decide

/-- Some uuids. -/
def sampleUuid (i : Nat) : String := String.ofList (List.replicate (i + 1) 'f')

theorem sampleUuid_injective : Function.Injective sampleUuid := by
  intro i j hij
  have hlength := congrArg List.length (String.ofList_injective hij)
  rw [List.length_replicate, List.length_replicate] at hlength
  exact Nat.succ_injective hlength

theorem migrate_keeps_oldFile :
    ∃ t, oldFile.migrate sampleUuid = some t ∧ Migrates oldFile t ∧
      ∀ ops uuids', (t.run ops).migrate uuids' = some (t.run ops) :=
  migrate_keeps (distinct_of_legacy rfl) (freshUuids_of_legacy sampleUuid_injective rfl)

end Stored

end Kdct
