/-
The SQLite database (`crates/kdcts/src/db.rs`), after migration.

A statement runs under the lock of its connection, so it is one step.  Whether a
statement fails for a reason outside the data (disk, lock, corruption) is decided
where it is called; here a write returns `none` when a constraint of the schema
rejects it.  Columns that no modelled function reads are left out.
-/
import Kdct.Lib.Table
import Kdct.PortPool
import Mathlib.Data.List.Sort

namespace Kdct

abbrev RowId := Nat

/-- `connections.status`. -/
inductive Status
  | pending
  | deployed
  deriving DecidableEq

/-- `client_nodes.status`. -/
inductive NodeState
  | online
  | offline
  deriving DecidableEq

structure ImageNode where
  id : RowId
  name : String
  source : String
  sourceType : String
  deriving DecidableEq

structure Bridge where
  id : RowId
  name : String
  deriving DecidableEq

structure BridgePort where
  id : RowId
  bridgeId : RowId
  containerPort : Int
  mode : String
  routePath : Option String
  protocols : Option String
  poolPort : Option Port
  deriving DecidableEq

structure BridgeEnv where
  id : RowId
  bridgeId : RowId
  key : String
  value : String
  deriving DecidableEq

structure Connection where
  id : RowId
  name : String
  bridgeId : Option RowId
  imageId : Option RowId
  nodeId : Option RowId
  status : Status
  containerName : Option String
  deriving DecidableEq

structure ClientNode where
  id : RowId
  hostname : String
  portRangeStart : Port
  portRangeEnd : Port
  status : NodeState
  authDigest : Option String
  nodeUuid : String
  deriving DecidableEq

structure Database where
  images : Table ImageNode ImageNode.id
  bridges : Table Bridge Bridge.id
  bridgePorts : Table BridgePort BridgePort.id
  bridgeEnvs : Table BridgeEnv BridgeEnv.id
  connections : Table Connection Connection.id
  clientNodes : Table ClientNode ClientNode.id

/-- What `get_connection` returns: the row and what it joins. -/
structure ConnectionInfo where
  row : Connection
  bridgeName : Option String
  imageName : Option String
  nodeHostname : Option String
  nodeStatus : Option NodeState
  deriving DecidableEq

namespace Database

def empty : Database where
  images := .empty
  bridges := .empty
  bridgePorts := .empty
  bridgeEnvs := .empty
  connections := .empty
  clientNodes := .empty

/-! ### Images -/

/-- `INSERT OR REPLACE`: the row of the same name is deleted first, and the
connections that pointed at it lose their image. -/
def insertImage (db : Database) (name source sourceType : String) : Database :=
  let old := fun i => (db.images.find? i).any fun r => r.name == name
  { db with
    connections := db.connections.updateWhere (fun c => c.imageId.any old)
      (fun c => { c with imageId := none }) fun _ => rfl
    images := (db.images.deleteWhere fun r => r.name == name).insert
      (fun id => { id := id, name := name, source := source, sourceType := sourceType })
      fun _ => rfl }

def getImageByName (db : Database) (name : String) : Option ImageNode :=
  db.images.rows.find? fun r => r.name == name

/-! ### Bridges -/

def insertBridge (db : Database) (name : String) : Option Database :=
  if db.bridges.rows.any fun r => r.name == name then none
  else some { db with
    bridges := db.bridges.insert (fun id => { id := id, name := name }) fun _ => rfl }

theorem insertBridge_eq {db db' : Database} {name : String} (h : db.insertBridge name = some db') :
    db' = { db with bridges := db'.bridges } := by
  unfold insertBridge at h
  split at h
  · cases h
  · obtain rfl := Option.some.inj h
    rfl

/-- Ports and environment go with the bridge, and connections lose it. -/
def deleteBridge (db : Database) (bridgeId : RowId) : Database :=
  { db with
    bridges := db.bridges.deleteWhere fun r => r.id == bridgeId
    bridgePorts := db.bridgePorts.deleteWhere fun r => r.bridgeId == bridgeId
    bridgeEnvs := db.bridgeEnvs.deleteWhere fun r => r.bridgeId == bridgeId
    connections := db.connections.updateWhere (fun c => c.bridgeId == some bridgeId)
      (fun c => { c with bridgeId := none }) fun _ => rfl }

def insertBridgePort (db : Database) (bridgeId : RowId) (containerPort : Int) (mode : String)
    (routePath protocols : Option String) (poolPort : Option Port) : Option Database :=
  if (db.bridges.find? bridgeId).isNone then none
  else if db.bridgePorts.rows.any fun r =>
      r.bridgeId == bridgeId && r.containerPort == containerPort
    then none
  else some { db with
    bridgePorts := db.bridgePorts.insert
      (fun id => { id := id, bridgeId := bridgeId, containerPort := containerPort, mode := mode,
                   routePath := routePath, protocols := protocols, poolPort := poolPort })
      fun _ => rfl }

/-- In the order of the container ports. -/
def getBridgePorts (db : Database) (bridgeId : RowId) : List BridgePort :=
  (db.bridgePorts.rows.filter fun r => r.bridgeId == bridgeId).insertionSort
    fun r r' => r.containerPort ≤ r'.containerPort

def deleteBridgePort (db : Database) (bridgeId : RowId) (containerPort : Int) : Database :=
  { db with
    bridgePorts := db.bridgePorts.deleteWhere fun r =>
      r.bridgeId == bridgeId && r.containerPort == containerPort }

def getBridgePortPoolPort (db : Database) (bridgeId : RowId) (containerPort : Int) : Option Port :=
  (db.bridgePorts.rows.find? fun r =>
    r.bridgeId == bridgeId && r.containerPort == containerPort).bind BridgePort.poolPort

def getBridgePoolPorts (db : Database) (bridgeId : RowId) : List Port :=
  (db.bridgePorts.rows.filter fun r => r.bridgeId == bridgeId).filterMap BridgePort.poolPort

/-- In the order of the keys. -/
def getBridgeEnvs (db : Database) (bridgeId : RowId) : List (String × String) :=
  ((db.bridgeEnvs.rows.filter fun r => r.bridgeId == bridgeId).insertionSort
    fun r r' => r.key ≤ r'.key).map fun r => (r.key, r.value)

def insertBridgeEnv (db : Database) (bridgeId : RowId) (key value : String) : Option Database :=
  if (db.bridges.find? bridgeId).isNone then none
  else if db.bridgeEnvs.rows.any fun r => r.bridgeId == bridgeId && r.key == key then none
  else some { db with
    bridgeEnvs := db.bridgeEnvs.insert
      (fun id => { id := id, bridgeId := bridgeId, key := key, value := value }) fun _ => rfl }

/-- Whether every pair is inserted, and what is there afterwards. -/
def insertBridgeEnvs (db : Database) (bridgeId : RowId) :
    List (String × String) → Nat → Bool × Database
  | [], _ => (true, db)
  | _ :: _, 0 => (false, db)
  | (key, value) :: rest, good + 1 =>
      match db.insertBridgeEnv bridgeId key value with
      | some db => db.insertBridgeEnvs bridgeId rest good
      | none => (false, db)

/-- The old environment is deleted and the new one inserted pair by pair, under one
lock but in no transaction.  `good` statements run before one fails. -/
def setBridgeEnvs (db : Database) (bridgeId : RowId) (envs : List (String × String)) :
    Nat → Database
  | 0 => db
  | good + 1 =>
      ({ db with bridgeEnvs := db.bridgeEnvs.deleteWhere fun r => r.bridgeId == bridgeId }
        |>.insertBridgeEnvs bridgeId envs good).2

theorem insertBridgePort_eq {db db' : Database} {bridgeId : RowId} {containerPort : Int}
    {mode : String} {routePath protocols : Option String} {poolPort : Option Port}
    (h : db.insertBridgePort bridgeId containerPort mode routePath protocols poolPort = some db') :
    db' = { db with
      bridgePorts := db.bridgePorts.insert
        (fun id => { id := id, bridgeId := bridgeId, containerPort := containerPort, mode := mode,
                     routePath := routePath, protocols := protocols, poolPort := poolPort })
        fun _ => rfl } := by
  unfold insertBridgePort at h
  repeat' split at h
  · cases h
  · cases h
  · exact (Option.some.inj h).symm

theorem insertBridgeEnvs_eq (db : Database) (bridgeId : RowId) (envs : List (String × String))
    (good : Nat) : ∃ bridgeEnvs,
      (db.insertBridgeEnvs bridgeId envs good).2 = { db with bridgeEnvs := bridgeEnvs } := by
  induction envs generalizing db good with
  | nil => exact ⟨db.bridgeEnvs, by cases good <;> rfl⟩
  | cons pair rest ih =>
      cases good with
      | zero => exact ⟨db.bridgeEnvs, rfl⟩
      | succ good =>
          simp only [insertBridgeEnvs]
          split
          · rename_i db' hdb
            obtain ⟨bridgeEnvs, h⟩ := ih db' good
            have hdb' : db' = { db with bridgeEnvs := db'.bridgeEnvs } := by
              unfold insertBridgeEnv at hdb
              repeat' split at hdb
              · cases hdb
              · cases hdb
              · obtain rfl := Option.some.inj hdb
                rfl
            rw [h, hdb']
            exact ⟨bridgeEnvs, rfl⟩
          · exact ⟨db.bridgeEnvs, rfl⟩

theorem setBridgeEnvs_eq (db : Database) (bridgeId : RowId) (envs : List (String × String))
    (good : Nat) : ∃ bridgeEnvs,
      db.setBridgeEnvs bridgeId envs good = { db with bridgeEnvs := bridgeEnvs } := by
  cases good with
  | zero => exact ⟨db.bridgeEnvs, rfl⟩
  | succ good =>
      obtain ⟨bridgeEnvs, h⟩ := insertBridgeEnvs_eq
        { db with bridgeEnvs := db.bridgeEnvs.deleteWhere fun r => r.bridgeId == bridgeId } bridgeId
        envs good
      exact ⟨bridgeEnvs, h⟩

/-! ### Connections -/

def insertConnection (db : Database) (name : String) : Database :=
  { db with
    connections := db.connections.insert
      (fun id => { id := id, name := name, bridgeId := none, imageId := none, nodeId := none,
                   status := .pending, containerName := none })
      fun _ => rfl }

/-- A slot of `update_connection`: left alone, cleared or set. -/
abbrev Slot := Option (Option RowId)

def updateConnection (db : Database) (id : RowId) (bridgeId imageId nodeId : Slot) :
    Option Database :=
  match db.connections.find? id with
  | none => some db
  | some c =>
      let bridge := bridgeId.getD c.bridgeId
      let image := imageId.getD c.imageId
      let node := nodeId.getD c.nodeId
      if bridge.all (fun b => (db.bridges.find? b).isSome) &&
          image.all (fun i => (db.images.find? i).isSome) &&
          node.all (fun n => (db.clientNodes.find? n).isSome) then
        some { db with
          connections := db.connections.updateWhere (fun c => c.id == id)
            (fun c => { c with bridgeId := bridge, imageId := image, nodeId := node })
            fun _ => rfl }
      else none

def updateConnectionNode (db : Database) (id : RowId) (nodeId : Option RowId) (status : Status)
    (containerName : Option String) : Option Database :=
  if (db.connections.find? id).isNone || nodeId.all fun n => (db.clientNodes.find? n).isSome then
    some { db with
      connections := db.connections.updateWhere (fun c => c.id == id)
        (fun c => { c with nodeId := nodeId, status := status, containerName := containerName })
        fun _ => rfl }
  else none

def getConnection (db : Database) (id : RowId) : Option ConnectionInfo :=
  (db.connections.find? id).map fun c =>
    { row := c
      bridgeName := (c.bridgeId.bind db.bridges.find?).map Bridge.name
      imageName := (c.imageId.bind db.images.find?).map ImageNode.name
      nodeHostname := (c.nodeId.bind db.clientNodes.find?).map ClientNode.hostname
      nodeStatus := (c.nodeId.bind db.clientNodes.find?).map ClientNode.status }

def deleteConnection (db : Database) (id : RowId) : Database :=
  { db with connections := db.connections.deleteWhere fun c => c.id == id }

/-- The connections that are ready to deploy. -/
def getConnectableConnections (db : Database) : List RowId :=
  (db.connections.rows.filter fun c =>
    c.bridgeId.isSome && c.imageId.isSome && c.status == .pending &&
      (c.nodeId.bind db.clientNodes.find?).any fun n => n.status == .online).map Connection.id

def getConnectionIdsForNode (db : Database) (nodeId : RowId) : List RowId :=
  (db.connections.rows.filter fun c => c.nodeId == some nodeId && c.status == .deployed).map
    Connection.id

theorem updateConnectionNode_eq {db db' : Database} {id : RowId} {nodeId : Option RowId}
    {status : Status} {containerName : Option String}
    (h : db.updateConnectionNode id nodeId status containerName = some db') :
    db' = { db with
      connections := db.connections.updateWhere (fun c => c.id == id)
        (fun c => { c with nodeId := nodeId, status := status, containerName := containerName })
        fun _ => rfl } := by
  unfold updateConnectionNode at h
  split at h
  · exact (Option.some.inj h).symm
  · cases h

theorem mem_updateConnectionNode {db db' : Database} {id : RowId} {nodeId : Option RowId}
    {status : Status} {containerName : Option String}
    (h : db.updateConnectionNode id nodeId status containerName = some db') {c : Connection}
    (hc : c ∈ db'.connections.rows) :
    (c.id ≠ id ∧ c ∈ db.connections.rows) ∨
      (c.id = id ∧ c.nodeId = nodeId ∧ c.status = status ∧
        ∃ c₀ ∈ db.connections.rows, c₀.id = id ∧ c₀.name = c.name) := by
  rw [updateConnectionNode_eq h] at hc
  obtain ⟨c₀, hc₀, rfl⟩ := List.mem_map.mp hc
  by_cases hid : c₀.id = id
  · rw [if_pos (beq_iff_eq.mpr hid)]
    exact .inr ⟨hid, rfl, rfl, c₀, hc₀, hid, rfl⟩
  · rw [if_neg (by simpa using hid)]
    exact .inl ⟨hid, hc₀⟩

theorem updateConnection_eq {db db' : Database} {id : RowId} {bridgeId imageId nodeId : Slot}
    (h : db.updateConnection id bridgeId imageId nodeId = some db') :
    db' = { db with connections := db'.connections } := by
  unfold updateConnection at h
  split at h
  · obtain rfl := Option.some.inj h
    rfl
  · dsimp only at h
    split at h
    · obtain rfl := Option.some.inj h
      rfl
    · cases h

/-! ### Nodes -/

def getNodeById (db : Database) (id : RowId) : Option ClientNode := db.clientNodes.find? id

/-- A write of a node that is there succeeds. -/
theorem updateConnectionNode_isSome {db : Database} {id node : RowId} {status : Status}
    {containerName : Option String} (h : (db.getNodeById node).isSome) :
    ∃ db', db.updateConnectionNode id (some node) status containerName = some db' := by
  unfold updateConnectionNode
  rw [if_pos]
  · exact ⟨_, rfl⟩
  · rw [Option.all_some, show (db.clientNodes.find? node).isSome = true from h, Bool.or_true]

def getNodeByUuid (db : Database) (nodeUuid : String) : Option ClientNode :=
  db.clientNodes.rows.find? fun n => n.nodeUuid == nodeUuid

def upsertNode (db : Database) (nodeUuid serviceDigest hostname : String)
    (portRangeStart portRangeEnd : Port) : Database :=
  match db.getNodeByUuid nodeUuid with
  | some _ =>
      { db with
        clientNodes := db.clientNodes.updateWhere (fun n => n.nodeUuid == nodeUuid)
          (fun n => { n with hostname := hostname, portRangeStart := portRangeStart,
                             portRangeEnd := portRangeEnd, authDigest := some serviceDigest,
                             status := .online })
          fun _ => rfl }
  | none =>
      { db with
        clientNodes := db.clientNodes.insert
          (fun id => { id := id, hostname := hostname, portRangeStart := portRangeStart,
                       portRangeEnd := portRangeEnd, status := .online,
                       authDigest := some serviceDigest, nodeUuid := nodeUuid })
          fun _ => rfl }

theorem upsertNode_eq (db : Database) (nodeUuid serviceDigest hostname : String)
    (portRangeStart portRangeEnd : Port) : ∃ clientNodes,
      db.upsertNode nodeUuid serviceDigest hostname portRangeStart portRangeEnd =
        { db with clientNodes := clientNodes } := by
  unfold upsertNode
  split <;> exact ⟨_, rfl⟩

def setNodeOffline (db : Database) (nodeUuid : String) : Database :=
  { db with
    clientNodes := db.clientNodes.updateWhere (fun n => n.nodeUuid == nodeUuid)
      (fun n => { n with status := .offline }) fun _ => rfl }

def markAllOffline (db : Database) : Database :=
  { db with
    clientNodes := db.clientNodes.updateWhere (fun _ => true)
      (fun n => { n with status := .offline }) fun _ => rfl }

end Database

end Kdct
