/-
Whose container a visitor of a pool port reaches.

Loops outlive the rows, the routes and the reservation they were spawned for, so
nothing in a loop says whether its port is still its connection's.  `Isolated`
says that a port has one loop of a kind at most and that every loop serves the
connection that has the port's bridge, at the client port the deploy chose for it.
It holds in the runs in which a port gets its loops while it has none and no row
or route of another, and in which no row that says so changes while they live.
-/
import Kdct.Server.Deployed

namespace Kdct

/-- The routes that deploys have registered. -/
def Event.routed? : Event → Option (String × Deploy)
  | .routed d path _ => some (path, d)
  | _ => none

/-- The connection of the deploy has the bridge of the port, and the node the deploy
went to. -/
def Database.Owns (db : Database) (d : Deploy) (p : BridgePort) : Prop :=
  ∃ c ∈ db.connections.rows, c.id = d.plan.connectionId ∧ c.bridgeId = some p.bridgeId ∧
    c.nodeId = some d.plan.node.id

instance (db : Database) (d : Deploy) (p : BridgePort) : Decidable (db.Owns d p) :=
  inferInstanceAs (Decidable (∃ c ∈ db.connections.rows, _))

namespace Shared

/-- The deploy that registered the route last. -/
def routeOwner (s : Shared) (path : String) : Option Deploy :=
  ((s.log.filterMap Event.routed?).find? fun e => e.1 == path).map Prod.snd

/-- Whoever has the port is who the loop connects visitors to. -/
structure Serves (s : Shared) (localAddr : LocalAddr) (l : PortLoop) : Prop where
  port : ∃ p, (p, l.localPort) ∈ l.deploy.plan.forwards ∧ p.poolPort.getD 0 = l.serverPort
  rows : ∀ p ∈ s.db.bridgePorts.rows, p.poolPort = some l.serverPort →
    (p, l.localPort) ∈ l.deploy.plan.forwards ∧ s.db.Owns l.deploy p
  routes : ∀ path, s.routes.routes.lookup path = some l.serverPort →
    s.routeOwner path = some l.deploy
  address : ∀ a ∈ target localAddr l, a = Shared.address l.localPort

structure Isolated (s : Shared) (localAddr : LocalAddr) : Prop where
  one : s.loops.Pairwise fun l l' => l.kind = l'.kind → l.serverPort ≠ l'.serverPort
  serves : ∀ l ∈ s.loops, s.Serves localAddr l

/-! ## What the steps have to respect -/

/-- No loop of the connection lives on a port that a bridge port has. -/
def Settled (s : Shared) (id : RowId) : Prop :=
  ∀ l ∈ s.loops, l.deploy.plan.connectionId = id →
    ∀ p ∈ s.db.bridgePorts.rows, p.poolPort ≠ some l.serverPort

/-- Writing the slots of a connection changes neither its bridge nor its node, or the
connection has no loops left. -/
def Rewrites (s : Shared) (id : RowId) (bridgeId nodeId : Database.Slot) : Prop :=
  s.Settled id ∨ ∀ c ∈ s.db.connections.rows, c.id = id →
    bridgeId.getD c.bridgeId = c.bridgeId ∧ nodeId.getD c.nodeId = c.nodeId

/-- A deploy may open its port `p`: nothing lives on it, no other row and no route has
it, the connection still has the port's bridge, and the client sends datagrams where
the deploy wants them. -/
def Opens (s : Shared) (localAddr : LocalAddr) (d : Deploy) (p : BridgePort) (clientPort : Port) :
    Prop :=
  (∀ l ∈ s.loops, l.serverPort ≠ p.poolPort.getD 0) ∧
    (∀ q ∈ s.db.bridgePorts.rows, q.poolPort = some (p.poolPort.getD 0) →
      q = p ∧ s.db.Owns d p) ∧
    (∀ e ∈ s.routes.routes.entries, e.2 ≠ p.poolPort.getD 0) ∧
    (p.hasProtocol "udp" = true → ∀ a ∈ localAddr d.channel, a = address clientPort)

/-- Whether the deploy gets past the registration of the route. -/
def registers (s : Shared) (p : BridgePort) : Bool :=
  p.route.all fun path => (s.routes.set path (p.poolPort.getD 0)).toOption.isSome

end Shared

/-- A step of a deploy that keeps the ports isolated. -/
def DeployPc.Isolates (s : Shared) (localAddr : LocalAddr) (id : RowId) (fault : Bool) :
    DeployPc → Prop
  | .register d ((p, clientPort) :: _) => s.registers p = true → s.Opens localAddr d p clientPort
  | .finish d => fault = false → s.Rewrites id none (some (some d.plan.node.id))
  | _ => True

def StopPc.Isolates (s : Shared) (id : RowId) (fault : Bool) : StopPc → Prop
  | .finish _ => fault = false → s.Rewrites id none (some none)
  | _ => True

def ApiPc.Isolates (s : Shared) (fault : Bool) : ApiPc → Prop
  | .insertPort _ port => fault = false → ∀ l ∈ s.loops, l.serverPort ≠ port
  | .newSlots id slots | .patch id slots => fault = false →
      s.Rewrites id slots.bridgeId slots.nodeId
  | .delete id => fault = false → s.Settled id
  | _ => True

def SyncPc.Isolates (s : Shared) (fault : Bool) : SyncPc → Prop
  | .pend _ nodeId (cid :: _) => fault = false → s.Rewrites cid none (some (some nodeId))
  | _ => True

section

variable {s : Shared} {localAddr : LocalAddr} {id : RowId} {fault : Bool}

instance {d : Deploy} {p : BridgePort} {clientPort : Port} :
    Decidable (s.Opens localAddr d p clientPort) := by
  unfold Shared.Opens
  infer_instance

instance {bridgeId nodeId : Database.Slot} : Decidable (s.Rewrites id bridgeId nodeId) := by
  unfold Shared.Rewrites Shared.Settled
  infer_instance

instance : Decidable (s.Settled id) := by
  unfold Shared.Settled
  infer_instance

instance {pc : DeployPc} : Decidable (pc.Isolates s localAddr id fault) := by
  unfold DeployPc.Isolates
  split <;> infer_instance

instance {pc : StopPc} : Decidable (pc.Isolates s id fault) := by
  unfold StopPc.Isolates
  split <;> infer_instance

instance {pc : ApiPc} : Decidable (pc.Isolates s fault) := by
  unfold ApiPc.Isolates
  split <;> infer_instance

instance {pc : SyncPc} : Decidable (pc.Isolates s fault) := by
  unfold SyncPc.Isolates
  split <;> infer_instance

end

/-- A step that keeps the ports isolated. -/
def Server.Isolating (localAddr : LocalAddr) (s : Server) (label : Label) : Prop :=
  (∀ q ∈ s.movesDeploy label, q.2.2.Isolates s.shared localAddr q.2.1 label.fault) ∧
    (∀ q ∈ s.movesStop label, q.2.2.Isolates s.shared q.2.1 label.fault) ∧
      match label with
      | .api fault => s.api.Isolates s.shared fault
      | .sync fault => s.sync.Isolates s.shared fault
      | _ => True

instance (localAddr : LocalAddr) (s : Server) (label : Label) :
    Decidable (s.Isolating localAddr label) := by
  unfold Server.Isolating
  have : Decidable (match label with
      | .api fault => s.api.Isolates s.shared fault
      | .sync fault => s.sync.Isolates s.shared fault
      | _ => True) := by
    split <;> infer_instance
  infer_instance

/-! ## Rows that stay with the loops -/

/-- A port of the deploy has no row it had not, and keeps its owner. -/
def Database.Keeps (db db' : Database) (d : Deploy) (port : Port) : Prop :=
  ∀ p ∈ db'.bridgePorts.rows, p.poolPort = some port →
    p ∈ db.bridgePorts.rows ∧ (db.Owns d p → db'.Owns d p)

namespace Database

variable {db db' : Database} {d : Deploy} {port : Port} {p : BridgePort}

theorem Owns.of_rows (h : db.Owns d p)
    (hrows : ∀ c ∈ db.connections.rows, c.id = d.plan.connectionId → c.bridgeId = some p.bridgeId →
      ∃ c' ∈ db'.connections.rows, c'.id = c.id ∧ c'.bridgeId = c.bridgeId ∧ c'.nodeId = c.nodeId) :
    db'.Owns d p := by
  obtain ⟨c, hc, hid, hbridge, hnode⟩ := h
  obtain ⟨c', hc', hid', hbridge', hnode'⟩ := hrows c hc hid hbridge
  exact ⟨c', hc', hid'.trans hid, hbridge'.trans hbridge, hnode'.trans hnode⟩

theorem keeps_of_eq (hports : db'.bridgePorts = db.bridgePorts)
    (hconnections : db'.connections = db.connections) : db.Keeps db' d port := by
  intro p hp _
  rw [hports] at hp
  refine ⟨hp, fun h => ?_⟩
  unfold Owns
  rw [hconnections]
  exact h

theorem keeps_deleteBridge (bridgeId : RowId) : db.Keeps (db.deleteBridge bridgeId) d port := by
  intro p hp _
  obtain ⟨hp, hne⟩ := Table.mem_deleteWhere.mp hp
  refine ⟨hp, fun h => h.of_rows fun c hc _ hbridge => ⟨c, List.mem_map.mpr ⟨c, hc, ?_⟩,
    rfl, rfl, rfl⟩⟩
  -- The port is left, so its bridge is another one.
  refine if_neg ?_
  simpa [hbridge] using hne

theorem keeps_deleteBridgePort (bridgeId : RowId) (containerPort : Int) :
    db.Keeps (db.deleteBridgePort bridgeId containerPort) d port :=
  fun _ hp _ => ⟨(Table.mem_deleteWhere.mp hp).1, id⟩

theorem keeps_insertConnection (name : String) : db.Keeps (db.insertConnection name) d port :=
  fun _ hp _ => ⟨hp, fun h => h.of_rows fun c hc _ _ =>
    ⟨c, Table.mem_insert.mpr (.inl hc), rfl, rfl, rfl⟩⟩

theorem keeps_insertImage (name source sourceType : String) :
    db.Keeps (db.insertImage name source sourceType) d port := by
  refine fun _ hp _ => ⟨hp, fun h => h.of_rows fun c hc _ _ =>
    ⟨_, List.mem_map.mpr ⟨c, hc, rfl⟩, ?_⟩⟩
  split <;> exact ⟨rfl, rfl, rfl⟩

theorem keeps_insertBridgePort {bridgeId : RowId} {containerPort : Int} {mode : String}
    {routePath protocols : Option String} {poolPort : Port}
    (h : db.insertBridgePort bridgeId containerPort mode routePath protocols (some poolPort) =
      some db') (hport : port ≠ poolPort) : db.Keeps db' d port := by
  rw [insertBridgePort_eq h]
  intro p hp hpool
  rcases Table.mem_insert.mp hp with hp | rfl
  · exact ⟨hp, id⟩
  · exact absurd (Option.some.inj hpool).symm hport

theorem keeps_deleteConnection {id : RowId}
    (h : d.plan.connectionId = id → ∀ p ∈ db.bridgePorts.rows, p.poolPort ≠ some port) :
    db.Keeps (db.deleteConnection id) d port := by
  refine fun p hp hpool => ⟨hp, fun howns => howns.of_rows fun c hc hcid _ =>
    ⟨c, Table.mem_deleteWhere.mpr ⟨hc, ?_⟩, rfl, rfl, rfl⟩⟩
  rw [beq_eq_false_iff_ne]
  rintro rfl
  exact h hcid.symm p hp hpool

end Database

namespace Shared

variable {s t : Shared} {localAddr : LocalAddr}

theorem Rewrites.keeps {id : RowId} {bridgeId nodeId : Database.Slot}
    (h : s.Rewrites id bridgeId nodeId) {l : PortLoop} (hl : l ∈ s.loops) {db : Database}
    {f : Connection → Connection} (hports : db.bridgePorts = s.db.bridgePorts)
    (hrows : db.connections.rows = s.db.connections.rows.map fun c => if c.id == id then f c else c)
    (hf : ∀ c ∈ s.db.connections.rows, c.id = id → (f c).id = c.id ∧
      (f c).bridgeId = bridgeId.getD c.bridgeId ∧ (f c).nodeId = nodeId.getD c.nodeId) :
    s.db.Keeps db l.deploy l.serverPort := by
  intro p hp hpool
  rw [hports] at hp
  refine ⟨hp, fun howns => howns.of_rows fun c hc hcid _ =>
    ⟨_, by rw [hrows]; exact List.mem_map_of_mem hc, ?_⟩⟩
  by_cases hid : c.id = id
  · rw [if_pos (beq_iff_eq.mpr hid)]
    obtain ⟨hfid, hfbridge, hfnode⟩ := hf c hc hid
    rcases h with hsettled | hsame
    · exact absurd hpool (hsettled l hl (hcid.symm.trans hid) p hp)
    · obtain ⟨hbridge, hnode⟩ := hsame c hc hid
      exact ⟨hfid, hfbridge.trans hbridge, hfnode.trans hnode⟩
  · rw [if_neg (by simpa using hid)]
    exact ⟨rfl, rfl, rfl⟩

theorem Rewrites.updateConnectionNode {id : RowId} {nodeId : Option RowId} {status : Status}
    {containerName : Option String} (h : s.Rewrites id none (some nodeId)) {l : PortLoop}
    (hl : l ∈ s.loops) {db : Database}
    (hdb : s.db.updateConnectionNode id nodeId status containerName = some db) :
    s.db.Keeps db l.deploy l.serverPort := by
  rw [Database.updateConnectionNode_eq hdb]
  exact h.keeps hl rfl rfl fun _ _ _ => ⟨rfl, rfl, rfl⟩

theorem Rewrites.updateConnection {id : RowId} {bridgeId imageId nodeId : Database.Slot}
    (h : s.Rewrites id bridgeId nodeId) {l : PortLoop} (hl : l ∈ s.loops) {db : Database}
    (hdb : s.db.updateConnection id bridgeId imageId nodeId = some db) :
    s.db.Keeps db l.deploy l.serverPort := by
  unfold Database.updateConnection at hdb
  split at hdb
  · obtain rfl := Option.some.inj hdb
    exact Database.keeps_of_eq rfl rfl
  · rename_i c hfind
    obtain ⟨hc, hkey⟩ := Table.find?_eq_some.mp hfind
    dsimp only at hdb
    split at hdb
    · obtain rfl := Option.some.inj hdb
      refine h.keeps hl rfl rfl fun c' hc' hid => ?_
      -- The row that is written is the row that was read.
      rw [Table.eq_of_key hc' hc (hid.trans hkey.symm)]
      exact ⟨rfl, rfl, rfl⟩
    · cases hdb

theorem HandlerWrite.keeps {db : Database} {fault : Bool} {pc : ApiPc}
    (h : HandlerWrite s.db fault pc db) (hC : pc.Isolates s fault) {l : PortLoop}
    (hl : l ∈ s.loops) : s.db.Keeps db l.deploy l.serverPort := by
  cases h with
  | same => exact Database.keeps_of_eq rfl rfl
  | insertPort hfault hdb => exact Database.keeps_insertBridgePort hdb (hC hfault l hl)
  | deleteBridge => exact Database.keeps_deleteBridge _
  | deletePort => exact Database.keeps_deleteBridgePort _ _
  | newSlots hfault hdb | patch hfault hdb => exact Rewrites.updateConnection (hC hfault) hl hdb
  | delete hfault => exact Database.keeps_deleteConnection (hC hfault l hl)

theorem RequestWrite.keeps {db db' : Database} {r : Request} {d : Deploy} {port : Port}
    (h : RequestWrite db r db') : db.Keeps db' d port := by
  cases h with
  | same => exact Database.keeps_of_eq rfl rfl
  | postBridge hdb =>
      rw [Database.insertBridge_eq hdb]
      exact Database.keeps_of_eq rfl rfl
  | @postEnv bridgeId envs good =>
      obtain ⟨bridgeEnvs, henvs⟩ := db.setBridgeEnvs_eq bridgeId envs good
      rw [henvs]
      exact Database.keeps_of_eq rfl rfl
  | postConnection => exact Database.keeps_insertConnection _

/-! ## Loops that stay as they are -/

/-- A step that spawns no loop and registers no route. -/
theorem Isolated.congr (h : s.Isolated localAddr)
    (hloops : (t.loops.map spawned).Sublist (s.loops.map spawned))
    (hroutes : ∀ path port, t.routes.routes.lookup path = some port →
      s.routes.routes.lookup path = some port)
    (hlog : t.log.filterMap Event.routed? = s.log.filterMap Event.routed?)
    (hdb : ∀ l ∈ s.loops, s.db.Keeps t.db l.deploy l.serverPort) : t.Isolated localAddr := by
  constructor
  · have hone : (s.loops.map spawned).Pairwise fun l l' =>
        l.kind = l'.kind → l.serverPort ≠ l'.serverPort := List.pairwise_map.mpr h.one
    exact List.pairwise_map.mp (hone.sublist hloops)
  · intro l hl
    obtain ⟨l₀, hl₀, hspawned⟩ := List.mem_map.mp (hloops.subset (List.mem_map_of_mem hl))
    obtain ⟨hport, hrows, howner, haddress⟩ := h.serves l₀ hl₀
    have hkind : l₀.kind = l.kind := congrArg (fun x => x.kind) hspawned
    have hserver : l₀.serverPort = l.serverPort := congrArg (fun x => x.serverPort) hspawned
    have hlocal : l₀.localPort = l.localPort := congrArg (fun x => x.localPort) hspawned
    have hdeploy : l₀.deploy = l.deploy := congrArg (fun x => x.deploy) hspawned
    have hkeeps := hdb l₀ hl₀
    rw [hdeploy, hserver] at hkeeps
    rw [hdeploy, hlocal, hserver] at hport
    rw [hserver, hdeploy, hlocal] at hrows
    rw [hserver, hdeploy] at howner
    refine ⟨hport, fun p hp hpool => ?_, fun path hpath => ?_, fun a ha => ?_⟩
    · obtain ⟨hold, howns⟩ := hkeeps p hp hpool
      obtain ⟨hzip, hown⟩ := hrows p hold hpool
      exact ⟨hzip, howns hown⟩
    · rw [routeOwner, hlog]
      exact howner path (hroutes path _ hpath)
    · rw [← hlocal]
      refine haddress a ?_
      unfold target at ha ⊢
      rw [hkind, hlocal, hdeploy]
      exact ha

theorem Isolated.of_same (h : s.Isolated localAddr) (hloops : t.loops = s.loops)
    (hroutes : t.routes = s.routes)
    (hlog : t.log.filterMap Event.routed? = s.log.filterMap Event.routed?)
    (hdb : ∀ l ∈ s.loops, s.db.Keeps t.db l.deploy l.serverPort) : t.Isolated localAddr :=
  h.congr (by rw [hloops]) (by rw [hroutes]; exact fun _ _ h => h) hlog hdb

/-! ## New loops -/

theorem spawnLoops_mem {d : Deploy} {p : BridgePort} {clientPort : Port} {l : PortLoop}
    (hl : l ∈ (s.spawnLoops d p clientPort).loops) :
    l ∈ s.loops ∨ l.serverPort = p.poolPort.getD 0 ∧ l.localPort = clientPort ∧ l.deploy = d ∧
      (l.kind = .udp → p.hasProtocol "udp" = true) := by
  unfold spawnLoops at hl
  dsimp only at hl
  split at hl
  · rename_i hudp
    split at hl
    · rcases List.mem_cons.mp hl with rfl | hl
      · exact .inr ⟨rfl, rfl, rfl, fun _ => hudp⟩
      · rcases List.mem_cons.mp hl with rfl | hl
        · exact .inr ⟨rfl, rfl, rfl, fun hkind => by cases hkind⟩
        · exact .inl hl
    · rcases List.mem_cons.mp hl with rfl | hl
      · exact .inr ⟨rfl, rfl, rfl, fun _ => hudp⟩
      · exact .inl hl
  · split at hl
    · rcases List.mem_cons.mp hl with rfl | hl
      · exact .inr ⟨rfl, rfl, rfl, fun hkind => by cases hkind⟩
      · exact .inl hl
    · exact .inl hl

/-- The new loops are of different kinds and have a port of their own. -/
theorem spawnLoops_one {d : Deploy} {p : BridgePort} {clientPort : Port}
    (h : s.loops.Pairwise fun l l' => l.kind = l'.kind → l.serverPort ≠ l'.serverPort)
    (hfree : ∀ l ∈ s.loops, l.serverPort ≠ p.poolPort.getD 0) :
    (s.spawnLoops d p clientPort).loops.Pairwise fun l l' =>
      l.kind = l'.kind → l.serverPort ≠ l'.serverPort := by
  unfold spawnLoops
  dsimp only
  split
  · split
    · refine List.pairwise_cons.mpr ⟨fun l hl => ?_, List.pairwise_cons.mpr ⟨fun l hl _ => ?_, h⟩⟩
      · rcases List.mem_cons.mp hl with rfl | hl
        · exact fun hkind => by cases hkind
        · exact fun _ => (hfree l hl).symm
      · exact (hfree l hl).symm
    · exact List.pairwise_cons.mpr ⟨fun l hl _ => (hfree l hl).symm, h⟩
  · split
    · exact List.pairwise_cons.mpr ⟨fun l hl _ => (hfree l hl).symm, h⟩
    · exact h

/-- A deploy opens a port.  `t` has the route of the port already. -/
theorem Isolated.open (h : s.Isolated localAddr) {d : Deploy} {p : BridgePort} {clientPort : Port}
    (hopens : s.Opens localAddr d p clientPort) (hzip : (p, clientPort) ∈ d.plan.forwards)
    (hloops : t.loops = s.loops) (hdb : t.db = s.db)
    (hroutes : ∀ path port, t.routes.routes.lookup path = some port →
      s.routes.routes.lookup path = some port ∧ t.routeOwner path = s.routeOwner path ∨
        port = p.poolPort.getD 0 ∧ t.routeOwner path = some d) :
    (t.spawnLoops d p clientPort).Isolated localAddr := by
  obtain ⟨hfree, hrow, hroute, hudp⟩ := hopens
  obtain ⟨_, _, hframe⟩ := t.spawnLoops_frame d p clientPort
  have hdb' : (t.spawnLoops d p clientPort).db = s.db := by rw [hframe, hdb]
  have hroutes' : (t.spawnLoops d p clientPort).routes = t.routes := by rw [hframe]
  have howner : (t.spawnLoops d p clientPort).routeOwner = t.routeOwner := by
    funext path
    rw [routeOwner, spawnLoops_log]
    rfl
  refine ⟨spawnLoops_one (by rw [hloops]; exact h.one) (by rw [hloops]; exact hfree),
    fun l hl => ?_⟩
  rcases spawnLoops_mem hl with hl | ⟨hserver, hlocal, hdeploy, hkind⟩
  · rw [hloops] at hl
    obtain ⟨hport, hrows, hpaths, haddress⟩ := h.serves l hl
    refine ⟨hport, fun q hq hpool => ?_, fun path hpath => ?_, haddress⟩
    · rw [hdb'] at hq ⊢
      exact hrows q hq hpool
    · rw [hroutes'] at hpath
      rw [howner]
      rcases hroutes path _ hpath with ⟨hold, hsame⟩ | ⟨hport, _⟩
      · rw [hsame]
        exact hpaths path hold
      · exact absurd hport (hfree l hl)
  · refine ⟨⟨p, ?_, hserver.symm⟩, fun q hq hpool => ?_, fun path hpath => ?_, fun a ha => ?_⟩
    · rw [hlocal, hdeploy]
      exact hzip
    · rw [hdb'] at hq ⊢
      rw [hserver] at hpool
      obtain ⟨rfl, howns⟩ := hrow q hq hpool
      rw [hlocal, hdeploy]
      exact ⟨hzip, howns⟩
    · rw [hroutes', hserver] at hpath
      rw [howner, hdeploy]
      rcases hroutes path _ hpath with ⟨hold, _⟩ | ⟨_, hnew⟩
      · exact absurd rfl (hroute ⟨path, p.poolPort.getD 0⟩ (AList.mem_lookup_iff.mp hold))
      · exact hnew
    · rw [hlocal]
      unfold target at ha
      split at ha
      · rw [hlocal] at ha
        exact (Option.some.inj ha).symm
      · rename_i hk
        rw [hdeploy] at ha
        exact hudp (hkind hk) a ha

end Shared

/-! ## Every step -/

/-- What a deploy still has to register is an end of its plan. -/
def DeployPc.Ends : DeployPc → Prop
  | .register d rest => rest <:+ d.plan.forwards
  | .push d port rest => port :: rest <:+ d.plan.forwards
  | _ => True

namespace Shared

variable {s t : Shared} {localAddr : LocalAddr}

theorem DeployStep.rest {call : CallId} {id : RowId} {fault : Bool} {pc next : DeployPc}
    (h : DeployStep s call id fault pc t (.goto next)) (hpc : pc.Ends) : next.Ends := by
  cases h
  case locked d _ => exact List.suffix_refl _
  case routed | unrouted => exact hpc
  case pushed d p clientPort rest _ => exact (List.suffix_cons _ _).trans hpc
  all_goals trivial

theorem DeployStep.isolated {call : CallId} {id : RowId} {fault : Bool} {pc : DeployPc}
    {next : DeployNext} (hstep : DeployStep s call id fault pc t next) (h : s.Isolated localAddr)
    (hC : pc.Isolates s localAddr id fault) (hpc : pc.Ends) :
    (t.endCall call id next).Isolated localAddr := by
  have hsame : ∀ l ∈ s.loops, s.db.Keeps s.db l.deploy l.serverPort :=
    fun _ _ => Database.keeps_of_eq rfl rfl
  cases hstep
  case insert d env =>
    have hlog := insertWaiter_log Event.routed? s d.channel d.plan.containerName call fun _ => rfl
    obtain ⟨_, _, _, hframe⟩ := s.insertWaiter_frame d.channel d.plan.containerName call
    rw [hframe] at hlog ⊢
    exact h.of_same rfl rfl hlog hsame
  case gaveUp d e =>
    have hlog := removeWaiter_log Event.routed? s d.channel d.plan.containerName call fun _ => rfl
    obtain ⟨_, _, _, hframe⟩ := s.removeWaiter_frame d.channel d.plan.containerName call
    rw [hframe] at hlog ⊢
    exact h.of_same rfl rfl hlog hsame
  case routed d p clientPort rest path routes hroute hset =>
    obtain ⟨hnone, hlookup⟩ := RouteTable.set_ok hset
    refine h.open (hC ?_) (hpc.subset List.mem_cons_self) rfl rfl fun q port hq => ?_
    · simp [registers, hroute, hset, Except.toOption]
    · rw [show (note { s with routes := routes } (.routed d path (p.poolPort.getD 0))).routes =
        routes from rfl, hlookup] at hq
      by_cases hpath : q = path
      · rw [if_pos hpath] at hq
        subst hpath
        exact .inr ⟨(Option.some.inj hq).symm, by simp [routeOwner, note, Event.routed?]⟩
      · rw [if_neg hpath] at hq
        refine .inl ⟨hq, ?_⟩
        simp [routeOwner, note, Event.routed?, Ne.symm hpath]
  case unrouted d p clientPort rest hroute =>
    refine h.open (hC ?_) (hpc.subset List.mem_cons_self) rfl rfl fun q port hq => .inl ⟨hq, rfl⟩
    simp [registers, hroute]
  case finished d db text hfault hdb =>
    exact h.of_same rfl rfl rfl fun l hl => (hC hfault).updateConnectionNode hl hdb
  all_goals exact h.of_same rfl rfl rfl hsame

theorem StopStep.isolated {call : CallId} {id : RowId} {fault : Bool} {pc : StopPc}
    {next : StopNext} (hstep : StopStep s call id fault pc t next) (h : s.Isolated localAddr)
    (hC : pc.Isolates s id fault) : t.Isolated localAddr := by
  have hsame : ∀ l ∈ s.loops, s.db.Keeps s.db l.deploy l.serverPort :=
    fun _ _ => Database.keeps_of_eq rfl rfl
  cases hstep
  case insert info nodeUuid ch =>
    have hlog := insertWaiter_log Event.routed? s ch info.containerName call fun _ => rfl
    obtain ⟨_, _, _, hframe⟩ := s.insertWaiter_frame ch info.containerName call
    rw [hframe] at hlog ⊢
    exact h.of_same rfl rfl hlog hsame
  case release info nodeUuid d port rest =>
    exact h.congr (List.Sublist.refl _)
      (fun path q hq => (RouteTable.removeByPort_lookup.mp hq).1) rfl
      hsame
  case finished info db hfault hdb =>
    exact h.of_same rfl rfl rfl fun l hl => (hC hfault).updateConnectionNode hl hdb
  all_goals exact h.of_same rfl rfl rfl hsame

theorem SyncStep.isolated {fault : Bool} {pc next : SyncPc} (hstep : SyncStep s fault pc t next)
    (h : s.Isolated localAddr) (hC : pc.Isolates s fault) : t.Isolated localAddr := by
  have hsame : ∀ l ∈ s.loops, s.db.Keeps s.db l.deploy l.serverPort :=
    fun _ _ => Database.keeps_of_eq rfl rfl
  cases hstep
  case release uuid port ports rest =>
    exact h.congr (List.Sublist.refl _)
      (fun path q hq => (RouteTable.removeByPort_lookup.mp hq).1) rfl
      hsame
  case pend uuid nodeId cid rest db hfault hdb =>
    exact h.of_same rfl rfl rfl fun l hl => (hC hfault).updateConnectionNode hl hdb
  all_goals exact h.of_same rfl rfl rfl hsame

theorem Around.isolated (hstep : s.Around localAddr t) (h : s.Isolated localAddr) :
    t.Isolated localAddr := by
  have hlog := around_log Event.routed? (fun _ _ => rfl) (fun _ _ => rfl) hstep
  have hsame : ∀ l ∈ s.loops, s.db.Keeps s.db l.deploy l.serverPort :=
    fun _ _ => Database.keeps_of_eq rfl rfl
  cases hstep with
  | registry registry closed => exact h.of_same rfl rfl hlog hsame
  | message ch cmd =>
      obtain ⟨_, _, _, hframe⟩ := s.message_frame ch cmd
      rw [hframe] at hlog ⊢
      exact h.of_same rfl rfl hlog hsame
  | loops loops hloops => exact h.congr hloops (fun _ _ h => h) hlog hsame
  | bridged loops l address hloops _ _ => exact h.congr hloops (fun _ _ h => h) hlog hsame
  | image name source sourceType =>
      exact h.of_same rfl rfl hlog fun _ _ => Database.keeps_insertImage _ _ _

end Shared

namespace Server

variable {ports : FreshPool} {localAddr : LocalAddr} {s s' : Server} {label : Label}

structure IsolationInv (localAddr : LocalAddr) (s : Server) : Prop where
  fresh : s.Fresh
  ends : ∀ call id pc, s.deploys call = some (id, pc) → pc.Ends
  isolated : s.shared.Isolated localAddr

theorem isolationInv_boot (ports : FreshPool) (localAddr : LocalAddr) :
    (boot .empty ports).IsolationInv localAddr :=
  ⟨fresh_boot _ ports, fun _ _ _ h => (by cases h),
    List.Pairwise.nil, fun _ hl => absurd hl List.not_mem_nil⟩

theorem isolationInv_step (h : s.IsolationInv localAddr) (hC : s.Isolating localAddr label)
    (hstep : s.step ports localAddr label = some s') : s'.IsolationInv localAddr := by
  obtain ⟨hmove, hfresh⟩ := step_move h.fresh hstep
  obtain ⟨hdeploys, hstops, hothers⟩ := hC
  refine ⟨hfresh, hmove.each (fun _ _ => trivial) (fun hstep hpc => hstep.rest hpc) h.ends, ?_⟩
  cases hmove with
  | deploy hmoves hpc hdeploy hshared =>
      rw [hshared]
      exact hdeploy.isolated h.isolated (hdeploys _ hmoves) (h.ends _ _ _ hpc)
  | stop _ hmoves _ hstop hshared =>
      rw [hshared]
      exact hstop.isolated h.isolated (hstops _ hmoves)
  | start _ hshared | startStop _ hshared =>
      rw [hshared]
      exact h.isolated
  | @request fault r _ _ hshared =>
      have hwrite := s.shared.request_write fault r
      obtain ⟨db, pool, hframe⟩ := s.shared.request_frame fault r
      rw [hframe] at hshared hwrite
      rw [hshared]
      exact h.isolated.of_same rfl rfl rfl fun _ _ => hwrite.keeps
  | handler hhandler hshared =>
      have hwrite := Shared.handlerStep_write hhandler
      obtain ⟨db, pool, hframe⟩ := Shared.handlerStep_frame hhandler
      rw [hframe] at hshared hwrite
      rw [hshared]
      exact h.isolated.of_same rfl rfl rfl fun _ hl => hwrite.keeps hothers hl
  | @event fault update _ _ hshared =>
      obtain ⟨clientNodes, hframe⟩ := s.shared.syncEvent_frame fault update
      rw [hframe] at hshared
      rw [hshared]
      exact h.isolated.of_same rfl rfl rfl fun _ _ => Database.keeps_of_eq rfl rfl
  | sync hsync hshared =>
      rw [hshared]
      exact hsync.isolated h.isolated hothers
  | surroundings _ hsurr => exact hsurr.isolated h.isolated
  | restart => exact ⟨List.Pairwise.nil, fun _ hl => absurd hl List.not_mem_nil⟩

/-- In a run of steps that keep the ports isolated, every port has one loop of a kind
at most, and visitors reach the connection that has the port. -/
theorem isolated_of_isolating (ports : FreshPool) (localAddr : LocalAddr) (labels : List Label)
    (h : (kdcts ports localAddr).Meets (Isolating localAddr) (.boot .empty ports) labels) :
    (kdcts ports localAddr).Always (fun s => s.shared.Isolated localAddr) (.boot .empty ports)
      labels := by
  have hinv : (kdcts ports localAddr).Always (IsolationInv localAddr) (.boot .empty ports) labels :=
    Machine.always_of_meets (fun _ _ _ hI hC hstep => isolationInv_step hI hC hstep)
      (isolationInv_boot ports localAddr) h
  exact hinv.mono fun _ hI => hI.isolated

end Server

/-- A connection is deployed and visited, then patched, which stops and deploys it again.
Its loop ends before the stop is through. -/
def visitAndRedeploy : List Label :=
  Label.oneConnection ++ Label.deploys 0 0 (.containerStarted "kdct-a-1" []) ++
    [.visitor 0, .visitorGone 0,
      .request false (.patchConnection 1
        { bridgeId := none, imageId := none, nodeId := some (some 1) })] ++
      List.replicate 7 (.api false) ++ .message 0 (.containerStopped "kdct-a-1") ::
        List.replicate 7 (.api false) ++ .endLoop 0 false :: List.replicate 3 (.api false) ++
          Label.deploys 2 0 (.containerStarted "kdct-a-1" []) ++ [.visitor 1]

set_option maxRecDepth 4000 in
theorem isolated_of_isolating_visit :
    (kdcts samplePool fun _ => none).Always (fun s => s.shared.Isolated fun _ => none)
      (.boot .empty samplePool) visitAndRedeploy :=
  Server.isolated_of_isolating samplePool (fun _ => none) visitAndRedeploy (by decide)

/-- Two connections share a bridge whose port is not routed, and both are deployed. -/
def sharedBridge : List Label :=
  Label.connects "u" 0 ++ .loadImage "web" "nginx" "docker" ::
    Label.bridges "bridge" { samplePort 1 "/a" with mode := "port", routePath := none } ++
      Label.creates "a" 1 1 ++ Label.creates "b" 1 1 ++
        Label.deploys 0 0 (.containerStarted "kdct-a-1" []) ++
          Label.deploys 1 0 (.containerStarted "kdct-b-2" [])

set_option maxRecDepth 4000 in
/-- Port 20000 gets an accept loop for each connection. -/
theorem sharedBridge_clash :
    ¬(kdcts samplePool fun _ => none).Always (fun s => s.shared.Isolated fun _ => none)
      (.boot .empty samplePool) sharedBridge := by
  intro h
  obtain ⟨s, hs⟩ : ∃ s,
    (kdcts samplePool fun _ => none).run (.boot .empty samplePool) sharedBridge =
      some s := Option.isSome_iff_exists.mp (by decide)
  have hfacts : ((kdcts samplePool fun _ => none).run (.boot .empty samplePool) sharedBridge).map
      (fun s => s.shared.loops.map fun l => (l.kind, l.serverPort, l.deploy.plan.connectionId)) =
        some [(.tcp, 20000, 2), (.tcp, 20000, 1)] := by
    decide
  rw [hs] at hfacts
  have hloops : s.shared.loops.map _ = _ := Option.some.inj hfacts
  have hone :
    (s.shared.loops.map fun l => (l.kind, l.serverPort, l.deploy.plan.connectionId)).Pairwise
      fun l l' => l.1 = l'.1 → l.2.1 ≠ l'.2.1 := List.pairwise_map.mpr (h.last hs).one
  rw [hloops] at hone
  exact absurd hone (by decide)

end Kdct
