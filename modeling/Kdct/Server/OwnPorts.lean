/-
The ports the server hands out and the ports it listens on itself.

Every port that a route leads to was reserved from the pool or stored in the
database before the server started, and the pool holds what the configuration
lists.  Nothing compares the list with the ports of the panel, the proxy and the
tunnel.
-/
import Kdct.Config
import Kdct.Server.PoolReservation
import Kdct.Server.Deployed

namespace Kdct

/-- The ports stored with bridges. -/
def Database.storedPorts (db : Database) : List Port :=
  db.bridgePorts.rows.filterMap BridgePort.poolPort

/-- What a server may work with: the ports of its pool, and what it found stored. -/
def Allowed (ports : FreshPool) (old : List Port) (port : Port) : Prop :=
  port ∈ ports.ports ∨ port ∈ old

/-- The bridge ports a deploy still works with. -/
def DeployPc.bridgePorts : DeployPc → List BridgePort
  | .conflicts plan | .registry plan => plan.ports
  | .envs d | .insert d _ | .send d _ | .wait d | .giveUp d _ | .record d | .lock d => d.plan.ports
  | .register _ rest => rest.map Prod.fst
  | .push _ _ rest => rest.map Prod.fst
  | _ => []

namespace Shared

/-- The pool, the bridges and the routes have allowed ports only. -/
structure Within (ports : FreshPool) (old : List Port) (s : Shared) : Prop where
  free : ∀ port ∈ s.pool.free, port ∈ ports.ports
  assigned : ∀ port, s.pool.Assigned port → port ∈ ports.ports
  stored : ∀ r ∈ s.db.bridgePorts.rows, ∀ port ∈ r.poolPort, Allowed ports old port
  routes : ∀ path port, s.routes.routes.lookup path = some port → Allowed ports old port

namespace Within

variable {ports : FreshPool} {old : List Port} {s t : Shared} {port : Port}

theorem of_eq (h : s.Within ports old) (hpool : t.pool = s.pool)
    (hrows : ∀ r ∈ t.db.bridgePorts.rows, r ∈ s.db.bridgePorts.rows)
    (hroutes : t.routes = s.routes) :
    t.Within ports old where
  free := by rw [hpool]; exact h.free
  assigned := by rw [hpool]; exact h.assigned
  stored := fun r hr => h.stored r (hrows r hr)
  routes := by rw [hroutes]; exact h.routes

theorem release (h : s.Within ports old) (hpool : t.pool = s.pool.releaseByPort port)
    (hrows : ∀ r ∈ t.db.bridgePorts.rows, r ∈ s.db.bridgePorts.rows)
    (hroutes : ∀ path q, t.routes.routes.lookup path = some q →
      s.routes.routes.lookup path = some q) : t.Within ports old where
  free := fun q hq => by
    rw [hpool] at hq
    rcases PortPool.releaseByPort_free.mp hq with hq | ⟨rfl, hassigned⟩
    · exact h.free q hq
    · exact h.assigned q hassigned
  assigned := fun q hq => by
    rw [hpool] at hq
    exact h.assigned q (PortPool.releaseByPort_assigned.mp hq).1
  stored := fun r hr => h.stored r (hrows r hr)
  routes := fun path q hq => h.routes path q (hroutes path q hq)

theorem reserve {pool : PortPool} (h : s.Within ports old)
    (hreserve : s.pool.reserveOne = some (port, pool)) :
    port ∈ ports.ports ∧ Within ports old { s with pool := pool } := by
  obtain ⟨hmem, hassigned, hfree, -⟩ := PortPool.reserveOne_spec hreserve
  refine ⟨h.free port hmem, fun q hq => h.free q (hfree q hq), fun q hq => ?_, h.stored, h.routes⟩
  rcases (hassigned q).mp hq with rfl | hq
  · exact h.free q hmem
  · exact h.assigned q hq

theorem route {path : String} {table : RouteTable} (h : s.Within ports old)
    (hport : Allowed ports old port) (hset : s.routes.set path port = .ok table) :
    ∀ path' q, table.routes.lookup path' = some q → Allowed ports old q := by
  intro path' q hq
  rw [(RouteTable.set_ok hset).2] at hq
  split at hq
  · obtain rfl := Option.some.inj hq
    exact hport
  · exact h.routes path' q hq

end Within

end Shared

/-- The bridge ports of the deploy all have allowed ports. -/
def DeployPc.Within (ports : FreshPool) (old : List Port) (pc : DeployPc) : Prop :=
  ∀ p ∈ pc.bridgePorts, ∃ port, p.poolPort = some port ∧ Allowed ports old port

namespace Shared

/-! ## Deploys -/

variable {ports : FreshPool} {old : List Port} {s t : Shared}

theorem DeployStep.within_pc {call : CallId} {id : RowId} {fault : Bool} {pc next : DeployPc}
    (h : DeployStep s call id fault pc t (.goto next)) (hs : s.Within ports old)
    (hpc : pc.Within ports old) : next.Within ports old := by
  cases h
  case ports info bridgeId node image plan hplan =>
    obtain ⟨hplan, hsome⟩ := planPorts_ok hplan
    intro p hp
    rw [hplan] at hp
    obtain ⟨port, hport⟩ := Option.isSome_iff_exists.mp (hsome p hp)
    have hrow : p ∈ s.db.bridgePorts.rows :=
      List.mem_of_mem_filter ((List.mem_insertionSort _).mp hp)
    exact ⟨port, hport, hs.stored p hrow port hport⟩
  case locked d _ =>
    intro p hp
    obtain ⟨q, hq, rfl⟩ := List.mem_map.mp hp
    exact hpc q.1 (List.of_mem_zip hq).1
  case routed | unrouted => exact fun p hp => hpc p (List.mem_cons_of_mem _ hp)
  case checked | connection | node | image => exact fun p hp => absurd hp List.not_mem_nil
  all_goals exact hpc

theorem DeployStep.within_routes {call : CallId} {id : RowId} {fault : Bool} {pc : DeployPc}
    {next : DeployNext} (h : DeployStep s call id fault pc t next) (hs : s.Within ports old)
    (hpc : pc.Within ports old) {path : String} {port : Port}
    (hlookup : t.routes.routes.lookup path = some port) : Allowed ports old port := by
  cases h
  case insert d env =>
    obtain ⟨_, _, _, hframe⟩ := s.insertWaiter_frame d.channel d.plan.containerName call
    rw [hframe] at hlookup
    exact hs.routes path port hlookup
  case gaveUp d e =>
    obtain ⟨_, _, _, hframe⟩ := s.removeWaiter_frame d.channel d.plan.containerName call
    rw [hframe] at hlookup
    exact hs.routes path port hlookup
  case routed d p clientPort rest path' routes _ hset =>
    obtain ⟨_, _, hframe⟩ := ({ s with routes := routes }.note
      (.routed d path' (p.poolPort.getD 0))).spawnLoops_frame d p clientPort
    rw [hframe] at hlookup
    obtain ⟨q, hq, hallowed⟩ := hpc p List.mem_cons_self
    rw [hq] at hset
    exact hs.route hallowed hset path port hlookup
  case unrouted d p clientPort rest _ =>
    obtain ⟨_, _, hframe⟩ := s.spawnLoops_frame d p clientPort
    rw [hframe] at hlookup
    exact hs.routes path port hlookup
  all_goals exact hs.routes path port hlookup

theorem DeployStep.within {call : CallId} {id : RowId} {fault : Bool} {pc : DeployPc}
    {next : DeployNext} (h : DeployStep s call id fault pc t next) (hs : s.Within ports old)
    (hpc : pc.Within ports old) : t.Within ports old := by
  have hroutes := @DeployStep.within_routes ports old s t call id fault pc next h hs hpc
  obtain ⟨hpool, _, _, _, hdb⟩ := h.frame
  have hrows : t.db.bridgePorts = s.db.bridgePorts := by rw [hdb]
  exact ⟨by rw [hpool]; exact hs.free, by rw [hpool]; exact hs.assigned,
    by rw [hrows]; exact hs.stored, fun _ _ => hroutes⟩

/-! ## Handlers -/

theorem request_within {fault : Bool} {r : Request} (hs : s.Within ports old) :
    (s.request fault r).1.Within ports old ∧
      ∀ port ∈ (s.request fault r).2.poolWork.reserved, port ∈ ports.ports := by
  have hno : ∀ port : Port, port ∈ (none : Option Port) → port ∈ ports.ports :=
    fun _ hp => by cases hp
  have hsame : ∀ r ∈ s.db.bridgePorts.rows, r ∈ s.db.bridgePorts.rows := fun _ => id
  cases r with
  | postBridge name =>
      simp only [request]
      split
      · exact ⟨hs, hno⟩
      · rename_i db hdb
        refine ⟨hs.of_eq rfl (fun r hr => ?_) rfl, hno⟩
        cases hcond : fault || name.isEmpty with
        | true => simp [hcond] at hdb
        | false =>
            simp only [hcond] at hdb
            have hbridges := Database.insertBridge_eq hdb
            change r ∈ db.bridgePorts.rows at hr
            rw [hbridges] at hr
            exact hr
  | postPort spec =>
      simp only [request]
      split
      · exact ⟨hs, hno⟩
      · split
        · exact ⟨hs, hno⟩
        · rename_i port pool hreserve
          obtain ⟨hport, hpool⟩ := hs.reserve hreserve
          refine ⟨hpool, fun q hq => ?_⟩
          obtain rfl := Option.some.inj hq
          exact hport
  | postEnv bridgeId envs good =>
      obtain ⟨bridgeEnvs, henvs⟩ := s.db.setBridgeEnvs_eq bridgeId envs good
      refine ⟨hs.of_eq rfl (fun r hr => ?_) rfl, hno⟩
      change r ∈ (s.db.setBridgeEnvs bridgeId envs good).bridgePorts.rows at hr
      rw [henvs] at hr
      exact hr
  | postConnection name slots =>
      simp only [request]
      split
      · exact ⟨hs, hno⟩
      · exact ⟨hs.of_eq rfl hsame rfl, hno⟩
  | patchConnection id slots =>
      simp only [request]
      split <;> exact ⟨hs, hno⟩
  | deleteBridge _ | deletePort _ _ | deleteConnection _ | autoCheck => exact ⟨hs, hno⟩

/-- A handler releases ports and reserves none. -/
theorem handlerStep_pool {fault : Bool} {pc next : ApiPc}
    (h : s.handlerStep fault pc = some (t, next)) :
    (t.pool = s.pool ∨ ∃ port, t.pool = s.pool.releaseByPort port) ∧
      ∀ port ∈ next.poolWork.reserved, port ∈ pc.poolWork.reserved := by
  have hnone : ∀ port : Port, port ∈ (none : Option Port) → port ∈ pc.poolWork.reserved :=
    fun _ hp => by cases hp
  cases pc
  case insertPort spec port =>
    unfold handlerStep at h
    dsimp only at h
    split at h
    all_goals obtain ⟨rfl, rfl⟩ := Prod.mk.inj (Option.some.inj h)
    · exact ⟨.inl rfl, fun _ => id⟩
    · exact ⟨.inl rfl, hnone⟩
  case releaseBridge bridgeId rest =>
    cases rest with
    | nil =>
        obtain ⟨rfl, rfl⟩ := Prod.mk.inj (Option.some.inj h)
        exact ⟨.inl rfl, hnone⟩
    | cons port rest =>
        obtain ⟨rfl, rfl⟩ := Prod.mk.inj (Option.some.inj h)
        exact ⟨.inr ⟨port, rfl⟩, hnone⟩
  case unreserve port | releasePort bridgeId containerPort port =>
    obtain ⟨rfl, rfl⟩ := Prod.mk.inj (Option.some.inj h)
    exact ⟨.inr ⟨port, rfl⟩, hnone⟩
  case deleteBridge | deletePort | delete =>
    obtain ⟨rfl, rfl⟩ := Prod.mk.inj (Option.some.inj h)
    cases fault <;> exact ⟨.inl rfl, hnone⟩
  case bridgePorts bridgeId | autoCheck =>
    obtain ⟨rfl, rfl⟩ := Prod.mk.inj (Option.some.inj h)
    cases fault <;> exact ⟨.inl rfl, hnone⟩
  case autoNext rest =>
    cases rest with
    | nil =>
        obtain ⟨rfl, rfl⟩ := Prod.mk.inj (Option.some.inj h)
        exact ⟨.inl rfl, hnone⟩
    | cons id rest => cases h
  all_goals
    unfold handlerStep at h
    dsimp only at h
    repeat' split at h
    all_goals first
      | cases h
        done
      | obtain ⟨rfl, rfl⟩ := Prod.mk.inj (Option.some.inj h)
        exact ⟨.inl rfl, hnone⟩

theorem HandlerWrite.stored {db db' : Database} {fault : Bool} {pc : ApiPc}
    (h : HandlerWrite db fault pc db')
    (hs : ∀ r ∈ db.bridgePorts.rows, ∀ port ∈ r.poolPort, Allowed ports old port)
    (hreserved : ∀ port ∈ pc.poolWork.reserved, port ∈ ports.ports) :
    ∀ r ∈ db'.bridgePorts.rows, ∀ port ∈ r.poolPort, Allowed ports old port := by
  cases h with
  | same => exact hs
  | @insertPort spec port db' hfault hdb =>
      rw [Database.insertBridgePort_eq hdb]
      intro r hr q hq
      rcases Table.mem_insert.mp hr with hold | rfl
      · exact hs r hold q hq
      · obtain rfl := Option.some.inj hq
        exact .inl (hreserved port rfl)
  | deleteBridge hfault | deletePort hfault =>
      exact fun r hr => hs r (Table.mem_deleteWhere.mp hr).1
  | newSlots hfault hdb | patch hfault hdb =>
      rw [Database.updateConnection_eq hdb]
      exact hs
  | delete hfault => exact hs

theorem handlerStep_within {fault : Bool} {pc next : ApiPc}
    (h : s.handlerStep fault pc = some (t, next)) (hs : s.Within ports old)
    (hreserved : ∀ port ∈ pc.poolWork.reserved, port ∈ ports.ports) : t.Within ports old := by
  have hpool := (handlerStep_pool h).1
  obtain ⟨db, pool, hframe⟩ := handlerStep_frame h
  have hroutes : t.routes = s.routes := by rw [hframe]
  have hstored := (handlerStep_write h).stored hs.stored hreserved
  have hwithin : Within ports old { s with pool := t.pool } := by
    rcases hpool with hsame | ⟨port, hrelease⟩
    · exact hs.of_eq hsame (fun _ => id) rfl
    · exact hs.release hrelease (fun _ => id) fun _ _ => id
  exact ⟨hwithin.free, hwithin.assigned, hstored, by rw [hroutes]; exact hs.routes⟩

end Shared

/-! ## Runs -/

namespace Server

structure Within (ports : FreshPool) (old : List Port) (s : Server) : Prop where
  fresh : s.Fresh
  shared : s.shared.Within ports old
  reserved : ∀ port ∈ s.api.poolWork.reserved, port ∈ ports.ports
  deploys : ∀ call id pc, s.deploys call = some (id, pc) → pc.Within ports old

variable {ports : FreshPool} {old : List Port} {localAddr : LocalAddr} {s s' : Server}

theorem within_boot (db : Database) (ports : FreshPool) :
    (boot db ports).Within ports db.storedPorts := by
  refine ⟨fresh_boot _ ports, ?_,
    (fun _ hp => by cases hp), fun _ _ _ hpc => by cases hpc⟩
  refine ⟨fun _ hp => hp, (fun _ hp => by cases hp), fun r hr port hport => ?_,
    fun _ _ hp => by cases hp⟩
  exact .inr (List.mem_filterMap.mpr ⟨r, hr, hport⟩)

theorem within_step {label : Label} (h : s.Within ports old)
    (hstep : s.step ports localAddr label = some s') : s'.Within ports old := by
  obtain ⟨hmove, hfresh⟩ := step_move h.fresh hstep
  have hdeploys := hmove.each (Q := fun _ _ pc => pc.Within ports old)
    (fun _ _ p hp => absurd hp List.not_mem_nil)
    (fun hdeploy hpc => hdeploy.within_pc h.shared hpc) h.deploys
  have hidle : ∀ pc : ApiPc, pc.handler = .idle → ∀ port ∈ pc.poolWork.reserved,
      port ∈ ports.ports := by
    intro pc hpc port hport
    rw [← ApiPc.poolWork_handler, hpc] at hport
    cases hport
  suffices hboth : s'.shared.Within ports old ∧
      ∀ port ∈ s'.api.poolWork.reserved, port ∈ ports.ports from
    ⟨hfresh, hboth.1, hboth.2, hdeploys⟩
  cases hmove with
  | @deploy _ _ call id pc t next _ hpc hdeploy hshared _ _ _ _ hhandler =>
      obtain ⟨log, hlog⟩ := t.endCall_frame call id next
      rw [hshared, hlog, ← ApiPc.poolWork_handler, hhandler, ApiPc.poolWork_handler]
      have ht := hdeploy.within h.shared (h.deploys call id pc hpc)
      exact ⟨ht.of_eq rfl (fun _ hr => hr) rfl, h.reserved⟩
  | @stop label _ call id pc after t next _ _ _ hstop hshared _ _ _ _ _ hhandler =>
      rw [hshared]
      constructor
      · obtain ⟨_, _, _, hdb, hpool⟩ := hstop.frame
        have hrows : t.db.bridgePorts = s.shared.db.bridgePorts := by rw [hdb]
        rcases hpool with ⟨hpool, hroutes⟩ | ⟨_, _, _, port, _, _, hpool, hroutes⟩
        · exact h.shared.of_eq hpool (fun r hr => hrows ▸ hr) hroutes
        · refine h.shared.release hpool (fun r hr => hrows ▸ hr) fun path q hq => ?_
          rw [hroutes] at hq
          exact (RouteTable.removeByPort_lookup.mp hq).1
      · rcases hhandler with hhandler | ⟨_, hhandler⟩
        · exact hidle _ hhandler
        · intro port hport
          rw [← ApiPc.poolWork_handler, hhandler] at hport
          cases after <;> cases hport
  | start _ hshared _ _ _ _ _ hhandler | startStop _ hshared _ _ _ _ _ _ hhandler =>
      rw [hshared]
      exact ⟨h.shared, hidle _ hhandler⟩
  | request _ hshared _ _ _ _ _ hapi =>
      rw [hshared, hapi]
      exact Shared.request_within h.shared
  | handler hhandler hshared _ _ _ _ _ hapi =>
      rw [hshared, hapi]
      exact ⟨Shared.handlerStep_within hhandler h.shared h.reserved,
        fun port hport => h.reserved port ((Shared.handlerStep_pool hhandler).2 port hport)⟩
  | @event fault update _ _ hshared _ _ _ _ hapi =>
      obtain ⟨clientNodes, hframe⟩ := s.shared.syncEvent_frame fault update
      rw [hshared, hapi, hframe]
      exact ⟨h.shared.of_eq rfl (fun _ => id) rfl, h.reserved⟩
  | @sync fault _ t pc hsync hshared _ _ _ _ hapi =>
      rw [hshared, hapi]
      refine ⟨?_, h.reserved⟩
      obtain ⟨_, _, _, _, _, _, _, _, hdb, hpool⟩ := hsync.frame
      have hrows : t.db.bridgePorts = s.shared.db.bridgePorts := by rw [hdb]
      rcases hpool with ⟨hpool, hroutes⟩ | ⟨_, port, _, _, _, hpool, hroutes⟩
      · exact h.shared.of_eq hpool (fun r hr => hrows ▸ hr) hroutes
      · refine h.shared.release hpool (fun r hr => hrows ▸ hr) fun path q hq => ?_
        rw [hroutes] at hq
        exact (RouteTable.removeByPort_lookup.mp hq).1
  | surroundings _ hsurr _ _ _ _ hapi =>
      rw [hapi]
      obtain ⟨hpool, hroutes, _, _, _, _, _, _, hdb | ⟨name, source, sourceType, hdb⟩⟩ :=
        hsurr.frame
      · exact ⟨h.shared.of_eq hpool (by rw [hdb]; exact fun _ => id) hroutes, h.reserved⟩
      · exact ⟨h.shared.of_eq hpool (by rw [hdb]; exact fun _ => id) hroutes, h.reserved⟩
  | restart =>
      refine ⟨⟨fun _ hp => hp, (fun _ hp => by cases hp), h.shared.stored, ?_⟩,
        fun _ hp => by cases hp⟩
      exact fun _ _ hp => by cases hp

/-- The ports a server needs itself are neither reserved nor routed to, except where a
bridge had one already. -/
def Spares (own old : List Port) (s : Server) : Prop :=
  (∀ port pool, s.shared.pool.reserveOne = some (port, pool) → port ∉ own) ∧
    ∀ path port, s.shared.routes.routes.lookup path = some port → port ∈ own → port ∈ old

theorem Within.spares {own : List Port} (h : s.Within ports old)
    (hown : ∀ port ∈ ports.ports, port ∉ own) : s.Spares own old := by
  constructor
  · intro port pool hreserve
    exact hown port (h.shared.reserve hreserve).1
  · intro path port hroute hport
    exact (h.shared.routes path port hroute).resolve_left fun hmem => hown port hmem hport

end Server

/-- The pool, what is reserved from it and what is routed to spare the server's own ports
exactly when no part of the configured range spans one of them. -/
theorem startServer_spares_iff (toml : String → Option ConfigTables) (held : List Port)
    (text : String) (db : Database) (localAddr : LocalAddr) {server : ServerConfig}
    {ports : FreshPool} (h : startServer toml held text = .ok (server, ports)) :
    (∀ port ∈ ports.ports, port ∉ server.ownPorts) ∧
        (∀ labels, (kdcts ports localAddr).Always
          (Server.Spares server.ownPorts db.storedPorts) (.boot db ports) labels) ↔
      ∀ part ∈ splitCommas server.portPool, ∀ port ∈ server.ownPorts, ¬Spans part port := by
  have hports := @mem_parsePortRange _ _ (FreshPool.bind_ok (startServer_ok h))
  constructor
  · rintro ⟨hdisjoint, -⟩ part hpart port hport hspans
    exact hdisjoint port (hports.mpr ⟨part, hpart, hspans⟩) hport
  · intro hspans
    have hdisjoint : ∀ port ∈ ports.ports, port ∉ server.ownPorts := by
      intro port hmem hport
      obtain ⟨part, hpart, hspan⟩ := hports.mp hmem
      exact hspans part hpart port hport hspan
    refine ⟨hdisjoint, fun labels => ?_⟩
    have hinv : (kdcts ports localAddr).Always (Server.Within ports db.storedPorts)
        (.boot db ports) labels :=
      Machine.always_of_step (fun _ _ _ hI hstep => Server.within_step hI hstep) labels
        (Server.within_boot db ports)
    exact hinv.mono fun s hs => hs.spares hdisjoint

/-- A server whose pool lists two ports away from its own. -/
def twoPortToml : ConfigTables where
  server := some
    { bindAddr := "0.0.0.0:2333", defaultToken := "secret", services := [],
      portPool := some "20000-20001", domain := none, httpPort := none, httpsPort := none,
      apiPort := none }
  client := none

theorem startServer_spares_iff_twoPorts :
    (∀ port ∈ samplePool.ports, port ∉ [9933, 80, 443, 2333]) ∧
      ∀ labels, (kdcts samplePool fun _ => none).Always (Server.Spares [9933, 80, 443, 2333] [])
        (.boot .empty samplePool) labels := by
  obtain ⟨server, hstart, hpool, hown⟩ : ∃ server : ServerConfig,
      startServer (fun _ => some twoPortToml) [] "" = .ok (server, samplePool) ∧
        server.portPool = "20000-20001" ∧ server.ownPorts = [9933, 80, 443, 2333] :=
    ⟨_, rfl, rfl, rfl⟩
  rw [← hown]
  apply (startServer_spares_iff _ [] "" .empty (fun _ => none) hstart).mpr
  intro part hpart port hport hspans
  rw [hpool, show splitCommas "20000-20001" = ["20000-20001"] by decide,
    List.mem_singleton] at hpart
  rw [hpart, spans_iff (show partBounds "20000-20001" = .ok (20000, 20001) by decide)] at hspans
  rw [hown] at hport
  have haway : ∀ own ∈ [9933, 80, 443, 2333], ¬((20000 : Port) ≤ own ∧ own ≤ 20001) := by decide
  exact haway port hport hspans

/-! ## The configuration that comes with the source -/

/-- What `server.toml` says. -/
def serverToml : ConfigTables where
  server := some
    { bindAddr := "0.0.0.0:2333", defaultToken := "test-token-123", services := [],
      portPool := some "9000-9999", domain := some "localhost", httpPort := some 8080,
      httpsPort := some 8443, apiPort := some 9933 }
  client := none

/-- The port of the panel is in the pool. -/
theorem startServer_hands_out_apiPort :
    ∃ server ports, startServer (fun _ => some serverToml) [] "" = .ok (server, ports) ∧
      ¬∀ port ∈ ports.ports, port ∉ server.ownPorts := by
  have hbounds : partBounds "9000-9999" = .ok (9000, 9999) := by decide
  have hsplit : splitCommas "9000-9999" = ["9000-9999"] := by decide
  have hparse : parsePortRange "9000-9999" = .ok (portsBetween 9000 9999) := by
    rw [parsePortRange, hsplit]
    simp [partPorts, hbounds, bind, Except.bind, pure, Except.pure]
  have hmem : (9933 : Port) ∈ portsBetween 9000 9999 := mem_portsBetween.mpr (by decide)
  obtain ⟨pool, hpool, hports⟩ : ∃ pool, FreshPool.bind [] "9000-9999" = .ok pool ∧
      pool.ports = portsBetween 9000 9999 :=
    FreshPool.exists_bind hparse (List.ne_nil_of_mem hmem) (portsBetween_nodup 9000 9999)
      fun _ _ => List.not_mem_nil
  obtain ⟨server, hserver, hown⟩ : ∃ server : ServerConfig,
      Config.fromStr (fun _ => some serverToml) "" = .ok ⟨some server, none⟩ ∧
        server.portPool = "9000-9999" ∧ server.apiPort = 9933 := ⟨_, rfl, rfl, rfl⟩
  refine ⟨server, pool, startServer_of_bind hserver (hown.1.symm ▸ hpool), fun hdisjoint => ?_⟩
  apply hdisjoint 9933
  · rw [hports]
    exact hmem
  · rw [ServerConfig.ownPorts, hown.2]
    exact List.mem_cons_self

end Kdct
