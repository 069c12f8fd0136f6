/-
The ports that bridges keep.

A bridge port stores the pool port that was reserved for it.  `Reserved` says that
the database and the pool agree on who has what: the stored ports are assigned,
no two rows store one port, and every assigned port is stored.  A request that
reserves or releases takes several statements, and `Accounted` says what holds
between them.
-/
import Kdct.Server.Moves

namespace Kdct

namespace Shared

/-- The database and the pool agree. -/
def Reserved (s : Shared) : Prop :=
  (∀ r ∈ s.db.bridgePorts.rows, ∀ p ∈ r.poolPort, s.pool.Assigned p ∧ p ∉ s.pool.free) ∧
    (∀ r ∈ s.db.bridgePorts.rows, ∀ r' ∈ s.db.bridgePorts.rows, ∀ p ∈ r.poolPort,
      p ∈ r'.poolPort → r = r') ∧
    ∀ p ∈ s.pool.assignments.keys, ∃ r ∈ s.db.bridgePorts.rows, p ∈ r.poolPort

instance (s : Shared) : Decidable s.Reserved :=
  inferInstanceAs (Decidable (_ ∧ _ ∧ _))

end Shared

/-- Whether the thread is between the statements of a request that reserves or
releases ports. -/
def ApiPc.inPoolRequest : ApiPc → Bool
  | .insertPort .. | .unreserve _ | .bridgePorts _ | .releaseBridge .. | .deleteBridge _
  | .bridgePort .. | .releasePort .. | .deletePort .. => true
  | _ => false

namespace Server

/-- Between requests on the pool, the database and the pool agree. -/
def PortsReserved (s : Server) : Prop := s.api.inPoolRequest = false → s.shared.Reserved

instance : DecidablePred PortsReserved := fun s =>
  inferInstanceAs (Decidable (s.api.inPoolRequest = false → s.shared.Reserved))

/-- A step keeps the reservations: a stop or a disconnect releases no port that is
still assigned, a restart comes while no bridge port stores a port, and the row of
a `DELETE` goes exactly when its port has been released. -/
def Reserving (s : Server) : Label → Prop
  | .restart => ∀ r ∈ s.shared.db.bridgePorts.rows, r.poolPort = none
  | .sync _ =>
      match s.sync with
      | .release _ (port :: _) _ => ¬s.shared.pool.Assigned port
      | _ => True
  | .api fault =>
      match s.api with
      | .stopping _ _ (.release _ _ _ (port :: _)) _ => ¬s.shared.pool.Assigned port
      | .deleteBridge bridgeId =>
          ∀ r ∈ s.shared.db.bridgePorts.rows, r.bridgeId = bridgeId →
            ∀ p ∈ r.poolPort, (s.shared.pool.Assigned p ↔ fault = true)
      | .deletePort bridgeId containerPort =>
          ∀ r ∈ s.shared.db.bridgePorts.rows, r.bridgeId = bridgeId →
            r.containerPort = containerPort →
              ∀ p ∈ r.poolPort, (s.shared.pool.Assigned p ↔ fault = true)
      | _ => True
  | _ => True

instance (s : Server) (label : Label) : Decidable (s.Reserving label) := by
  unfold Reserving
  rcases label with _ | _
  case restart => dsimp only; infer_instance
  case sync fault =>
    dsimp only
    rcases s.sync with _ | _
    case release uuid ports rest => rcases ports with _ | _ <;> dsimp only <;> infer_instance
    all_goals exact .isTrue trivial
  case api fault =>
    dsimp only
    rcases s.api with _ | _
    case stopping call id pc after =>
      rcases pc with _ | _
      case release info nodeUuid d rest => rcases rest with _ | _ <;> dsimp only <;> infer_instance
      all_goals exact .isTrue trivial
    case deleteBridge | deletePort => dsimp only; infer_instance
    all_goals exact .isTrue trivial
  all_goals exact .isTrue trivial

end Server

/-! ## Between the statements of a request -/

/-- What a request on the pool is in the middle of: the port it has reserved, the
rows it is about to delete, and those of their ports that it still has to release. -/
structure PoolWork where
  reserved : Option Port := none
  deleting : BridgePort → Prop := fun _ => False
  queue : List Port := []

def ApiPc.poolWork : ApiPc → PoolWork
  | .insertPort _ port | .unreserve port => { reserved := some port }
  | .releaseBridge bridgeId rest => { deleting := fun r => r.bridgeId = bridgeId, queue := rest }
  | .deleteBridge bridgeId => { deleting := fun r => r.bridgeId = bridgeId }
  | .releasePort bridgeId containerPort port =>
      { deleting := fun r => r.bridgeId = bridgeId ∧ r.containerPort = containerPort,
        queue := [port] }
  | .deletePort bridgeId containerPort =>
      { deleting := fun r => r.bridgeId = bridgeId ∧ r.containerPort = containerPort }
  | _ => {}

theorem ApiPc.poolWork_handler (pc : ApiPc) : pc.handler.poolWork = pc.poolWork := by
  cases pc <;> rfl

theorem ApiPc.poolWork_settled {pc : ApiPc} (h : pc.inPoolRequest = false) : pc.poolWork = {} := by
  cases pc <;> first | rfl | cases h

namespace Shared

/-- The database and the pool agree up to the work of one request. -/
structure Accounted (s : Shared) (w : PoolWork) : Prop where
  nodup : s.pool.free.Nodup
  disjoint : ∀ p, s.pool.Assigned p → p ∉ s.pool.free
  distinct : ∀ r ∈ s.db.bridgePorts.rows, ∀ r' ∈ s.db.bridgePorts.rows, ∀ p ∈ r.poolPort,
    p ∈ r'.poolPort → r = r'
  owned : ∀ p, s.pool.Assigned p → (∃ r ∈ s.db.bridgePorts.rows, p ∈ r.poolPort) ∨ p ∈ w.reserved
  assigned : ∀ r ∈ s.db.bridgePorts.rows, ∀ p ∈ r.poolPort, s.pool.Assigned p ∨ w.deleting r
  reserved : ∀ p ∈ w.reserved,
    s.pool.Assigned p ∧ ∀ r ∈ s.db.bridgePorts.rows, p ∉ r.poolPort
  queued : ∀ p ∈ w.queue, ∃ r ∈ s.db.bridgePorts.rows, w.deleting r ∧ p ∈ r.poolPort

namespace Accounted

variable {s t : Shared} {w : PoolWork}

theorem reserved_of_settled (h : s.Accounted {}) : s.Reserved := by
  refine ⟨fun r hr p hp => ?_, h.distinct, fun p hp => ?_⟩
  · rcases h.assigned r hr p hp with hassigned | hfalse
    · exact ⟨hassigned, h.disjoint p hassigned⟩
    · exact hfalse.elim
  · rcases h.owned p (AList.lookup_isSome.mpr (AList.mem_keys.mpr hp)) with hheld | hnone
    · exact hheld
    · cases hnone

theorem of_eq (h : s.Accounted w) (hpool : t.pool = s.pool)
    (hrows : t.db.bridgePorts = s.db.bridgePorts) : t.Accounted w := by
  constructor
  · rw [hpool]
    exact h.nodup
  · rw [hpool]
    exact h.disjoint
  · rw [hrows]
    exact h.distinct
  · rw [hpool, hrows]
    exact h.owned
  · rw [hpool, hrows]
    exact h.assigned
  · rw [hpool, hrows]
    exact h.reserved
  · rw [hrows]
    exact h.queued

/-- Less is known to be released while more is about to be deleted. -/
theorem deletes (h : s.Accounted {}) (deleting : BridgePort → Prop) (queue : List Port)
    (hqueue : ∀ p ∈ queue, ∃ r ∈ s.db.bridgePorts.rows, deleting r ∧ p ∈ r.poolPort) :
    s.Accounted { deleting := deleting, queue := queue } := by
  refine ⟨h.nodup, h.disjoint, h.distinct, h.owned, fun r hr p hp => ?_, h.reserved, hqueue⟩
  exact .inl ((h.assigned r hr p hp).resolve_right id)

/-- A release of a port that is not assigned does nothing. -/
theorem release_unassigned (h : s.Accounted w) {port : Port} (hport : ¬s.pool.Assigned port)
    (hpool : t.pool = s.pool.releaseByPort port) (hrows : t.db.bridgePorts = s.db.bridgePorts) :
    t.Accounted w := by
  refine h.of_eq ?_ hrows
  rw [hpool]
  unfold PortPool.releaseByPort
  split
  · rename_i hsome
    exact absurd (by simp [PortPool.Assigned, hsome]) hport
  · rfl

/-- A `DELETE` releases a port of the rows it is about to delete. -/
theorem release_deleting {deleting : BridgePort → Prop} {port : Port} {rest : List Port}
    (h : s.Accounted { deleting := deleting, queue := port :: rest }) :
    Accounted { s with pool := s.pool.releaseByPort port }
      { deleting := deleting, queue := rest } := by
  obtain ⟨r₀, hr₀, hdel, hport⟩ := h.queued port List.mem_cons_self
  refine ⟨PortPool.releaseByPort_nodup h.nodup, ?_, h.distinct, ?_, ?_, fun p hp => (by cases hp),
    fun p hp => h.queued p (List.mem_cons_of_mem _ hp)⟩
  · intro p hp hfree
    obtain ⟨hassigned, hne⟩ := PortPool.releaseByPort_assigned.mp hp
    rcases PortPool.releaseByPort_free.mp hfree with hfree | ⟨heq, _⟩
    · exact h.disjoint p hassigned hfree
    · exact hne heq
  · exact fun p hp => h.owned p (PortPool.releaseByPort_assigned.mp hp).1
  · intro r hr p hp
    by_cases hne : p = port
    · subst hne
      rw [h.distinct r hr r₀ hr₀ p hp hport]
      exact .inr hdel
    · exact (h.assigned r hr p hp).imp_left fun ha => PortPool.releaseByPort_assigned.mpr ⟨ha, hne⟩

/-- A failed insertion gives the port back. -/
theorem unreserve {port : Port} (h : s.Accounted { reserved := some port }) :
    Accounted { s with pool := s.pool.releaseByPort port } {} := by
  obtain ⟨_, hfree⟩ := h.reserved port rfl
  refine ⟨PortPool.releaseByPort_nodup h.nodup, ?_, h.distinct, ?_, ?_, fun p hp => (by cases hp),
    fun p hp => (by cases hp)⟩
  · intro p hp hmem
    obtain ⟨hassigned, hne⟩ := PortPool.releaseByPort_assigned.mp hp
    rcases PortPool.releaseByPort_free.mp hmem with hmem | ⟨heq, _⟩
    · exact h.disjoint p hassigned hmem
    · exact hne heq
  · intro p hp
    obtain ⟨hassigned, hne⟩ := PortPool.releaseByPort_assigned.mp hp
    rcases h.owned p hassigned with hheld | hres
    · exact .inl hheld
    · exact absurd (Option.some.inj hres).symm hne
  · intro r hr p hp
    refine (h.assigned r hr p hp).imp_left fun ha => PortPool.releaseByPort_assigned.mpr ⟨ha, ?_⟩
    rintro rfl
    exact hfree r hr hp

theorem reserve {port : Port} {pool : PortPool} (h : s.Accounted {})
    (hreserve : s.pool.reserveOne = some (port, pool)) :
    Accounted { s with pool := pool } { reserved := some port } := by
  obtain ⟨hmem, hassigned, hsub, hnodup⟩ := PortPool.reserveOne_spec hreserve
  obtain ⟨hnd, hgone⟩ := hnodup h.nodup
  refine ⟨hnd, ?_, h.distinct, ?_, ?_, ?_, fun p hp => (by cases hp)⟩
  · intro p hp hfree
    rcases (hassigned p).mp hp with rfl | hp
    · exact hgone hfree
    · exact h.disjoint p hp (hsub p hfree)
  · intro p hp
    rcases (hassigned p).mp hp with rfl | hp
    · exact .inr rfl
    · exact .inl ((h.owned p hp).resolve_right (by simp))
  · intro r hr p hp
    exact .inl ((hassigned p).mpr (.inr ((h.assigned r hr p hp).resolve_right id)))
  · rintro p ⟨⟩
    refine ⟨(hassigned port).mpr (.inl rfl), fun r hr hp => ?_⟩
    exact h.disjoint port ((h.assigned r hr port hp).resolve_right id) hmem

theorem insert {port : Port} {db : Database} {spec : PortSpec}
    (h : s.Accounted { reserved := some port })
    (hdb : s.db.insertBridgePort spec.bridgeId spec.containerPort spec.mode spec.routePath
      spec.protocols (some port) = some db) : Accounted { s with db := db } {} := by
  obtain ⟨hport, hfree⟩ := h.reserved port rfl
  rw [Database.insertBridgePort_eq hdb]
  have hrow : ∀ {r}, r ∈ (s.db.bridgePorts.insert (fun id => (
      { id := id, bridgeId := spec.bridgeId, containerPort := spec.containerPort, mode := spec.mode,
        routePath := spec.routePath, protocols := spec.protocols, poolPort := some port } :
          BridgePort)) fun _ => rfl).rows →
      ∀ p ∈ r.poolPort, r ∈ s.db.bridgePorts.rows ∨ p = port := by
    intro r hr p hp
    rcases Table.mem_insert.mp hr with hr | rfl
    · exact .inl hr
    · exact .inr (Option.some.inj hp).symm
  refine ⟨h.nodup, h.disjoint, ?_, ?_, ?_, fun p hp => (by cases hp), fun p hp => (by cases hp)⟩
  · intro r hr r' hr' p hp hp'
    rcases Table.mem_insert.mp hr with hold | rfl
    · rcases Table.mem_insert.mp hr' with hold' | rfl
      · exact h.distinct r hold r' hold' p hp hp'
      · obtain rfl := Option.some.inj hp'
        exact absurd hp (hfree r hold)
    · rcases Table.mem_insert.mp hr' with hold' | rfl
      · obtain rfl := Option.some.inj hp
        exact absurd hp' (hfree r' hold')
      · rfl
  · intro p hp
    left
    rcases h.owned p hp with ⟨r, hr, hrp⟩ | hres
    · exact ⟨r, Table.mem_insert.mpr (.inl hr), hrp⟩
    · exact ⟨_, Table.mem_insert.mpr (.inr rfl), hres⟩
  · intro r hr p hp
    left
    rcases hrow hr p hp with hold | rfl
    · exact (h.assigned r hold p hp).resolve_right id
    · exact hport

/-- The rows go when their ports have been released, and stay when they are still
assigned. -/
theorem delete {deleting : BridgePort → Prop} {fault : Bool} {db : Database}
    (h : s.Accounted { deleting := deleting })
    (hexact : ∀ r ∈ s.db.bridgePorts.rows, deleting r → ∀ p ∈ r.poolPort,
      (s.pool.Assigned p ↔ fault = true))
    (hrows : ∀ r, r ∈ db.bridgePorts.rows ↔ r ∈ s.db.bridgePorts.rows ∧ ¬deleting r) :
    Accounted (if fault then s else { s with db := db }) {} := by
  cases fault with
  | true =>
      refine ⟨h.nodup, h.disjoint, h.distinct, h.owned, fun r hr p hp => ?_,
        fun p hp => (by cases hp),
        fun p hp => (by cases hp)⟩
      exact .inl ((h.assigned r hr p hp).elim id fun hdel => (hexact r hr hdel p hp).mpr rfl)
  | false =>
      refine ⟨h.nodup, h.disjoint, ?_, ?_, ?_, fun p hp => (by cases hp), fun p hp => (by cases hp)⟩
      · exact fun r hr r' hr' => h.distinct r ((hrows r).mp hr).1 r' ((hrows r').mp hr').1
      · intro p hp
        obtain ⟨r, hr, hrp⟩ := (h.owned p hp).resolve_right (by simp)
        refine .inl ⟨r, (hrows r).mpr ⟨hr, fun hdel => ?_⟩, hrp⟩
        cases (hexact r hr hdel p hrp).mp hp
      · intro r hr p hp
        obtain ⟨hold, hkept⟩ := (hrows r).mp hr
        exact .inl ((h.assigned r hold p hp).resolve_right hkept)

end Accounted

end Shared

namespace Server

/-- The thread accounts for what the database and the pool do not agree on. -/
structure PoolInv (s : Server) : Prop where
  fresh : s.Fresh
  accounted : s.shared.Accounted s.api.poolWork

theorem poolInv_boot (ports : FreshPool) : (boot .empty ports).PoolInv := by
  refine ⟨fresh_boot _ ports,
    ports.nodup, ?_, ?_, ?_, ?_,
    ?_, ?_⟩
  · exact fun p hp => by cases hp
  · exact fun r hr => absurd hr List.not_mem_nil
  · exact fun p hp => by cases hp
  · exact fun r hr => absurd hr List.not_mem_nil
  · exact fun p hp => by cases hp
  · exact fun p hp => by cases hp

variable {ports : FreshPool} {localAddr : LocalAddr} {s s' : Server}

theorem accounted_request {fault : Bool} {r : Request} (h : s.shared.Accounted {}) :
    (s.shared.request fault r).1.Accounted (s.shared.request fault r).2.poolWork := by
  cases r with
  | postBridge name =>
      simp only [Shared.request]
      split
      · exact h
      · rename_i db hdb
        refine h.of_eq rfl ?_
        cases hcond : fault || name.isEmpty with
        | true => simp [hcond] at hdb
        | false =>
            simp only [hcond] at hdb
            rw [Database.insertBridge_eq hdb]
  | postPort spec =>
      simp only [Shared.request]
      split
      · exact h
      · split
        · exact h
        · rename_i port pool hreserve
          exact h.reserve hreserve
  | postEnv bridgeId envs good =>
      obtain ⟨bridgeEnvs, henvs⟩ := s.shared.db.setBridgeEnvs_eq bridgeId envs good
      exact h.of_eq rfl (by simp [Shared.request, henvs])
  | postConnection name slots =>
      simp only [Shared.request]
      split
      · exact h
      · exact h.of_eq rfl rfl
  | patchConnection id slots =>
      simp only [Shared.request]
      split <;> exact h
  | _ => exact h

theorem accounted_handler {fault : Bool} {t : Shared} {pc : ApiPc}
    (h : s.shared.Accounted s.api.poolWork) (hC : s.Reserving (.api fault))
    (hstep : s.shared.handlerStep fault s.api = some (t, pc)) : t.Accounted pc.poolWork := by
  unfold Reserving at hC
  cases hapi : s.api <;> simp only [hapi] at h hC hstep
  case insertPort spec port =>
    unfold Shared.handlerStep at hstep
    dsimp only at hstep
    split at hstep
    all_goals obtain ⟨rfl, rfl⟩ := Prod.mk.inj (Option.some.inj hstep)
    · exact h
    · rename_i db hdb
      cases fault with
      | true => cases hdb
      | false => exact h.insert hdb
  case unreserve port =>
    obtain ⟨rfl, rfl⟩ := Prod.mk.inj (Option.some.inj hstep)
    exact h.unreserve
  case bridgePorts bridgeId =>
    obtain ⟨rfl, rfl⟩ := Prod.mk.inj (Option.some.inj hstep)
    cases fault with
    | true => exact h.deletes _ [] (by simp)
    | false =>
        refine h.deletes _ (s.shared.db.getBridgePoolPorts bridgeId) fun p hp => ?_
        obtain ⟨r, hr, hrp⟩ := List.mem_filterMap.mp hp
        obtain ⟨hmem, hbridge⟩ := List.mem_filter.mp hr
        exact ⟨r, hmem, beq_iff_eq.mp hbridge, hrp⟩
  case releaseBridge bridgeId rest =>
    cases rest with
    | nil =>
        obtain ⟨rfl, rfl⟩ := Prod.mk.inj (Option.some.inj hstep)
        exact h
    | cons port rest =>
        obtain ⟨rfl, rfl⟩ := Prod.mk.inj (Option.some.inj hstep)
        exact h.release_deleting
  case deleteBridge bridgeId =>
    obtain ⟨rfl, rfl⟩ := Prod.mk.inj (Option.some.inj hstep)
    refine h.delete hC fun r => ?_
    rw [Database.deleteBridge, Table.mem_deleteWhere, beq_eq_false_iff_ne]
  case bridgePort bridgeId containerPort =>
    unfold Shared.handlerStep at hstep
    dsimp only at hstep
    split at hstep
    all_goals obtain ⟨rfl, rfl⟩ := Prod.mk.inj (Option.some.inj hstep)
    · exact h.deletes _ [] (by simp)
    · rename_i port hport
      refine h.deletes _ [port] fun p hp => ?_
      obtain rfl := List.mem_singleton.mp hp
      cases fault with
      | true => cases hport
      | false =>
          obtain ⟨r, hfind, hrp⟩ := Option.bind_eq_some_iff.mp hport
          have hkey := List.find?_some hfind
          rw [Bool.and_eq_true, beq_iff_eq, beq_iff_eq] at hkey
          exact ⟨r, List.mem_of_find?_eq_some hfind, hkey, hrp⟩
  case releasePort bridgeId containerPort port =>
    obtain ⟨rfl, rfl⟩ := Prod.mk.inj (Option.some.inj hstep)
    exact h.release_deleting
  case deletePort bridgeId containerPort =>
    obtain ⟨rfl, rfl⟩ := Prod.mk.inj (Option.some.inj hstep)
    refine h.delete (fun r hr hdel => hC r hr hdel.1 hdel.2) fun r => ?_
    rw [Database.deleteBridgePort, Table.mem_deleteWhere, Bool.and_eq_false_iff,
      beq_eq_false_iff_ne, beq_eq_false_iff_ne, not_and_or]
  case newSlots id slots =>
    unfold Shared.handlerStep at hstep
    dsimp only at hstep
    repeat' split at hstep
    all_goals obtain ⟨rfl, rfl⟩ := Prod.mk.inj (Option.some.inj hstep)
    · exact h
    · rename_i db hdb
      cases fault with
      | true => cases hdb
      | false => exact h.of_eq rfl (by rw [Database.updateConnection_eq hdb])
    · exact h
  case patchCheck id slots =>
    unfold Shared.handlerStep at hstep
    dsimp only at hstep
    repeat' split at hstep
    all_goals obtain ⟨rfl, rfl⟩ := Prod.mk.inj (Option.some.inj hstep)
    all_goals exact h
  case patch id slots =>
    unfold Shared.handlerStep at hstep
    dsimp only at hstep
    split at hstep
    all_goals obtain ⟨rfl, rfl⟩ := Prod.mk.inj (Option.some.inj hstep)
    · exact h
    · rename_i db hdb
      cases fault with
      | true => cases hdb
      | false => exact h.of_eq rfl (by rw [Database.updateConnection_eq hdb])
  case deleteCheck id =>
    unfold Shared.handlerStep at hstep
    dsimp only at hstep
    repeat' split at hstep
    all_goals obtain ⟨rfl, rfl⟩ := Prod.mk.inj (Option.some.inj hstep)
    all_goals exact h
  case delete id =>
    obtain ⟨rfl, rfl⟩ := Prod.mk.inj (Option.some.inj hstep)
    cases fault with
    | true => exact h
    | false => exact h.of_eq rfl rfl
  case autoCheck =>
    obtain ⟨rfl, rfl⟩ := Prod.mk.inj (Option.some.inj hstep)
    cases fault <;> exact h
  case autoNext rest =>
    cases rest with
    | nil =>
        obtain ⟨rfl, rfl⟩ := Prod.mk.inj (Option.some.inj hstep)
        exact h
    | cons id rest => cases hstep
  all_goals cases hstep

theorem poolInv_step {label : Label} (h : s.PoolInv) (hC : s.Reserving label)
    (hstep : s.step ports localAddr label = some s') : s'.PoolInv := by
  obtain ⟨hmove, hfresh⟩ := step_move h.fresh hstep
  refine ⟨hfresh, ?_⟩
  have hacc := h.accounted
  cases hmove with
  | @deploy _ _ call id pc t next _ _ hdeploy hshared _ _ _ _ hhandler =>
      obtain ⟨log, hlog⟩ := t.endCall_frame call id next
      obtain ⟨hpool, _, _, _, hdb⟩ := hdeploy.frame
      rw [← ApiPc.poolWork_handler, hhandler, ApiPc.poolWork_handler]
      refine hacc.of_eq ?_ ?_
      · rw [hshared, hlog]
        exact hpool
      · rw [hshared, hlog]
        show t.db.bridgePorts = _
        rw [hdb]
  | @stop label _ call id pc after t next _ hmoves hpc hstop hshared _ _ _ _ hbefore hhandler =>
      have hidle : s.api.poolWork = {} := by
        rw [← ApiPc.poolWork_handler, hbefore]
        rfl
      have hidle' : s'.api.poolWork = {} := by
        rw [← ApiPc.poolWork_handler]
        rcases hhandler with hhandler | ⟨_, hhandler⟩
        · rw [hhandler]
          rfl
        · rw [hhandler]
          cases after <;> rfl
      rw [hidle] at hacc
      rw [hidle', hshared]
      obtain ⟨_, _, _, hdb, hpool⟩ := hstop.frame
      have hrows : t.db.bridgePorts = s.shared.db.bridgePorts := by rw [hdb]
      rcases hpool with ⟨hpool, _⟩ | ⟨info, nodeUuid, d, port, rest, rfl, hpool, _⟩
      · exact hacc.of_eq hpool hrows
      · refine hacc.release_unassigned ?_ hpool hrows
        unfold movesStop at hmoves
        split at hmoves
        · unfold stopping at hmoves
          unfold Reserving at hC
          split at hmoves
          · rename_i hapi
            obtain ⟨rfl, rfl, rfl⟩ : _ = call ∧ _ = id ∧ _ = _ := by simpa using hmoves
            simpa only [hapi] using hC
          · cases hmoves
        · cases hmoves
  | start _ hshared _ _ _ _ hbefore hhandler =>
      rw [hshared, ← ApiPc.poolWork_handler, hhandler, ← hbefore, ApiPc.poolWork_handler]
      exact hacc
  | startStop _ hshared _ _ _ _ _ hbefore hhandler =>
      rw [hshared, ← ApiPc.poolWork_handler, hhandler, ← hbefore, ApiPc.poolWork_handler]
      exact hacc
  | request hidle hshared _ _ _ _ _ hapi =>
      rw [hidle] at hacc
      rw [hshared, hapi]
      exact accounted_request hacc
  | handler hhandler hshared _ _ _ _ _ hapi =>
      rw [hshared, hapi]
      exact accounted_handler hacc hC hhandler
  | @event fault update _ _ hshared _ _ _ _ hapi =>
      rw [hshared, hapi]
      refine hacc.of_eq ?_ ?_
      all_goals
        unfold Shared.syncEvent
        split
        · split
          · rfl
          · first
            | rfl
            | rw [(Database.upsertNode_eq ..).choose_spec]
        · rfl
        · rfl
  | @sync fault _ t pc hsync hshared _ _ _ _ hapi =>
      rw [hshared, hapi]
      obtain ⟨_, _, _, _, _, _, _, _, hdb, hpool⟩ := hsync.frame
      have hrows : t.db.bridgePorts = s.shared.db.bridgePorts := by rw [hdb]
      rcases hpool with ⟨hpool, _⟩ | ⟨uuid, port, released, rest, hpc, hpool, _⟩
      · exact hacc.of_eq hpool hrows
      · refine hacc.release_unassigned ?_ hpool hrows
        simpa only [Reserving, hpc] using hC
  | surroundings _ hsurr _ _ _ _ hapi =>
      rw [hapi]
      obtain ⟨hpool, _, _, _, _, _, _, _, hdb | ⟨name, source, sourceType, hdb⟩⟩ :=
        hsurr.frame
      · exact hacc.of_eq hpool (by rw [hdb])
      · exact hacc.of_eq hpool (by rw [hdb]; rfl)
  | restart =>
      have hnone : ∀ r ∈ s.shared.db.bridgePorts.rows, ∀ p, p ∉ r.poolPort := fun r hr p hp => by
        rw [hC r hr] at hp
        cases hp
      refine ⟨ports.nodup, ?_, ?_, ?_, ?_, ?_, ?_⟩
      · exact fun p hp => by cases hp
      · exact fun r hr r' _ p hp => absurd hp (hnone r hr p)
      · exact fun p hp => by cases hp
      · exact fun r hr p hp => absurd hp (hnone r hr p)
      · exact fun p hp => by cases hp
      · exact fun p hp => by cases hp

/-- In a run whose steps keep the reservations, the database and the pool agree
between requests on the pool. -/
theorem portsReserved_of_reserving (ports : FreshPool) (localAddr : LocalAddr) (labels : List Label)
    (h : (kdcts ports localAddr).Meets Reserving (.boot .empty ports) labels) :
    (kdcts ports localAddr).Always PortsReserved (.boot .empty ports) labels := by
  have hinv : (kdcts ports localAddr).Always PoolInv (.boot .empty ports) labels :=
    Machine.always_of_meets (fun _ _ _ hI hC hstep => poolInv_step hI hC hstep)
      (poolInv_boot ports) h
  refine hinv.mono fun s hI hsettled => ?_
  have hacc := hI.accounted
  rw [ApiPc.poolWork_settled hsettled] at hacc
  exact hacc.reserved_of_settled

end Server

/-! ## A restart -/

/-- A bridge gets a port and the server restarts. -/
def restartWithPort : List Label :=
  Label.bridges "b" (samplePort 1 "/a") ++ [.restart]

/-- A bridge gets a port, loses it and goes. -/
def portComesAndGoes : List Label :=
  Label.bridges "b" (samplePort 1 "/a") ++
  [.request false (.deletePort 1 80)] ++ List.replicate 3 (.api false) ++
  [.request false (.deleteBridge 1)] ++ List.replicate 3 (.api false) ++ [.restart]

theorem portsReserved_of_reserving_portComesAndGoes :
    (kdcts samplePool fun _ => none).Always Server.PortsReserved (.boot .empty samplePool)
      portComesAndGoes :=
  Server.portsReserved_of_reserving _ _ _ (by decide)

theorem restartWithPort_frees :
    ¬(kdcts samplePool fun _ => none).Always Server.PortsReserved (.boot .empty samplePool)
      restartWithPort := by
  decide

end Kdct
