/-
The conflict check of a deploy against the registration of its routes
(`crates/kdcts/src/deploy.rs`).

The check resolves every path of the bridge, the registration looks for the exact
path and only in ports of mode `route`.  The two agree unless a path lies under a
registered one without being registered itself.
-/
import Kdct.Resolve
import Kdct.Server.Steps

namespace Kdct

/-- The paths the check looks up, whatever the modes of their ports. -/
def Plan.routePaths (plan : Plan) : List String := plan.ports.filterMap BridgePort.routePath

namespace RouteTable

/-- The registrations of a deploy, one after the other. -/
def setAll (t : RouteTable) : List (String × Port) → Except RouteError RouteTable
  | [] => .ok t
  | (path, port) :: rest => do
      let t' ← t.set path port
      setAll t' rest

theorem setAll_cons {t : RouteTable} {path : String} {port : Port} {rest : List (String × Port)} :
    t.setAll ((path, port) :: rest) = (t.set path port).bind fun t' => t'.setAll rest := rfl

theorem set_eq_ok_iff {t : RouteTable} {path : String} {port : Port} :
    (∃ t', t.set path port = .ok t') ↔
      isAdminPath path = false ∧ t.routes.lookup path = none := by
  unfold set
  by_cases hadmin : isAdminPath path = true
  · simp [hadmin]
  · by_cases hused : (t.routes.lookup path).isSome = true
    · rw [if_neg hadmin, if_pos hused]
      constructor
      · rintro ⟨t', ht'⟩
        cases ht'
      · rintro ⟨-, hnone⟩
        rw [hnone] at hused
        cases hused
    · rw [if_neg hadmin, if_neg hused]
      exact ⟨fun _ => ⟨by simpa using hadmin, by simpa using hused⟩, fun _ => ⟨_, rfl⟩⟩

/-- A list of registrations succeeds when its paths are distinct, free and not reserved. -/
theorem setAll_ok_iff {t : RouteTable} {l : List (String × Port)} :
    (∃ t', t.setAll l = .ok t') ↔
      (l.map Prod.fst).Nodup ∧ ∀ e ∈ l, isAdminPath e.1 = false ∧ t.routes.lookup e.1 = none := by
  induction l generalizing t with
  | nil =>
      refine ⟨fun _ => ⟨List.nodup_nil, ?_⟩, fun _ => ⟨t, rfl⟩⟩
      intro e he
      exact absurd he List.not_mem_nil
  | cons e rest ih =>
      obtain ⟨path, port⟩ := e
      rw [setAll_cons, List.map_cons, List.nodup_cons, List.forall_mem_cons]
      constructor
      · rintro ⟨t', ht'⟩
        cases hset : t.set path port with
        | error err =>
            rw [hset] at ht'
            cases ht'
        | ok t₁ =>
            rw [hset] at ht'
            obtain ⟨hnodup, hfree⟩ := ih.mp ⟨t', ht'⟩
            have hadded := (set_ok hset).2
            refine ⟨⟨?_, hnodup⟩, set_eq_ok_iff.mp ⟨t₁, hset⟩, fun e' he' => ?_⟩
            · intro hmem
              obtain ⟨e', he', rfl⟩ := List.mem_map.mp hmem
              have hnone := (hfree e' he').2
              rw [hadded, if_pos rfl] at hnone
              cases hnone
            · obtain ⟨hadmin, hnone⟩ := hfree e' he'
              rw [hadded] at hnone
              split at hnone
              · cases hnone
              · exact ⟨hadmin, hnone⟩
      · rintro ⟨⟨hnew, hnodup⟩, hhead, hrest⟩
        obtain ⟨t₁, hset⟩ := set_eq_ok_iff.mpr hhead
        rw [hset]
        refine ih.mpr ⟨hnodup, fun e' he' => ⟨(hrest e' he').1, ?_⟩⟩
        rw [(set_ok hset).2, if_neg ?_]
        · exact (hrest e' he').2
        · intro heq
          exact hnew (List.mem_map.mpr ⟨e', he', heq⟩)

/-- What is registered afterwards was there or is one of the registrations. -/
theorem setAll_lookup {t t' : RouteTable} {l : List (String × Port)} (h : t.setAll l = .ok t')
    (path : String) (port : Port) :
    t'.routes.lookup path = some port ↔
      t.routes.lookup path = some port ∨ (path, port) ∈ l := by
  induction l generalizing t with
  | nil =>
      obtain rfl := Except.ok.inj h
      simp
  | cons e rest ih =>
      obtain ⟨path₀, port₀⟩ := e
      rw [setAll_cons] at h
      cases hset : t.set path₀ port₀ with
      | error err =>
          rw [hset] at h
          cases h
      | ok t₁ =>
          rw [hset] at h
          obtain ⟨hfree, hadded⟩ := set_ok hset
          rw [ih h, hadded, List.mem_cons, ← or_assoc]
          refine or_congr_left ?_
          split
          · rename_i heq
            rw [heq, hfree, Prod.mk.injEq, Option.some.injEq]
            exact ⟨fun hp => .inr ⟨rfl, hp.symm⟩, fun hp =>
              (hp.resolve_left (Option.some_ne_none port).symm).2.symm⟩
          · rename_i hne
            exact ⟨.inl, fun hp => hp.resolve_right fun heq => hne (congrArg Prod.fst heq)⟩

/-- The path is, or lies under, a registered one. -/
def Covers (t : RouteTable) (path : String) : Prop :=
  ∃ route, (t.routes.lookup route).isSome ∧ startsWith path route = true

theorem resolve_isSome_iff {t : RouteTable} {path : String} :
    (t.resolve path).isSome ↔ t.Covers path := by
  constructor
  · intro h
    obtain ⟨port, hport⟩ := Option.isSome_iff_exists.mp h
    obtain ⟨route, hroute⟩ := longest_of_resolve hport
    exact ⟨route, by rw [hroute.registered]; rfl, hroute.matching⟩
  · rintro ⟨route, hroute, hpath⟩
    by_contra hnone
    rw [resolve_eq_none_iff.mp (by simpa using hnone) route hroute] at hpath
    cases hpath

end RouteTable

/-! ## The check and the registration -/

theorem Plan.routes_sublist (plan : Plan) :
    (plan.routes.map Prod.fst).Sublist plan.routePaths := by
  unfold Plan.routes Plan.routePaths
  induction plan.ports with
  | nil => exact List.Sublist.refl _
  | cons p ps ih =>
      rw [List.filterMap_cons, List.filterMap_cons]
      by_cases hmode : p.mode = "route"
      · rw [BridgePort.route, if_pos hmode]
        cases p.routePath with
        | none => exact ih
        | some path => exact ih.cons_cons path
      · rw [BridgePort.route, if_neg hmode]
        cases p.routePath with
        | none => exact ih
        | some path => exact ih.cons path

theorem Plan.mem_routePaths {plan : Plan} {e : String × Port} (he : e ∈ plan.routes) :
    e.1 ∈ plan.routePaths :=
  plan.routes_sublist.subset (List.mem_map_of_mem he)

namespace Shared

theorem conflict_isSome_iff {t : RouteTable} {plan : Plan} :
    (conflict t plan).isSome ↔ ∃ path ∈ plan.routePaths, t.Covers path := by
  rw [conflict, List.findSome?_isSome_iff, Plan.routePaths]
  constructor
  · rintro ⟨p, hp, hsome⟩
    cases hpath : p.routePath with
    | none =>
        rw [hpath] at hsome
        cases hsome
    | some path =>
        rw [hpath, Option.bind_some] at hsome
        refine ⟨path, List.mem_filterMap.mpr ⟨p, hp, hpath⟩, ?_⟩
        apply RouteTable.resolve_isSome_iff.mp
        by_contra hnone
        rw [if_neg hnone] at hsome
        cases hsome
  · rintro ⟨path, hmem, hcovers⟩
    obtain ⟨p, hp, hpath⟩ := List.mem_filterMap.mp hmem
    refine ⟨p, hp, ?_⟩
    rw [hpath, Option.bind_some, if_pos (RouteTable.resolve_isSome_iff.mpr hcovers)]
    rfl

theorem conflict_eq_none_iff {t : RouteTable} {plan : Plan} :
    conflict t plan = none ↔ ∀ path ∈ plan.routePaths, ¬t.Covers path := by
  rw [← Option.not_isSome_iff_eq_none, conflict_isSome_iff]
  push Not
  rfl

end Shared

theorem setAll_error_iff {t : RouteTable} {plan : Plan} (hnodup : plan.routePaths.Nodup)
    (hadmin : ∀ path ∈ plan.routePaths, isAdminPath path = false) :
    (∃ e, t.setAll plan.routes = .error e) ↔
      ∃ e ∈ plan.routes, (t.routes.lookup e.1).isSome := by
  have hok := @RouteTable.setAll_ok_iff t plan.routes
  constructor
  · rintro ⟨err, herr⟩
    by_contra hfree
    push Not at hfree
    obtain ⟨t', ht'⟩ := hok.mpr ⟨hnodup.sublist plan.routes_sublist, fun e he =>
      ⟨hadmin e.1 (Plan.mem_routePaths he), by simpa using hfree e he⟩⟩
    rw [herr] at ht'
    cases ht'
  · rintro ⟨e, he, hused⟩
    cases hset : t.setAll plan.routes with
    | error err => exact ⟨err, rfl⟩
    | ok t' =>
        rw [(hok.mp ⟨t', hset⟩).2 e he |>.2] at hused
        cases hused

/-! ## Deploys one after the other -/

/-- What a deploy makes of the table when nothing changes it between the check and
the registration. -/
def Plan.deployRoutes (t : RouteTable) (plan : Plan) : Except DeployError RouteTable :=
  match Shared.conflict t plan with
  | some path => .error (.routeInUse path)
  | none => (t.setAll plan.routes).mapError .route

def deployAll (t : RouteTable) : List Plan → Except DeployError RouteTable
  | [] => .ok t
  | plan :: rest => do
      let t' ← plan.deployRoutes t
      deployAll t' rest

/-- No path of the second connection lies under a route of the first. -/
def Plan.Clear (a b : Plan) : Prop :=
  ∀ e ∈ a.routes, ∀ path ∈ b.routePaths, startsWith path e.1 = false

instance Plan.decidableClear (a b : Plan) : Decidable (a.Clear b) :=
  inferInstanceAs (Decidable (∀ e ∈ a.routes, ∀ path ∈ b.routePaths, startsWith path e.1 = false))

/-- The connections can be deployed in every order and the order does not show in
the table. -/
structure OrderFree (plans : List Plan) : Prop where
  deploys : ∀ order, order.Perm plans → ∃ t, deployAll .new order = .ok t
  same : ∀ order order' t t', order.Perm plans → order'.Perm plans →
    deployAll .new order = .ok t → deployAll .new order' = .ok t' →
    ∀ path, t.routes.lookup path = t'.routes.lookup path

theorem deployAll_cons {t : RouteTable} {plan : Plan} {rest : List Plan} :
    deployAll t (plan :: rest) = (plan.deployRoutes t).bind fun t' => deployAll t' rest := rfl

theorem deployRoutes_ok {t t' : RouteTable} {plan : Plan} (h : plan.deployRoutes t = .ok t') :
    Shared.conflict t plan = none ∧ t.setAll plan.routes = .ok t' := by
  unfold Plan.deployRoutes at h
  split at h
  · cases h
  · rename_i hnone
    cases hset : t.setAll plan.routes with
    | error e =>
        rw [hset] at h
        cases h
    | ok u =>
        rw [hset] at h
        exact ⟨hnone, congrArg Except.ok (Except.ok.inj h)⟩

theorem deployRoutes_of_ok {t t' : RouteTable} {plan : Plan}
    (hnone : Shared.conflict t plan = none) (hset : t.setAll plan.routes = .ok t') :
    plan.deployRoutes t = .ok t' := by
  rw [Plan.deployRoutes, hnone, hset]
  rfl

theorem deployAll_lookup {t t' : RouteTable} {order : List Plan} (h : deployAll t order = .ok t')
    (path : String) (port : Port) :
    t'.routes.lookup path = some port ↔
      t.routes.lookup path = some port ∨ ∃ plan ∈ order, (path, port) ∈ plan.routes := by
  induction order generalizing t with
  | nil =>
      obtain rfl := Except.ok.inj h
      simp
  | cons plan rest ih =>
      rw [deployAll_cons] at h
      cases hdeploy : plan.deployRoutes t with
      | error e =>
          rw [hdeploy] at h
          cases h
      | ok t₁ =>
          rw [hdeploy] at h
          rw [ih h, RouteTable.setAll_lookup (deployRoutes_ok hdeploy).2, or_assoc]
          refine or_congr_right ?_
          rw [List.exists_mem_cons_iff]

/-- A deploy succeeds when the table covers none of its paths. -/
theorem exists_deployRoutes {t : RouteTable} {plan : Plan} (hnodup : plan.routePaths.Nodup)
    (hadmin : ∀ path ∈ plan.routePaths, isAdminPath path = false)
    (hfree : ∀ path ∈ plan.routePaths, ¬t.Covers path) :
    ∃ t', plan.deployRoutes t = .ok t' := by
  have hset : ∃ t', t.setAll plan.routes = .ok t' := by
    refine RouteTable.setAll_ok_iff.mpr ⟨hnodup.sublist plan.routes_sublist, fun e he => ?_⟩
    refine ⟨hadmin e.1 (Plan.mem_routePaths he), ?_⟩
    by_contra hused
    exact hfree e.1 (Plan.mem_routePaths he)
      ⟨e.1, Option.isSome_iff_ne_none.mpr hused, startsWith_self e.1⟩
  obtain ⟨t', ht'⟩ := hset
  exact ⟨t', deployRoutes_of_ok (Shared.conflict_eq_none_iff.mpr hfree) ht'⟩

theorem exists_deployAll {t : RouteTable} {order : List Plan}
    (hnodup : ∀ plan ∈ order, plan.routePaths.Nodup)
    (hadmin : ∀ plan ∈ order, ∀ path ∈ plan.routePaths, isAdminPath path = false)
    (hclear : order.Pairwise Plan.Clear)
    (hfree : ∀ plan ∈ order, ∀ path ∈ plan.routePaths, ¬t.Covers path) :
    ∃ t', deployAll t order = .ok t' := by
  induction order generalizing t with
  | nil => exact ⟨t, rfl⟩
  | cons plan rest ih =>
      rw [List.forall_mem_cons] at hnodup hadmin hfree
      obtain ⟨hhead, htail⟩ := List.pairwise_cons.mp hclear
      obtain ⟨t₁, ht₁⟩ := exists_deployRoutes hnodup.1 hadmin.1 hfree.1
      have hfree₁ : ∀ plan' ∈ rest, ∀ path ∈ plan'.routePaths, ¬t₁.Covers path := by
        rintro plan' hplan' path hpath ⟨route, hroute, hstarts⟩
        obtain ⟨port, hport⟩ := Option.isSome_iff_exists.mp hroute
        rcases (RouteTable.setAll_lookup (deployRoutes_ok ht₁).2 route port).mp hport with
          hold | hadded
        · exact hfree.2 plan' hplan' path hpath ⟨route, by rw [hold]; rfl, hstarts⟩
        · rw [hhead plan' hplan' (route, port) hadded path hpath] at hstarts
          cases hstarts
      obtain ⟨t', ht'⟩ := ih hnodup.2 hadmin.2 htail hfree₁
      exact ⟨t', by rw [deployAll_cons, ht₁]; exact ht'⟩

theorem not_covers_new (path : String) : ¬RouteTable.new.Covers path := by
  rintro ⟨route, hroute, -⟩
  cases hroute

/-- The second of two deploys goes through only when its paths are clear of the first. -/
theorem clear_of_deployAll {t t' : RouteTable} {a b : Plan} {rest : List Plan}
    (h : deployAll t (a :: b :: rest) = .ok t') : a.Clear b := by
  rw [deployAll_cons] at h
  cases ha : a.deployRoutes t with
  | error e =>
      rw [ha] at h
      cases h
  | ok t₁ =>
      rw [ha] at h
      change deployAll t₁ (b :: rest) = .ok t' at h
      rw [deployAll_cons] at h
      cases hb : b.deployRoutes t₁ with
      | error e =>
          rw [hb] at h
          cases h
      | ok t₂ =>
          intro e he path hpath
          by_contra hstarts
          have hlookup : t₁.routes.lookup e.1 = some e.2 :=
            (RouteTable.setAll_lookup (deployRoutes_ok ha).2 e.1 e.2).mpr (.inr he)
          exact Shared.conflict_eq_none_iff.mp (deployRoutes_ok hb).1 path hpath
            ⟨e.1, by rw [hlookup]; rfl, by simpa using hstarts⟩

theorem orderFree_iff {plans : List Plan} (hnodup : ∀ plan ∈ plans, plan.routePaths.Nodup)
    (hadmin : ∀ plan ∈ plans, ∀ path ∈ plan.routePaths, isAdminPath path = false) :
    OrderFree plans ↔ plans.Pairwise fun a b => a.Clear b ∧ b.Clear a := by
  constructor
  · intro h
    refine List.pairwise_iff_forall_sublist.mpr fun {a b} hab => ?_
    obtain ⟨rest, hperm⟩ := hab.exists_perm_append
    obtain ⟨_, hab'⟩ := h.deploys (a :: b :: rest) hperm.symm
    obtain ⟨_, hba'⟩ := h.deploys (b :: a :: rest) ((List.Perm.swap a b rest).trans hperm.symm)
    exact ⟨clear_of_deployAll hab', clear_of_deployAll hba'⟩
  · intro h
    refine ⟨fun order hperm => ?_, fun order order' t t' hperm hperm' ht ht' path => ?_⟩
    · refine exists_deployAll (fun plan hplan => hnodup plan (hperm.mem_iff.mp hplan))
        (fun plan hplan => hadmin plan (hperm.mem_iff.mp hplan)) ?_
        fun _ _ path _ => not_covers_new path
      exact (hperm.symm.pairwise h And.symm).imp And.left
    · refine Option.ext fun port => ?_
      rw [deployAll_lookup ht, deployAll_lookup ht']
      refine or_congr_right (exists_congr fun plan => and_congr_left' ?_)
      rw [hperm.mem_iff, hperm'.mem_iff]

/-- The check agrees with the registration unless a path lies under a registered
one and none is itself registered; connections deploy in every order exactly when no path
of one lies under a route of another. -/
theorem conflict_agrees_iff (t : RouteTable) (plan : Plan) (plans : List Plan) :
    (plan.routePaths.Nodup → (∀ path ∈ plan.routePaths, isAdminPath path = false) →
      (((Shared.conflict t plan).isSome ↔ ∃ e, t.setAll plan.routes = .error e) ↔
        ((∃ path ∈ plan.routePaths, t.Covers path) →
          ∃ e ∈ plan.routes, (t.routes.lookup e.1).isSome))) ∧
    ((plans.flatMap Plan.routePaths).Nodup →
      (∀ path ∈ plans.flatMap Plan.routePaths, isAdminPath path = false) →
      (OrderFree plans ↔ plans.Pairwise fun a b => a.Clear b ∧ b.Clear a)) := by
  constructor
  · intro hnodup hadmin
    rw [Shared.conflict_isSome_iff, setAll_error_iff hnodup hadmin]
    refine ⟨fun h => h.mp, fun h => ⟨h, fun ⟨e, he, hused⟩ => ?_⟩⟩
    exact ⟨e.1, Plan.mem_routePaths he, e.1, hused, startsWith_self e.1⟩
  · intro hnodup hadmin
    refine orderFree_iff (fun plan hplan => ?_) fun plan hplan path hpath => ?_
    · exact (List.nodup_flatMap.mp hnodup).1 plan hplan
    · exact hadmin path (List.mem_flatMap.mpr ⟨plan, hplan, hpath⟩)

/-- A plan of one port. -/
def onePath (id : RowId) (path : String) (port : Port) : Plan where
  connectionId := id
  connectionName := path
  bridgeId := id
  node :=
    { id := 1, hostname := "h", portRangeStart := 30000, portRangeEnd := 30010, status := .online,
      authDigest := none, nodeUuid := "u" }
  image := { id := 1, name := "web", source := "nginx", sourceType := "docker" }
  ports :=
    [{ id := id, bridgeId := id, containerPort := 80, mode := "route", routePath := some path,
       protocols := none, poolPort := some port }]

/-- With `/` registered the check refuses `/api`, which the table would take, and `/`
and `/api` can only be deployed in one of their orders. -/
theorem conflict_refuses_nested :
    (∃ t, RouteTable.new.set "/" 9000 = .ok t ∧
      ¬((Shared.conflict t (onePath 2 "/api" 9001)).isSome ↔
        ∃ e, t.setAll (onePath 2 "/api" 9001).routes = .error e)) ∧
    ([onePath 1 "/" 9000, onePath 2 "/api" 9001].flatMap Plan.routePaths).Nodup ∧
    (∀ path ∈ [onePath 1 "/" 9000, onePath 2 "/api" 9001].flatMap Plan.routePaths,
      isAdminPath path = false) ∧
    ¬OrderFree [onePath 1 "/" 9000, onePath 2 "/api" 9001] := by
  refine ⟨⟨_, rfl, fun h => ?_⟩, by decide, by decide, fun h => ?_⟩
  · obtain ⟨e, he⟩ := h.mp (by decide)
    change Except.ok _ = Except.error e at he
    cases he
  · exact absurd ((orderFree_iff (by decide) (by decide)).mp h) (by decide)

theorem conflict_agrees_disjoint :
    (∃ t, RouteTable.new.set "/grafana" 9000 = .ok t ∧
      ((Shared.conflict t (onePath 2 "/api" 9001)).isSome ↔
        ∃ e, t.setAll (onePath 2 "/api" 9001).routes = .error e)) ∧
    OrderFree [onePath 1 "/grafana" 9000, onePath 2 "/api" 9001] := by
  refine ⟨⟨_, rfl, ?_⟩, ?_⟩
  · refine ((conflict_agrees_iff _ (onePath 2 "/api" 9001) []).1 (by decide) (by decide)).mpr ?_
    exact fun h => absurd (Shared.conflict_isSome_iff.mpr h) (by decide)
  · exact ((conflict_agrees_iff .new (onePath 2 "/api" 9001) _).2 (by decide) (by decide)).mpr
      (by decide)

/-! ## The steps of a deploy -/

namespace Shared

/-- A deploy that moves on by itself until it leaves the loop over its ports. -/
def registerRun (call : CallId) (id : RowId) :
    Nat → Shared → DeployPc → Option (Shared × DeployNext)
  | 0, _, _ => none
  | n + 1, s, pc =>
      (s.deployStep call id false pc).bind fun (t, next) =>
        match next with
        | .goto (.register d rest) => registerRun call id n t (.register d rest)
        | .goto (.push d p rest) => registerRun call id n t (.push d p rest)
        | _ => some (t, next)

theorem assignPorts_length (clientPort : Port) (ports : List BridgePort) :
    (Plan.assignPorts clientPort ports).length = ports.length := by
  induction ports generalizing clientPort with
  | nil => rfl
  | cons p ps ih => exact congrArg Nat.succ (ih _)

theorem forwards_fst (plan : Plan) : plan.forwards.map Prod.fst = plan.ports := by
  apply List.map_fst_zip
  rw [Plan.clientPorts, Plan.portMap, List.length_map, assignPorts_length]

def routesOf (rest : List (BridgePort × Port)) : List (String × Port) :=
  rest.filterMap fun p => p.1.route.map fun path => (path, p.1.poolPort.getD 0)

theorem routesOf_forwards (plan : Plan) : routesOf plan.forwards = plan.routes := by
  rw [Plan.routes, ← forwards_fst plan, List.filterMap_map]
  rfl

theorem routesOf_cons (p : BridgePort) (clientPort : Port) (rest : List (BridgePort × Port)) :
    routesOf ((p, clientPort) :: rest) =
      match p.route with
      | some path => (path, p.poolPort.getD 0) :: routesOf rest
      | none => routesOf rest := by
  rw [routesOf, List.filterMap_cons]
  cases p.route <;> rfl

/-- The end of the loop over the ports: the routes are registered in turn up to the
first that is taken. -/
def Registers (call : CallId) (id : RowId) (s : Shared) (pc : DeployPc) (d : Deploy)
    (table : Except RouteError RouteTable) : Prop :=
  ∃ n t next, registerRun call id n s pc = some (t, next) ∧
    match table with
    | .ok routes => t.routes = routes ∧ next = .goto (.finish d)
    | .error e => next = .exit (.error (.route e))

theorem Registers.step {call : CallId} {id : RowId} {s t : Shared} {pc pc' : DeployPc}
    {d : Deploy} {table : Except RouteError RouteTable} (h : Registers call id t pc' d table)
    (hrun : ∀ n, registerRun call id (n + 1) s pc = registerRun call id n t pc') :
    Registers call id s pc d table := by
  obtain ⟨n, u, next, hn, hend⟩ := h
  exact ⟨n + 1, u, next, (hrun n).trans hn, hend⟩

/-- The push of a port's sender is one step of the loop and keeps the table. -/
theorem Registers.push {call : CallId} {id : RowId} {s : Shared} {d : Deploy} {p : BridgePort}
    {clientPort : Port} {rest : List (BridgePort × Port)} {table : Except RouteError RouteTable}
    (hlock : s.forwardsLock = none)
    (h : ∀ t : Shared, t.routes = s.routes → t.forwardsLock = none →
      Registers call id t (.register d rest) d table) :
    Registers call id s (.push d (p, clientPort) rest) d table := by
  refine (h ({ s with forwards := s.forwards ++ [(p.poolPort.getD 0, d.sender p)] }.note
    (.forwarded d (p.poolPort.getD 0))) rfl hlock).step fun n => ?_
  rw [registerRun, deployStep, hlock]
  rfl

theorem registers_rest (call : CallId) (id : RowId) (d : Deploy) (rest : List (BridgePort × Port))
    (s : Shared) (hlock : s.forwardsLock = none) :
    Registers call id s (.register d rest) d (s.routes.setAll (routesOf rest)) := by
  induction rest generalizing s with
  | nil => exact ⟨1, { s with tableLock := none }, .goto (.finish d), rfl, rfl, rfl⟩
  | cons p rest ih =>
      obtain ⟨p, clientPort⟩ := p
      rw [routesOf_cons]
      cases hroute : p.route with
      | none =>
          dsimp only
          obtain ⟨loops, nextLoop, hframe⟩ := s.spawnLoops_frame d p clientPort
          have hpush : Registers call id (s.spawnLoops d p clientPort)
              (.push d (p, clientPort) rest) d (s.routes.setAll (routesOf rest)) := by
            refine Registers.push (by rw [hframe]; exact hlock) fun t ht hfree => ?_
            have htable : t.routes = s.routes := by rw [ht, hframe]
            exact htable ▸ ih t hfree
          refine hpush.step fun n => ?_
          rw [registerRun, deployStep, hroute]
          rfl
      | some path =>
          dsimp only
          rw [RouteTable.setAll_cons]
          cases hset : s.routes.set path (p.poolPort.getD 0) with
          | error e =>
              refine ⟨1, { s with tableLock := none }, .exit (.error (.route e)), ?_, rfl⟩
              rw [registerRun, deployStep, hroute]
              dsimp only
              rw [hset]
              rfl
          | ok table =>
              let u := ({ s with routes := table }.note (.routed d path (p.poolPort.getD 0)))
              obtain ⟨loops, nextLoop, hframe⟩ := u.spawnLoops_frame d p clientPort
              have hpush : Registers call id (u.spawnLoops d p clientPort)
                  (.push d (p, clientPort) rest) d (table.setAll (routesOf rest)) := by
                refine Registers.push (by rw [hframe]; exact hlock) fun t ht hfree => ?_
                have htable : t.routes = table := by rw [ht, hframe]; rfl
                exact htable ▸ ih t hfree
              refine hpush.step fun n => ?_
              rw [registerRun, deployStep, hroute]
              dsimp only
              rw [hset]
              rfl

/-- The steps of a deploy that finds the locks free check and register as `deployRoutes`
says. -/
theorem deploy_registers (call : CallId) (id : RowId) (s : Shared) (d : Deploy)
    (hlock : s.tableLock = none) (hforwards : s.forwardsLock = none) :
    (s.deployStep call id false (.conflicts d.plan) =
      match conflict s.routes d.plan with
      | some path => some (s, .exit (.error (.routeInUse path)))
      | none => some (s, .goto (.registry d.plan))) ∧
    ∃ t, s.deployStep call id false (.lock d) = some (t, .goto (.register d d.plan.forwards)) ∧
      Registers call id t (.register d d.plan.forwards) d (s.routes.setAll d.plan.routes) := by
  constructor
  · rw [deployStep, hlock]
    rfl
  · refine ⟨{ s with tableLock := some (.call call) }, ?_, ?_⟩
    · rw [deployStep, hlock]
      rfl
    · rw [← routesOf_forwards]
      exact registers_rest call id d d.plan.forwards _ hforwards

end Shared

end Kdct
