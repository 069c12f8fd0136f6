/-
Whether a deploy that fails leaves anything behind.

`deploy_connection` returns early from many places, and the only thing it ever takes
back is a waiter.  Beside the server this file keeps, for every call, what the stores
would hold without it: what other tasks have written, and where only the call has
written, what was there before.  A deploy that fails is all or nothing when the stores
hold just that.
-/
import Kdct.Server.Exclusive
import Kdct.Server.Footprints

namespace Kdct

/-! ## The stores without a call -/

/-- The stores a deploy changes. -/
@[ext] structure Stores where
  routes : String → Option Port
  tracker : DeploymentKey → Option ActiveDeployment
  forwards : List (Port × Sender)
  pending : ChannelId × String → Option CallId
  connections : RowId → Option Connection

def Shared.stores (s : Shared) : Stores where
  routes := s.routes.routes.lookup
  tracker := s.tracker.lookup
  forwards := s.forwards
  pending p := (s.pending p.1).lookup p.2
  connections := s.db.connections.find?

/-- Takes the places that differ between `old` and `new` from `new` and the others from
`without`. -/
def follow {α β : Type} [DecidableEq β] (old new without : α → β) (a : α) : β :=
  if new a = old a then without a else new a

/-- The stores without a call after a step of another task.  What a place gets in the
step it gets without the call as well, and a sender belongs to the call that made it. -/
def Stores.follow (call : CallId) (old new without : Stores) : Stores where
  routes := Kdct.follow old.routes new.routes without.routes
  tracker := Kdct.follow old.tracker new.tracker without.tracker
  forwards := new.forwards.filter fun f => f.2.call ≠ call
  pending := Kdct.follow old.pending new.pending without.pending
  connections := Kdct.follow old.connections new.connections without.connections

/-- A server, and for every call the stores as they would be without it. -/
structure Shadowed where
  server : Server
  without : CallId → Stores

/-- A server with the stores without each call. -/
def shadows (ports : FreshPool) (localAddr : LocalAddr) : Machine Shadowed Label where
  init := { server := .boot .empty ports
            without := fun _ => (Server.boot .empty ports).shared.stores }
  step e label :=
    (Server.step ports localAddr e.server label).map fun t =>
      { server := t
        without := fun call =>
          if (e.server.movesDeploy label).map Prod.fst = some call then e.without call
          else .follow call e.server.shared.stores t.shared.stores (e.without call) }

def Event.failed? : Event → Option CallId
  | .returned call _ (.error _) => some call
  | _ => none

/-- The calls of `deploy_connection` that have returned an error. -/
def Shared.failed (s : Shared) : List CallId := s.log.filterMap Event.failed?

/-- Nothing a deploy puts into the stores is in them. -/
structure Shared.Clear (s : Shared) (d : Deploy) : Prop where
  entries : ∀ e ∈ d.plan.entries, e ∉ s.entries
  forwards : ∀ f ∈ s.forwards, f.2.call ≠ d.call
  pending : (s.pending d.channel).lookup d.plan.containerName ≠ some d.call

instance (s : Shared) (d : Deploy) : Decidable (s.Clear d) :=
  decidable_of_iff
    ((∀ e ∈ d.plan.entries, e ∉ s.entries) ∧ (∀ f ∈ s.forwards, f.2.call ≠ d.call) ∧
      (s.pending d.channel).lookup d.plan.containerName ≠ some d.call)
    ⟨fun h => ⟨h.1, h.2.1, h.2.2⟩, fun h => ⟨h.1, h.2, h.3⟩⟩

namespace Shadowed

/-- A call that returned an error has changed nothing. -/
def AllOrNothing (e : Shadowed) : Prop :=
  ∀ call ∈ e.server.shared.failed, e.server.shared.stores = e.without call

/-- A deploy fails only where it leaves nothing.  A send fails without the deploy's
waiter in the map, a deploy that gives up finds no waiter under its name or its own,
which displaced none, and a route is refused and the last write fails only when the
deploy's entries have been removed. -/
def LeavesNothing (e : Shadowed) (label : Label) : Prop :=
  match e.server.movesDeploy label with
  | some (call, _, .send d _) =>
      d.channel ∈ e.server.shared.closed →
        (e.server.shared.pending d.channel).lookup d.plan.containerName ≠ some call
  | some (call, _, .giveUp d _) =>
      (e.server.shared.pending d.channel).lookup d.plan.containerName = none ∨
        (e.server.shared.pending d.channel).lookup d.plan.containerName = some call ∧
          (e.without call).pending (d.channel, d.plan.containerName) = none
  | some (_, _, .register d ((p, _) :: _)) =>
      (p.route.all fun path =>
        (e.server.shared.routes.set path (p.poolPort.getD 0)).isOk) = false →
          e.server.shared.Clear d
  | some (_, id, .finish d) =>
      (label.fault || (e.server.shared.db.updateConnectionNode id (some d.plan.node.id) .deployed
        (some d.plan.containerName)).isNone) = true → e.server.shared.Clear d
  | _ => True

instance (e : Shadowed) (label : Label) : Decidable (e.LeavesNothing label) := by
  unfold LeavesNothing
  rcases e.server.movesDeploy label with _ | ⟨call, id, pc⟩
  · exact .isTrue trivial
  · rcases pc with _ | _
    case send d env => dsimp only; infer_instance
    case giveUp d err => dsimp only; infer_instance
    case register d rest =>
      rcases rest with _ | ⟨⟨p, clientPort⟩, rest⟩ <;> dsimp only <;> infer_instance
    case finish d => dsimp only; infer_instance
    all_goals exact .isTrue trivial

end Shadowed

/-! ## Following the other tasks -/

section Following

variable {α β : Type} [DecidableEq β] {old new without : α → β}

theorem follow_same : follow old new old = new := by
  funext a
  unfold follow
  split
  · rename_i h
    exact h.symm
  · rfl

/-- A place that has what it has without the call, or else something of a kind, goes on
to. -/
theorem follow_or {P : β → Prop} {a : α} (h : old a = without a ∨ P (old a)) :
    new a = follow old new without a ∨ P (new a) := by
  unfold follow
  split
  · rename_i ha
    rwa [ha]
  · exact .inl rfl

theorem follow_ne {a : α} {b : β} (hnew : new a = b → old a = b) (h : without a ≠ b) :
    follow old new without a ≠ b := by
  unfold follow
  split
  · exact h
  · rename_i ha
    intro hb
    exact ha (hb.trans (hnew hb).symm)

end Following

theorem Stores.follow_same {call : CallId} {S T : Stores}
    (h : ∀ f ∈ T.forwards, f.2.call ≠ call) : Stores.follow call S T S = T := by
  have hforwards : T.forwards.filter (fun f => f.2.call ≠ call) = T.forwards :=
    List.filter_eq_self.mpr fun f hf => decide_eq_true (h f hf)
  unfold follow
  rw [Kdct.follow_same, Kdct.follow_same, Kdct.follow_same, Kdct.follow_same, hforwards]

/-! ## What a deploy in progress has changed -/

/-- The stores and the stores without the call differ at most where the deploy has put
something by this point. -/
structure Stores.Marked (S W : Stores) (call : CallId) (pc : DeployPc) : Prop where
  routes : ∀ path, S.routes path = W.routes path ∨
    ∃ d port, pc.recorded? = some d ∧ S.routes path = some port ∧
      .route path port ∈ d.plan.entries
  tracker : ∀ key, S.tracker key = W.tracker key ∨
    ∃ d dep, pc.recorded? = some d ∧ S.tracker key = some dep ∧ .record key dep ∈ d.plan.entries
  forwards : W.forwards = S.forwards.filter fun f => f.2.call ≠ call
  pushed : pc.recorded? = none → ∀ f ∈ S.forwards, f.2.call ≠ call
  pending : ∀ p, S.pending p = W.pending p ∨
    ∃ d, pc.inserted? = some d ∧ S.pending p = some call ∧ p = (d.channel, d.plan.containerName)
  connections : S.connections = W.connections
  unseen : ∀ p, W.pending p ≠ some call

namespace Stores.Marked

variable {S T W : Stores} {call : CallId} {pc pc' : DeployPc}

theorem followed (h : S.Marked W call pc)
    (hforwards : ∀ f ∈ T.forwards, f.2.call = call → f ∈ S.forwards)
    (hpending : ∀ p, T.pending p = some call → S.pending p = some call) :
    T.Marked (.follow call S T W) call pc where
  routes path := follow_or (P := fun r => ∃ d port, pc.recorded? = some d ∧ r = some port ∧
    Entry.route path port ∈ d.plan.entries) (h.routes path)
  tracker key := follow_or (P := fun r => ∃ d dep, pc.recorded? = some d ∧ r = some dep ∧
    Entry.record key dep ∈ d.plan.entries) (h.tracker key)
  forwards := rfl
  pushed hnone f hf hcall := h.pushed hnone f (hforwards f hf hcall) hcall
  pending p := follow_or (P := fun r => ∃ d, pc.inserted? = some d ∧ r = some call ∧
    p = (d.channel, d.plan.containerName)) (h.pending p)
  connections := by
    show T.connections = Kdct.follow S.connections T.connections W.connections
    rw [← h.connections, Kdct.follow_same]
  unseen p := follow_ne (hpending p) (h.unseen p)

/-- Where a deploy goes on without a change to the stores. -/
theorem goto (h : S.Marked W call pc) (hrecorded : pc'.recorded? = pc.recorded?)
    (hinserted : ∀ d, pc.inserted? = some d → pc'.inserted? = some d) : S.Marked W call pc' := by
  refine ⟨?_, ?_, h.forwards, ?_, fun p => ?_, h.connections, h.unseen⟩
  · rw [hrecorded]
    exact h.routes
  · rw [hrecorded]
    exact h.tracker
  · rw [hrecorded]
    exact h.pushed
  · refine (h.pending p).imp_right ?_
    rintro ⟨d, hd, hp⟩
    exact ⟨d, hinserted d hd, hp⟩

/-- What a deploy has put into the stores is not there any more. -/
theorem eq_without {s : Shared} (h : s.stores.Marked W call pc)
    (hrecorded : ∀ d, pc.recorded? = some d → s.Clear d ∧ d.call = call)
    (hinserted : ∀ d, pc.inserted? = some d →
      (s.pending d.channel).lookup d.plan.containerName ≠ some call) : s.stores = W := by
  have hforwards : ∀ f ∈ s.forwards, f.2.call ≠ call := by
    cases hd : pc.recorded? with
    | none => exact h.pushed hd
    | some d =>
        obtain ⟨hclear, rfl⟩ := hrecorded d hd
        exact hclear.forwards
  refine Stores.ext (funext fun path => ?_) (funext fun key => ?_) ?_ (funext fun p => ?_)
    h.connections
  · rcases h.routes path with heq | ⟨d, port, hd, hroute, hentry⟩
    · exact heq
    · exact absurd (Shared.mem_entries_route.mpr hroute) ((hrecorded d hd).1.entries _ hentry)
  · rcases h.tracker key with heq | ⟨d, dep, hd, hrecord, hentry⟩
    · exact heq
    · exact absurd (Shared.mem_entries_record.mpr hrecord) ((hrecorded d hd).1.entries _ hentry)
  · rw [h.forwards]
    exact (List.filter_eq_self.mpr fun f hf => decide_eq_true (hforwards f hf)).symm
  · rcases h.pending p with heq | ⟨d, hd, hcall, rfl⟩
    · exact heq
    · exact absurd hcall (hinserted d hd)

end Stores.Marked

namespace Shared

variable {s t : Shared} {W : Stores} {call : CallId} {id : RowId} {fault : Bool}

/-- Changing what one name of one channel maps to changes one place of the maps. -/
theorem pending_update {pending : ChannelId → HashMap String CallId} {ch : ChannelId}
    {name : String} {m : HashMap String CallId} {v : Option CallId}
    (hm : ∀ k, m.lookup k = if k = name then v else (pending ch).lookup k)
    (p : ChannelId × String) :
    (Function.update pending ch m p.1).lookup p.2 =
      Function.update (fun q => (pending q.1).lookup q.2) (ch, name) v p := by
  obtain ⟨ch', name'⟩ := p
  by_cases hch : ch' = ch
  · subst hch
    show (Function.update pending ch' m ch').lookup name' = _
    rw [Function.update_self, hm]
    by_cases hname : name' = name
    · rw [if_pos hname, hname, Function.update_self]
    · rw [if_neg hname, Function.update_of_ne (by simp [hname])]
  · rw [Function.update_of_ne hch, Function.update_of_ne (by simp [hch])]

theorem insertWaiter_stores (ch : ChannelId) (name : String) :
    (s.insertWaiter ch name call).stores =
      { s.stores with pending := Function.update s.stores.pending (ch, name) (some call) } := by
  have hmap : (s.insertWaiter ch name call).pending = _ := insertWaiter_map
  obtain ⟨pending, waiters, log, hframe⟩ := s.insertWaiter_frame ch name call
  rw [hframe] at hmap ⊢
  obtain rfl : pending = _ := hmap
  exact Stores.ext rfl rfl rfl
    (funext (pending_update fun k => HashMap.lookup_insert_eq _ _ _ _)) rfl

theorem removeWaiter_stores (ch : ChannelId) (name : String) :
    (s.removeWaiter ch name call).stores =
      { s.stores with pending := Function.update s.stores.pending (ch, name) none } := by
  unfold removeWaiter
  split
  · rename_i other _
    obtain ⟨waiters, log, hframe⟩ := s.dropSender_frame other (.removed other call)
    rw [hframe]
    exact Stores.ext rfl rfl rfl
      (funext (pending_update fun k => HashMap.lookup_erase_eq _ _ _)) rfl
  · rename_i hnone
    refine Stores.ext rfl rfl rfl ?_ rfl
    exact (Function.update_eq_self_iff.mpr hnone.symm).symm

/-! ## The steps of a deploy -/

theorem spawnLoops_stores (d : Deploy) (p : BridgePort) (clientPort : Port) :
    (s.spawnLoops d p clientPort).stores = s.stores := by
  obtain ⟨_, _, hframe⟩ := s.spawnLoops_frame d p clientPort
  rw [hframe]
  rfl

theorem DeployStep.marked {pc next : DeployPc} (h : DeployStep s call id fault pc t (.goto next))
    (hb : pc.Belongs call id) (hends : pc.Ends) (hm : s.stores.Marked W call pc) :
    t.stores.Marked W call next := by
  have hgoto : t.stores = s.stores → next.recorded? = pc.recorded? →
      (∀ d, pc.inserted? = some d → next.inserted? = some d) → t.stores.Marked W call next :=
    fun hstores hrecorded hinserted => hstores ▸ hm.goto hrecorded hinserted
  cases h
  case insert d env =>
    rw [insertWaiter_stores]
    refine ⟨fun path => hm.routes path, fun key => hm.tracker key, hm.forwards, hm.pushed,
      fun p => ?_, hm.connections, hm.unseen⟩
    by_cases hp : p = (d.channel, d.plan.containerName)
    · subst hp
      exact .inr ⟨d, rfl, Function.update_self .., rfl⟩
    · have hold : s.stores.pending p = W.pending p :=
        (hm.pending p).resolve_right fun ⟨_, hd, _⟩ => by cases hd
      exact .inl ((Function.update_of_ne hp ..).trans hold)
  case recorded d hlock =>
    refine ⟨fun path => ?_, fun key => ?_, hm.forwards, fun hnone => (nomatch hnone),
      fun p => hm.pending p, hm.connections, hm.unseen⟩
    · exact .inl ((hm.routes path).resolve_right fun ⟨_, _, hd, _⟩ => by cases hd)
    · show (s.tracker.insert d.plan.key d.plan.deployment).lookup key = _ ∨ ∃ d' dep, _ ∧
        (s.tracker.insert d.plan.key d.plan.deployment).lookup key = some dep ∧ _
      rw [HashMap.lookup_insert_eq]
      by_cases hkey : key = d.plan.key
      · rw [if_pos hkey, hkey]
        exact .inr ⟨d, _, rfl, rfl, List.mem_cons_self⟩
      · rw [if_neg hkey]
        exact .inl ((hm.tracker key).resolve_right fun ⟨_, _, hd, _⟩ => by cases hd)
  case routed d p clientPort rest path routes hroute hset =>
    rw [spawnLoops_stores]
    refine ⟨fun q => ?_, fun key => hm.tracker key, hm.forwards, fun hnone => (nomatch hnone),
      fun p => hm.pending p, hm.connections, hm.unseen⟩
    show routes.routes.lookup q = _ ∨ ∃ d' port, _ ∧ routes.routes.lookup q = some port ∧ _
    rw [(RouteTable.set_ok hset).2]
    by_cases hq : q = path
    · rw [if_pos hq, hq]
      refine .inr ⟨d, _, rfl, rfl, List.mem_cons_of_mem _ (List.mem_map.mpr ⟨(path, _), ?_, rfl⟩)⟩
      have hp : p ∈ d.plan.ports :=
        (List.of_mem_zip (hends.subset List.mem_cons_self)).1
      exact List.mem_filterMap.mpr ⟨p, hp, by rw [hroute]; rfl⟩
    · rw [if_neg hq]
      exact hm.routes q
  case unrouted d p clientPort rest hroute =>
    exact hgoto (spawnLoops_stores ..) rfl fun _ hd => hd
  case pushed d p clientPort rest _ =>
    refine ⟨fun path => hm.routes path, fun key => hm.tracker key, ?_, fun hnone => (nomatch hnone),
      fun p => hm.pending p, hm.connections, hm.unseen⟩
    rw [hm.forwards]
    show _ = (s.forwards ++ [(p.poolPort.getD 0, d.sender p)]).filter _
    rw [List.filter_append, List.filter_cons_of_neg, List.filter_nil, List.append_nil]
    · rfl
    · show ¬decide (d.call ≠ call) = true
      simp [hb.1]
  case checked | connection | node | image | ports | conflicts | registry | envs =>
    exact hgoto rfl rfl fun _ hd => by cases hd
  all_goals exact hgoto rfl rfl fun _ hd => hd

/-- The last step of a deploy fails with the write. -/
theorem deployStep_finish_fails {d : Deploy} {e : DeployError}
    (h : s.deployStep call id fault (.finish d) = some (t, .exit (.error e))) :
    (fault || (s.db.updateConnectionNode id (some d.plan.node.id) .deployed
      (some d.plan.containerName)).isNone) = true := by
  cases fault with
  | true => rfl
  | false =>
      simp only [deployStep, Bool.false_eq_true, if_false] at h
      split at h
      · rename_i hnone
        rw [hnone]
        rfl
      · cases h

/-- Only the end of a deploy that fails adds to the failed calls. -/
theorem DeployStep.failed {pc : DeployPc} {next : DeployNext}
    (h : DeployStep s call id fault pc t next) : t.failed = s.failed := by
  unfold Shared.failed
  cases h
  case insert d env => exact insertWaiter_log _ s _ _ _ fun _ => rfl
  case gaveUp d e => exact removeWaiter_log _ s _ _ _ fun _ => rfl
  case routed d p clientPort rest path routes _ _ =>
    rw [spawnLoops_log]
    rfl
  case unrouted d p clientPort rest _ => rw [spawnLoops_log]
  all_goals rfl

theorem mem_failed_endCall {pc : DeployPc} {next : DeployNext}
    (h : DeployStep s call id fault pc t next) {c : CallId}
    (hc : c ∈ (t.endCall call id next).failed) :
    c ∈ s.failed ∨ c = call ∧ ∃ e, next = .exit (.error e) := by
  rw [← h.failed]
  cases next with
  | exit result =>
      cases result with
      | error e =>
          rcases List.mem_cons.mp hc with rfl | hc
          · exact .inr ⟨rfl, e, rfl⟩
          · exact .inl hc
      | ok text => exact .inl hc
  | _ => exact .inl hc

end Shared

namespace Shadowed

variable {e : Shadowed} {label : Label} {call : CallId} {id : RowId} {pc : DeployPc} {t : Shared}

/-- A deploy that fails where it leaves nothing has changed nothing. -/
theorem LeavesNothing.stores {err : DeployError} (hC : e.LeavesNothing label)
    (hmoves : e.server.movesDeploy label = some (call, id, pc))
    (hstep : e.server.shared.deployStep call id label.fault pc = some (t, .exit (.error err)))
    (hb : pc.Belongs call id)
    (hm : e.server.shared.stores.Marked (e.without call) call pc) :
    t.stores = e.without call := by
  unfold LeavesNothing at hC
  rw [hmoves] at hC
  cases Shared.deployStep_cases hstep
  case refused hrefuses =>
    cases pc
    case finish d =>
      have hclear := hC (Shared.deployStep_finish_fails hstep)
      refine hm.eq_without ?_ ?_
      · rintro d' ⟨⟩
        exact ⟨hclear, hb.1⟩
      · rintro d' ⟨⟩
        exact hb.1 ▸ hclear.pending
    all_goals first
      | exact Bool.noConfusion hrefuses
      | exact hm.eq_without (fun _ hd => by cases hd) fun _ hd => by cases hd
  case sendFailed d env hclosed =>
    refine hm.eq_without (fun _ hd => by cases hd) ?_
    rintro d' ⟨⟩
    exact hC hclosed
  case gaveUp d =>
    rw [Shared.removeWaiter_stores]
    refine Stores.ext (funext fun path => ?_) (funext fun key => ?_) ?_ (funext fun p => ?_)
      hm.connections
    · exact (hm.routes path).resolve_right fun ⟨_, _, hd, _⟩ => by cases hd
    · exact (hm.tracker key).resolve_right fun ⟨_, _, hd, _⟩ => by cases hd
    · rw [hm.forwards]
      exact (List.filter_eq_self.mpr fun f hf => decide_eq_true (hm.pushed rfl f hf)).symm
    · by_cases hp : p = (d.channel, d.plan.containerName)
      · subst hp
        refine (Function.update_self ..).trans ?_
        rcases hC with hnone | ⟨_, hnone⟩
        · rcases hm.pending (d.channel, d.plan.containerName) with heq | ⟨_, _, hcall, _⟩
          · exact hnone.symm.trans heq
          · cases hnone.symm.trans hcall
        · exact hnone.symm
      · refine (Function.update_of_ne hp ..).trans ((hm.pending p).resolve_right ?_)
        rintro ⟨d', ⟨⟩, _, heq⟩
        exact hp heq
  case routeRejected d p clientPort rest path err hroute hset =>
    have hclear : e.server.shared.Clear d := by
      refine hC ?_
      rw [hroute]
      show (e.server.shared.routes.set path (p.poolPort.getD 0)).isOk = false
      rw [hset]
      rfl
    refine hm.eq_without ?_ ?_
    · rintro d' ⟨⟩
      exact ⟨hclear, hb.1⟩
    · rintro d' ⟨⟩
      exact hb.1 ▸ hclear.pending

end Shadowed

/-! ## The steps of the other tasks -/

theorem Shared.Shrinks.forwards {s t : Shared} (h : s.Shrinks t) :
    ∀ f ∈ t.forwards, f ∈ s.forwards :=
  fun _ hf => mem_entries_forward.mp (h _ (mem_entries_forward.mpr hf)).1

namespace Server

variable {ports : FreshPool} {localAddr : LocalAddr} {s s' : Server} {label : Label}

/-- No entry of the call is new in the stores, unless the call is the stop. -/
structure AddsNone (s s' : Server) (c : CallId) : Prop where
  forwards : ∀ f ∈ s'.shared.forwards, f.2.call = c → f ∈ s.shared.forwards
  pending : (∀ q, s.stopping ≠ some (c, q)) → ∀ ch name,
    (s'.shared.pending ch).lookup name = some c → (s.shared.pending ch).lookup name = some c
  failed : c ∈ s'.shared.failed → c ∈ s.shared.failed

theorem AddsNone.of_same {c : CallId} (hforwards : s'.shared.forwards = s.shared.forwards)
    (hpending : s'.shared.pending = s.shared.pending) (hlog : s'.shared.log = s.shared.log) :
    s.AddsNone s' c := by
  refine ⟨fun f hf _ => hforwards ▸ hf, fun _ ch name h => ?_, fun h => ?_⟩
  · rwa [hpending] at h
  · rwa [Shared.failed, hlog] at h

theorem Move.addsNone (h : s.Move ports localAddr label s') (hb : s.Belongs) {c : CallId}
    (hc : (s.movesDeploy label).map Prod.fst ≠ some c) : s.AddsNone s' c := by
  cases h with
  | @deploy _ _ call id pc t next hmoves hpc hstep hshared =>
      have hne : c ≠ call := by
        rintro rfl
        exact hc (by rw [hmoves]; rfl)
      refine ⟨fun f hf hcall => ?_, fun _ ch name ho => ?_, fun hfailed => ?_⟩
      · rw [hshared] at hf
        rcases hstep.entries (hb _ _ _ hpc) _ (Shared.mem_entries_forward.mpr hf) with
          ⟨hold, _⟩ | ⟨_, hcreator, _⟩
        · exact Shared.mem_entries_forward.mp hold
        · obtain ⟨hcall', _⟩ := Prod.mk.inj (Option.some.inj hcreator)
          exact absurd (hcall.symm.trans hcall') hne
      · rw [hshared] at ho
        exact (hstep.own.pending ch name c ho).resolve_right fun h => hne h.1
      · rw [hshared] at hfailed
        exact (Shared.mem_failed_endCall hstep hfailed).resolve_right fun h => hne h.1
  | @stop _ _ call id pc _ t next _ _ hpc hstep hshared =>
      refine ⟨fun f hf _ => ?_, fun hstop ch name ho => ?_, fun hfailed => ?_⟩
      · rw [hshared] at hf
        exact hstep.entries.1.forwards f hf
      · have hne : c ≠ call := by
          rintro rfl
          exact hstop _ hpc
        rw [hshared] at ho
        exact ((Shared.stop_drops hstep).2.2 ch name c ho).resolve_left hne
      · rwa [hshared, Shared.failed, Shared.stop_log _ (fun _ => rfl) hstep] at hfailed
  | start _ hshared | startStop _ hshared =>
      exact .of_same (by rw [hshared]) (by rw [hshared]) (by rw [hshared])
  | @request fault r _ _ hshared =>
      obtain ⟨db, pool, hframe⟩ := s.shared.request_frame fault r
      rw [hframe] at hshared
      exact .of_same (by rw [hshared]) (by rw [hshared]) (by rw [hshared])
  | handler hstep hshared =>
      obtain ⟨db, pool, hframe⟩ := Shared.handlerStep_frame hstep
      rw [hframe] at hshared
      exact .of_same (by rw [hshared]) (by rw [hshared]) (by rw [hshared])
  | @event fault update _ _ hshared =>
      obtain ⟨clientNodes, hframe⟩ := s.shared.syncEvent_frame fault update
      rw [hframe] at hshared
      exact .of_same (by rw [hshared]) (by rw [hshared]) (by rw [hshared])
  | sync hstep hshared =>
      obtain ⟨_, _, _, hforwards, _, hlog, _, hpending, _⟩ := hstep.frame
      rw [← hshared] at hforwards hlog hpending
      exact .of_same hforwards hpending hlog
  | surroundings _ hstep =>
      refine ⟨fun f hf _ => hstep.entries.forwards f hf,
        fun _ ch name ho => hstep.pending ch name c ho, fun hfailed => ?_⟩
      rwa [Shared.failed, Shared.around_log _ (fun _ _ => rfl) (fun _ _ => rfl) hstep] at hfailed
  | restart =>
      exact ⟨fun f hf _ => absurd hf List.not_mem_nil, fun _ ch name ho => (by cases ho),
        fun h => h⟩

theorem Move.calls (h : s.Move ports localAddr label s') : s.nextCall ≤ s'.nextCall := by
  cases h with
  | start _ _ _ _ _ hcalls | startStop _ _ _ _ _ _ hcalls =>
      rw [hcalls]
      exact Nat.le_succ _
  | deploy _ _ _ _ _ _ _ hcalls | stop _ _ _ _ _ _ _ _ hcalls | request _ _ _ _ _ _ hcalls
  | handler _ _ _ _ _ _ hcalls | event _ _ _ _ _ hcalls | sync _ _ _ _ _ hcalls
  | surroundings _ _ _ _ _ hcalls => exact Nat.le_of_eq hcalls.symm
  | restart => exact Nat.le_refl _

/-- A call that a step does not move starts at most. -/
theorem Move.others (h : s.Move ports localAddr label s') {c : CallId}
    (hc : (s.movesDeploy label).map Prod.fst ≠ some c) {id : RowId} {pc : DeployPc}
    (hpc : s'.deploys c = some (id, pc)) :
    s.deploys c = some (id, pc) ∨ s.nextCall ≤ c ∧ pc = .check := by
  cases h with
  | @deploy _ _ call _ _ t next hmoves _ _ _ hdeploys =>
      have hne : c ≠ call := by
        rintro rfl
        exact hc (by rw [hmoves]; rfl)
      rw [hdeploys, Function.update_of_ne hne] at hpc
      exact .inl hpc
  | start _ _ hdeploys =>
      rw [hdeploys] at hpc
      by_cases hnew : c = s.nextCall
      · subst hnew
        rw [Function.update_self] at hpc
        obtain ⟨rfl, rfl⟩ := Prod.mk.inj (Option.some.inj hpc)
        exact .inr ⟨Nat.le_refl _, rfl⟩
      · rw [Function.update_of_ne hnew] at hpc
        exact .inl hpc
  | stop _ _ _ _ _ hdeploys | startStop _ _ hdeploys | request _ _ hdeploys | handler _ _ hdeploys
  | event _ _ hdeploys | sync _ _ hdeploys | surroundings _ _ hdeploys =>
      rw [hdeploys] at hpc
      exact .inl hpc
  | restart => cases hpc

/-! ## Every step -/

/-- What the stores say about a call by where it is, with `W` the stores without it. -/
structure Tracks (s : Server) (c : CallId) (W : Stores) : Prop where
  new : s.nextCall ≤ c → c ∉ s.shared.failed ∧ s.shared.stores.Marked W c .check
  deploy : ∀ id pc, s.deploys c = some (id, pc) →
    c ∉ s.shared.failed ∧ s.shared.stores.Marked W c pc
  failed : c ∈ s.shared.failed →
    s.shared.stores = W ∧ ∀ f ∈ s.shared.forwards, f.2.call ≠ c

/-- A step that does not move the call. -/
theorem Tracks.followed {c : CallId} {W : Stores} (h : s.Tracks c W)
    (hmove : s.Move ports localAddr label s') (hf : s.Fresh) (hb : s.Belongs)
    (hc : (s.movesDeploy label).map Prod.fst ≠ some c) :
    s'.Tracks c (.follow c s.shared.stores s'.shared.stores W) := by
  have hadds := hmove.addsNone hb hc
  -- The stop that is under way is an old call and no deploy.
  have hmarked : ∀ pc, c ∉ s.shared.failed ∧ s.shared.stores.Marked W c pc →
      s.nextCall ≤ c ∨ s.deploys c ≠ none → c ∉ s'.shared.failed ∧
        s'.shared.stores.Marked (.follow c s.shared.stores s'.shared.stores W) c pc := by
    rintro pc ⟨hnot, hm⟩ hc
    have hstop : ∀ q, s.stopping ≠ some (c, q) := by
      rintro ⟨id, pc⟩ hstop
      obtain ⟨hlt, hnone⟩ := hf.stop_lt hstop
      rcases hc with hle | hsome
      · exact absurd hlt (Nat.not_lt.mpr hle)
      · exact hsome hnone
    exact ⟨fun hfailed => hnot (hadds.failed hfailed),
      hm.followed hadds.forwards fun p => hadds.pending hstop p.1 p.2⟩
  refine ⟨fun hle => ?_, fun id pc hpc => ?_, fun hfailed => ?_⟩
  · have hle : s.nextCall ≤ c := Nat.le_trans hmove.calls hle
    exact hmarked .check (h.new hle) (.inl hle)
  · rcases hmove.others hc hpc with hpc | ⟨hle, rfl⟩
    · exact hmarked pc (h.deploy id pc hpc) (.inr (by rw [hpc]; nofun))
    · exact hmarked .check (h.new hle) (.inl hle)
  · obtain ⟨rfl, hforwards⟩ := h.failed (hadds.failed hfailed)
    have hforwards' : ∀ f ∈ s'.shared.forwards, f.2.call ≠ c := fun f hf hcall =>
      hforwards f (hadds.forwards f hf hcall) hcall
    exact ⟨(Stores.follow_same hforwards').symm, hforwards'⟩

end Server

namespace Shadowed

structure Inv (e : Shadowed) : Prop where
  fresh : e.server.Fresh
  belongs : e.server.Belongs
  ends : ∀ call id pc, e.server.deploys call = some (id, pc) → pc.Ends
  tracks : ∀ c, e.server.Tracks c (e.without c)

variable {ports : FreshPool} {localAddr : LocalAddr} {e : Shadowed} {s' : Server} {label : Label}
  {c : CallId} {id : RowId} {pc : DeployPc}

/-- A step of the call itself. -/
theorem Inv.moved (h : e.Inv) (hC : e.LeavesNothing label)
    (hstep : e.server.step ports localAddr label = some s')
    (hmoves : e.server.movesDeploy label = some (c, id, pc)) : s'.Tracks c (e.without c) := by
  obtain ⟨hmove, hfresh⟩ := Server.step_move h.fresh hstep
  obtain ⟨t, next, hdeploy, hpc, hshared, -, hdeploys⟩ := hmove.deploy_step hmoves
  obtain ⟨hnot, hm⟩ := (h.tracks c).deploy id pc hpc
  have hb := h.belongs c id pc hpc
  refine ⟨fun hle => ?_, fun i p hp => ?_, fun hfailed => ?_⟩
  · exact absurd (h.fresh.lt hpc) (Nat.not_lt.mpr (Nat.le_trans hmove.calls hle))
  · rw [hdeploys] at hp
    obtain ⟨rfl, rfl⟩ := Server.goto_of_update_self hp
    rw [hshared]
    refine ⟨fun hfailed => ?_, hdeploy.marked hb (h.ends c _ _ hpc) hm⟩
    rcases Shared.mem_failed_endCall hdeploy hfailed with hold | ⟨_, _, hexit⟩
    · exact hnot hold
    · cases hexit
  · obtain ⟨u, next', hfun, hshared'⟩ := Server.deployStep_of_step hstep hmoves
    rw [hshared'] at hfailed
    rcases Shared.mem_failed_endCall (Shared.deployStep_cases hfun) hfailed with
      hold | ⟨_, err, rfl⟩
    · exact absurd hold hnot
    · have hstores : u.stores = e.without c := hC.stores hmoves hfun hb hm
      refine ⟨?_, ?_⟩
      · rw [hshared']
        exact hstores
      · rw [hshared']
        intro f hf
        have hf : f ∈ u.stores.forwards := hf
        rw [hstores, hm.forwards] at hf
        exact of_decide_eq_true (List.mem_filter.mp hf).2

theorem inv_step (h : e.Inv) (hC : e.LeavesNothing label) {e' : Shadowed}
    (hstep : (shadows ports localAddr).step e label = some e') : e'.Inv := by
  obtain ⟨s', hs', rfl⟩ := Option.map_eq_some_iff.mp hstep
  obtain ⟨hmove, hfresh⟩ := Server.step_move h.fresh hs'
  refine ⟨hfresh, hmove.belongs h.belongs,
    hmove.each (fun _ _ => trivial) (fun hdeploy hpc => hdeploy.rest hpc) h.ends, fun c => ?_⟩
  show s'.Tracks c (if _ then _ else _)
  split
  · rename_i hmoves
    obtain ⟨q, hq, rfl⟩ := Option.map_eq_some_iff.mp hmoves
    exact h.moved hC hs' hq
  · rename_i hc
    exact (h.tracks c).followed hmove h.fresh h.belongs hc

theorem inv_init (ports : FreshPool) (localAddr : LocalAddr) :
    (shadows ports localAddr).init.Inv := by
  refine ⟨Server.fresh_boot _ ports, fun _ _ _ h => (by cases h), fun _ _ _ h => (by cases h),
    fun c => ⟨fun _ => ⟨List.not_mem_nil, ?_⟩, fun _ _ h => (by cases h),
      fun h => absurd h List.not_mem_nil⟩⟩
  exact ⟨fun _ => .inl rfl, fun _ => .inl rfl, rfl, fun _ _ hf => absurd hf List.not_mem_nil,
    fun _ => .inl rfl, rfl, fun _ h => by cases h⟩

/-- A deploy that fails has changed nothing, in every run in which deploys fail only
where they leave nothing. -/
theorem allOrNothing_of_leavesNothing (ports : FreshPool) (localAddr : LocalAddr)
    (labels : List Label)
    (h : (shadows ports localAddr).Meets LeavesNothing (shadows ports localAddr).init labels) :
    (shadows ports localAddr).Always AllOrNothing (shadows ports localAddr).init labels :=
  (Machine.always_of_meets (fun _ _ _ hI hC hstep => inv_step hI hC hstep)
    (inv_init ports localAddr) h).mono fun _ hI c hc => ((hI.tracks c).failed hc).1

end Shadowed

/-- The client never answers, and the deploy takes its waiter back. -/
def unansweredStart : List Label :=
  Label.oneConnection ++ List.replicate 10 (.attempt 0 false) ++
    [.attempt 0 true, .attempt 0 false]

set_option maxRecDepth 4000 in
theorem Shadowed.allOrNothing_of_leavesNothing_unansweredStart :
    (shadows samplePool fun _ => none).Always AllOrNothing (shadows samplePool fun _ => none).init
      unansweredStart :=
  allOrNothing_of_leavesNothing samplePool (fun _ => none) unansweredStart (by decide)

/-- Two ports of a bridge have one route, which no check compares. -/
def repeatedRoute : List Label :=
  Label.connects "u" 0 ++ .loadImage "web" "nginx" "docker" ::
    Label.bridges "a" (samplePort 1 "/a") ++
    [.request false (.postPort { samplePort 1 "/a" with containerPort := 81 }), .api false] ++
    Label.creates "a" 1 1 ++ List.replicate 10 (.attempt 0 false) ++
    .message 0 (.containerStarted "kdct-a-1" [8000, 8001]) :: List.replicate 6 (.attempt 0 false)

set_option maxRecDepth 4000 in
theorem repeatedRoute_leavesRoute :
    ¬(shadows samplePool fun _ => none).Always Shadowed.AllOrNothing
      (shadows samplePool fun _ => none).init repeatedRoute := by
  intro h
  obtain ⟨e, he⟩ : ∃ e, (shadows samplePool fun _ => none).run
      (shadows samplePool fun _ => none).init repeatedRoute = some e :=
    Option.isSome_iff_exists.mp (by decide)
  have hfacts : ((shadows samplePool fun _ => none).run (shadows samplePool fun _ => none).init
      repeatedRoute).map (fun e => (e.server.shared.failed, e.server.shared.stores.routes "/a",
        (e.without 0).routes "/a")) = some ([0], some 20000, none) := by
    decide
  rw [he] at hfacts
  obtain ⟨hfailed, hrest⟩ := Prod.mk.inj (Option.some.inj hfacts)
  obtain ⟨hroute, hwithout⟩ := Prod.mk.inj hrest
  have hsame : e.server.shared.stores = e.without 0 := h.last he 0 (by rw [hfailed]; simp)
  rw [hsame, hwithout] at hroute
  cases hroute

end Kdct
