/-
Whether a connection that the database calls deployed has its deployment in memory.

The column is set by the deploy that has made its entries, and set back by a stop and
by a disconnect, beside what they take away.  `Needs` says whose entries have to stay:
those of a deploy that is past its wait, and those of a connection that is deployed and
that no stop has found.
-/
import Kdct.Server.Leaks

namespace Kdct

def Entry.isForward : Entry → Bool
  | .forward .. => true
  | _ => false

/-- The record and the routes of a deploy. -/
def Plan.entries (plan : Plan) : List Entry :=
  .record plan.key plan.deployment :: plan.routes.map fun r => .route r.1 r.2

/-- What a deploy past its wait has not made yet. -/
def DeployPc.owes : DeployPc → Entry → Bool
  | .record _, _ => true
  | .lock _, .route .. => true
  | .register _ rest, .route path port | .push _ _ rest, .route path port =>
      rest.any fun p => p.1.route = some path && p.1.poolPort.getD 0 = port
  | _, _ => false

/-! ## What the steps take away -/

def DeployPc.drops : DeployPc → Entry → Bool
  | .record d, .record key _ => key = d.plan.key
  | _, _ => false

def StopPc.drops : StopPc → Entry → Bool
  | .release _ _ _ (port :: _), .route _ p => p = port
  | .forwards _ _ d, .forward port _ => port ∈ d.serverPorts
  | .untrack info nodeUuid, .record key _ => key = (info.connectionName, nodeUuid)
  | _, _ => false

def SyncPc.drops : SyncPc → Entry → Bool
  | .keys _ (key :: _), .record k _ => k = key
  | .release _ (port :: _) _, .route _ p => p = port
  | _, _ => false

section

variable {plan : Plan}

theorem assignPorts_length (clientPort : Port) (ports : List BridgePort) :
    (Plan.assignPorts clientPort ports).length = ports.length := by
  induction ports generalizing clientPort with
  | nil => rfl
  | cons p ps ih => exact congrArg (· + 1) (ih _)

theorem Plan.mem_zip_clientPorts (plan : Plan) {p : BridgePort} (hp : p ∈ plan.ports) :
    ∃ clientPort, (p, clientPort) ∈ plan.ports.zip plan.clientPorts := by
  have hlength : plan.ports.length ≤ plan.clientPorts.length := by
    rw [clientPorts, portMap, List.length_map, assignPorts_length]
  rw [← List.map_fst_zip hlength] at hp
  obtain ⟨⟨q, clientPort⟩, hzip, rfl⟩ := List.mem_map.mp hp
  exact ⟨clientPort, hzip⟩

theorem mem_planEntries {e : Entry} (h : e ∈ plan.entries) :
    e = .record plan.key plan.deployment ∨
      ∃ p path, p ∈ plan.ports ∧ p.route = some path ∧ e = .route path (p.poolPort.getD 0) := by
  rcases List.mem_cons.mp h with rfl | h
  · exact .inl rfl
  · obtain ⟨r, hr, rfl⟩ := List.mem_map.mp h
    obtain ⟨p, hp, hroute⟩ := List.mem_filterMap.mp hr
    obtain ⟨path, hpath, rfl⟩ := Option.map_eq_some_iff.mp hroute
    exact .inr ⟨p, path, hp, hpath, rfl⟩

end

namespace Server

/-- Whether a step of a task takes the entry away or puts another in its place. -/
def drops (s : Server) (label : Label) (e : Entry) : Bool :=
  (s.movesDeploy label).any (fun q => q.2.2.drops e) ||
    (s.movesStop label).any (fun q => q.2.2.drops e) ||
      match label with
      | .sync _ => s.sync.drops e
      | _ => false

end Server

namespace Shared

/-- The call has made the entry for the connection, and it is there. -/
def Made (s : Shared) (call : CallId) (id : RowId) (e : Entry) : Prop :=
  e ∈ s.entries ∧ s.creator e = some (call, id)

instance (s : Shared) (call : CallId) (id : RowId) (e : Entry) : Decidable (s.Made call id e) :=
  inferInstanceAs (Decidable (_ ∧ _))

/-- What is not dropped stays, and has the creator it had. -/
def Keeps (s t : Shared) (drops : Entry → Bool) : Prop :=
  ∀ e ∈ s.entries, drops e = false → e ∈ t.entries ∧ t.creator e = s.creator e

variable {s t : Shared} {call : CallId} {id : RowId} {fault : Bool}

theorem Keeps.of_same {drops : Entry → Bool} (hentries : t.entries = s.entries)
    (hcreator : t.creator = s.creator) : s.Keeps t drops := by
  intro e he _
  exact ⟨hentries ▸ he, by rw [hcreator]⟩

theorem Keeps.made {drops : Entry → Bool} (h : s.Keeps t drops) {e : Entry}
    (hmade : s.Made call id e) (hdrops : drops e = false) : t.Made call id e := by
  obtain ⟨hmem, hcreator⟩ := h e hmade.1 hdrops
  exact ⟨hmem, hcreator.trans hmade.2⟩

theorem DeployStep.keeps {pc : DeployPc} {next : DeployNext}
    (h : DeployStep s call id fault pc t next) : s.Keeps (t.endCall call id next) pc.drops := by
  cases h
  case insert d env =>
    obtain ⟨hentries, hcreator⟩ := s.insertWaiter_entries d.channel d.plan.containerName call
    exact .of_same hentries hcreator
  case gaveUp d e =>
    obtain ⟨hentries, hcreator⟩ := s.removeWaiter_entries d.channel d.plan.containerName call
    exact .of_same hentries hcreator
  case recorded d hlock =>
    intro e he hdrops
    have hne : ∀ dep, e ≠ .record d.plan.key dep := by
      rintro dep rfl
      simp [DeployPc.drops] at hdrops
    exact ⟨mem_entries_insertRecord.mpr (.inr ⟨he, hne⟩), creator_noteRecorded_of_ne hne⟩
  case routed d p clientPort rest path routes hroute hset =>
    intro e he _
    obtain ⟨hentries, hcreator⟩ :=
      spawnLoops_entries (s := ({ s with routes := routes } : Shared).note
      (.routed d path (p.poolPort.getD 0))) d p clientPort
    show e ∈ (spawnLoops _ d p clientPort).entries ∧ (spawnLoops _ d p clientPort).creator e = _
    rw [hentries, hcreator]
    -- The path was free.
    have hne : ∀ q, e ≠ .route path q := by
      rintro q rfl
      have hfree := (RouteTable.set_ok hset).1
      rw [mem_entries_route.mp he] at hfree
      cases hfree
    exact ⟨(mem_entries_setRoute hset).mpr (.inr ⟨he, hne⟩), creator_noteRouted_of_ne hne⟩
  case unrouted d p clientPort rest hroute =>
    obtain ⟨hentries, hcreator⟩ := s.spawnLoops_entries d p clientPort
    exact .of_same hentries hcreator
  case pushed d p clientPort rest _ =>
    exact fun e he _ => ⟨mem_entries_pushForward.mpr (.inl he), rfl⟩
  all_goals exact .of_same rfl rfl

theorem StopStep.keeps {pc : StopPc} {next : StopNext} (h : StopStep s call id fault pc t next) :
    s.Keeps t pc.drops := by
  cases h
  case insert info nodeUuid ch =>
    obtain ⟨hentries, hcreator⟩ := s.insertWaiter_entries ch info.containerName call
    exact .of_same hentries hcreator
  case release info nodeUuid d port rest =>
    refine fun e he hdrops => ⟨mem_entries_releasePort.mpr ⟨he, ?_⟩, rfl⟩
    rintro path rfl
    simp [StopPc.drops] at hdrops
  case forwards info nodeUuid d hlock =>
    refine fun e he hdrops => ⟨mem_entries_dropForwards.mpr ⟨he, ?_⟩, rfl⟩
    rintro port hport sender rfl
    simp [StopPc.drops, hport] at hdrops
  case untracked info nodeUuid hlock =>
    refine fun e he hdrops => ⟨mem_entries_untrack.mpr ⟨he, ?_⟩, rfl⟩
    rintro d rfl
    simp [StopPc.drops] at hdrops
  all_goals exact .of_same rfl rfl

theorem SyncStep.keeps {pc next : SyncPc} (h : SyncStep s fault pc t next) :
    s.Keeps t pc.drops := by
  cases h
  case erased uuid key rest d hfound =>
    refine fun e he hdrops => ⟨mem_entries_untrack.mpr ⟨he, ?_⟩, rfl⟩
    rintro d rfl
    simp [SyncPc.drops] at hdrops
  case release uuid port ports rest =>
    refine fun e he hdrops => ⟨mem_entries_releasePort.mpr ⟨he, ?_⟩, rfl⟩
    rintro path rfl
    simp [SyncPc.drops] at hdrops
  all_goals exact .of_same rfl rfl

theorem Around.keeps {localAddr : LocalAddr} (h : s.Around localAddr t) {drops : Entry → Bool} :
    s.Keeps t drops := by
  obtain ⟨-, hroutes, htracker, hforwards, -⟩ := h.frame
  exact .of_same (entries_congr hroutes htracker hforwards)
    (creator_congr (around_log _ (fun _ _ => rfl) (fun _ _ => rfl) h)
      (around_log _ (fun _ _ => rfl) (fun _ _ => rfl) h))

/-- A deploy makes what it has not made yet. -/
theorem DeployStep.makes {pc pc' : DeployPc} {d : Deploy}
    (h : DeployStep s call id fault pc t (.goto pc')) (hb : pc.Belongs call id)
    (hpc' : pc'.enters = true) (hd : pc'.deploy? = some d) {e : Entry} (he : e ∈ d.plan.entries)
    (hmade : pc.enters = true → pc.owes e = true ∨ s.Made call id e) :
    pc'.owes e = true ∨ (t.endCall call id (.goto pc')).Made call id e := by
  have hkeeps := h.keeps
  cases h
  case answered d' reply hreply => exact .inl rfl
  case recorded d' hlock =>
    obtain rfl := Option.some.inj hd
    rcases mem_planEntries he with rfl | ⟨p, path, hp, hroute, rfl⟩
    · refine .inr ⟨(mem_entries_insertRecord (s := s)).mpr (.inl rfl), ?_⟩
      rw [← hb.1, ← hb.2]
      exact creator_noteRecorded
    · exact .inl rfl
  case locked d' hlock =>
    obtain rfl := Option.some.inj hd
    rcases mem_planEntries he with rfl | ⟨p, path, hp, hroute, rfl⟩
    · exact .inr (hkeeps.made ((hmade rfl).resolve_left Bool.false_ne_true) rfl)
    · obtain ⟨clientPort, hzip⟩ := d'.plan.mem_zip_clientPorts hp
      refine .inl (List.any_eq_true.mpr ⟨_, hzip, ?_⟩)
      simp [hroute]
  case registered d' =>
    obtain rfl := Option.some.inj hd
    refine .inr (hkeeps.made ((hmade rfl).resolve_left ?_) rfl)
    cases e <;> exact Bool.false_ne_true
  case routed d' p clientPort rest path routes hroute hset =>
    obtain rfl := Option.some.inj hd
    rcases hmade rfl with howes | hmade
    · cases e with
      | route q port =>
          rcases (Bool.or_eq_true _ _).mp howes with hthis | hrest
          · obtain ⟨rfl, rfl⟩ : path = q ∧ p.poolPort.getD 0 = port := by
              simpa [hroute] using hthis
            obtain ⟨hentries, hcreator⟩ := spawnLoops_entries
              (s := ({ s with routes := routes } : Shared).note
                (.routed d' path (p.poolPort.getD 0)))
              d' p clientPort
            refine .inr ⟨?_, ?_⟩
            · show _ ∈ (spawnLoops _ d' p clientPort).entries
              rw [hentries]
              exact (mem_entries_setRoute hset).mpr (.inl rfl)
            · show (spawnLoops _ d' p clientPort).creator _ = _
              rw [hcreator, ← hb.1, ← hb.2]
              exact creator_noteRouted
          · exact .inl hrest
      | record key dep => cases howes
      | forward port sender => cases howes
    · exact .inr (hkeeps.made hmade rfl)
  case unrouted d' p clientPort rest hroute =>
    obtain rfl := Option.some.inj hd
    rcases hmade rfl with howes | hmade
    · refine .inl ?_
      cases e with
      | route q port => simpa [DeployPc.owes, hroute] using howes
      | record key dep => cases howes
      | forward port sender => cases howes
    · exact .inr (hkeeps.made hmade rfl)
  case pushed d' p clientPort rest _ =>
    obtain rfl := Option.some.inj hd
    rcases hmade rfl with howes | hmade
    · refine .inl ?_
      cases e <;> exact howes
    · exact .inr (hkeeps.made hmade rfl)
  all_goals cases hpc'

theorem DeployStep.same_deploy {pc pc' : DeployPc} {d : Deploy}
    (h : DeployStep s call id fault pc t (.goto pc')) (hpc : pc.enters = true)
    (hd : pc'.deploy? = some d) : pc.deploy? = some d := by
  cases h
  all_goals first
    | exact hd
    | cases hpc

/-- A stop that has found its deployment goes on until it sets the row back. -/
theorem StopStep.ends {pc : StopPc} {next : StopNext} (h : StopStep s call id fault pc t next)
    (hpc : pc.found = true) :
    (∃ pc', next = some pc' ∧ pc'.found = true) ∨
      ∃ info, pc = .finish info ∧ next = none ∧ (fault = true ∧ t = s ∨ ¬t.db.Deployed id) := by
  cases h
  case finishFailed info hfault => exact .inr ⟨info, rfl, rfl, .inl ⟨hfault, rfl⟩⟩
  case finished info db hfault hdb =>
    refine .inr ⟨info, rfl, rfl, .inr ?_⟩
    rintro ⟨c, hc, hid, hstatus⟩
    rcases Database.mem_updateConnectionNode hdb hc with ⟨hno, -⟩ | ⟨-, -, hpending, -⟩
    · exact hno hid
    · rw [hpending] at hstatus
      cases hstatus
  all_goals first
    | exact .inl ⟨_, rfl, rfl⟩
    | cases hpc

end Shared

/-! ## The property and what the steps have to respect -/

/-- What the deploy has recorded and routed is there. -/
def Shared.Live (s : Shared) (d : Deploy) : Prop :=
  ∀ e ∈ d.plan.entries, s.Made d.call d.plan.connectionId e

instance (s : Shared) (d : Deploy) : Decidable (s.Live d) := by
  unfold Shared.Live
  infer_instance

namespace Server

variable (s : Server)

/-- The connection's latest deploy is live. -/
def HasLive (id : RowId) : Prop := ∃ d ∈ s.shared.lastDeploy id, s.shared.Live d

/-- The status of a connection says whether it has a live deployment. -/
structure Truthful : Prop where
  live : ∀ c ∈ s.shared.db.connections.rows, c.status = .deployed → s.HasLive c.id
  /-- A connection without one is up for a deploy as soon as its slots are filled and
  its node is online. -/
  connectable : ∀ c ∈ s.shared.db.connections.rows, ¬s.HasLive c.id → c.bridgeId.isSome = true →
    c.imageId.isSome = true →
      ((c.nodeId.bind s.shared.db.clientNodes.find?).any fun n => n.status == .online) = true →
        c.id ∈ s.shared.db.getConnectableConnections

/-- The call is past its wait, or the latest deploy of a connection that is deployed
and that no stop has found. -/
def Needs (q : CallId × RowId) : Prop :=
  s.RunsAt DeployPc.enters q.1 q.2 ∨
    (s.shared.lastDeploy q.2).map Deploy.call = some q.1 ∧ s.shared.db.Deployed q.2 ∧
      s.foundStop q.2 = none

/-- A stop that cannot set its connection back has taken nothing from it. -/
def SparesRow (label : Label) : Prop :=
  match s.movesStop label with
  | some (_, id, .finish _) => label.fault = true → s.shared.db.Deployed id → s.HasLive id
  | _ => True

/-- A step that takes nothing away that is needed. -/
structure Sparing (label : Label) : Prop where
  drops : ∀ e ∈ s.shared.entries, e.isForward = false → s.drops label e = true →
    ∀ q ∈ s.shared.creator e, ¬s.Needs q
  row : s.SparesRow label
  restart : label = .restart → ∀ c ∈ s.shared.db.connections.rows, c.status ≠ .deployed

variable {s : Server} {label : Label}

instance {id : RowId} : Decidable (s.HasLive id) := by
  unfold HasLive
  infer_instance

instance {q : CallId × RowId} : Decidable (s.Needs q) := by
  unfold Needs
  infer_instance

instance : Decidable (s.SparesRow label) := by
  unfold SparesRow
  rcases s.movesStop label with _ | ⟨_, id, pc⟩
  · exact .isTrue trivial
  · rcases pc with _ | _
    case finish info => dsimp only; infer_instance
    all_goals exact .isTrue trivial

instance : Decidable (s.Sparing label) :=
  decidable_of_iff ((∀ e ∈ s.shared.entries, e.isForward = false → s.drops label e = true →
      ∀ q ∈ s.shared.creator e, ¬s.Needs q) ∧ s.SparesRow label ∧
        (label = .restart → ∀ c ∈ s.shared.db.connections.rows, c.status ≠ .deployed))
    ⟨fun ⟨hd, hs, hr⟩ => ⟨hd, hs, hr⟩, fun ⟨hd, hs, hr⟩ => ⟨hd, hs, hr⟩⟩

/-- A connection is pending or deployed. -/
theorem truthful_of_live (h : ∀ id, s.shared.db.Deployed id → s.HasLive id) : s.Truthful where
  live c hc hstatus := h c.id ⟨c, hc, rfl, hstatus⟩
  connectable c hc hno hbridge himage hnode := by
    have hstatus : c.status = .pending := by
      cases hstatus : c.status with
      | pending => rfl
      | deployed => exact absurd (h c.id ⟨c, hc, rfl, hstatus⟩) hno
    refine List.mem_map.mpr ⟨c, List.mem_filter.mpr ⟨hc, ?_⟩, rfl⟩
    simp [hbridge, himage, hstatus, hnode]

/-! ## Every step -/

variable {ports : FreshPool} {localAddr : LocalAddr} {s' : Server}

theorem Move.keeps (h : s.Move ports localAddr label s') (hne : label ≠ .restart) :
    s.shared.Keeps s'.shared (s.drops label) := by
  cases h with
  | deploy hmoves _ hdeploy hshared =>
      rw [hshared]
      intro e he hdrops
      refine hdeploy.keeps e he (Bool.eq_false_iff.mpr fun hpc => ?_)
      simp [drops, hmoves, hpc] at hdrops
  | stop hnone hmoves _ hstop hshared =>
      rw [hshared]
      intro e he hdrops
      refine hstop.keeps e he (Bool.eq_false_iff.mpr fun hpc => ?_)
      simp [drops, hmoves, hpc] at hdrops
  | sync hsync hshared =>
      rw [hshared]
      intro e he hdrops
      refine hsync.keeps e he (Bool.eq_false_iff.mpr fun hpc => ?_)
      simp [drops, hpc] at hdrops
  | start _ hshared | startStop _ hshared =>
      rw [hshared]
      exact .of_same rfl rfl
  | @request fault r _ _ hshared =>
      obtain ⟨db, pool, hframe⟩ := s.shared.request_frame fault r
      rw [hshared, hframe]
      exact .of_same rfl rfl
  | handler hhandler hshared =>
      obtain ⟨db, pool, hframe⟩ := Shared.handlerStep_frame hhandler
      rw [hshared, hframe]
      exact .of_same rfl rfl
  | @event fault update _ _ hshared =>
      obtain ⟨clientNodes, hframe⟩ := s.shared.syncEvent_frame fault update
      rw [hshared, hframe]
      exact .of_same rfl rfl
  | surroundings _ hsurr => exact hsurr.keeps
  | restart => exact absurd rfl hne

/-- What is made and needed stays. -/
theorem Sparing.made (hC : s.Sparing label) (hmove : s.Move ports localAddr label s')
    (hne : label ≠ .restart) {plan : Plan} {e : Entry} (he : e ∈ plan.entries) {call : CallId}
    {id : RowId} (hmade : s.shared.Made call id e) (hneeds : s.Needs (call, id)) :
    s'.shared.Made call id e := by
  refine (hmove.keeps hne).made hmade (Bool.eq_false_iff.mpr fun hdrops => ?_)
  refine hC.drops e hmade.1 ?_ hdrops (call, id) hmade.2 hneeds
  rcases mem_planEntries he with rfl | ⟨p, path, -, -, rfl⟩ <;> rfl

structure LiveInv (s : Server) : Prop where
  fresh : s.Fresh
  belongs : s.Belongs
  /-- Deploys past their wait have made what they do not wait to make. -/
  flights : ∀ call id pc, s.deploys call = some (id, pc) → pc.enters = true →
    ∀ d, pc.deploy? = some d →
    ∀ e ∈ d.plan.entries, pc.owes e = true ∨ s.shared.Made call id e
  rows : ∀ id, s.shared.db.Deployed id → s.foundStop id = none → s.HasLive id

theorem lastDeploy_id {s : Shared} {id : RowId} {d : Deploy} (h : s.lastDeploy id = some d) :
    d.plan.connectionId = id :=
  beq_iff_eq.mp (List.find?_some (p := fun d : Deploy => d.plan.connectionId == id) h)

/-- The deploys of a step that moves none of them. -/
theorem LiveInv.flights_congr (h : s.LiveInv) (hC : s.Sparing label)
    (hmove : s.Move ports localAddr label s') (hne : label ≠ .restart)
    (hdeploys : ∀ call id pc, s'.deploys call = some (id, pc) → pc.enters = true →
      s.deploys call = some (id, pc)) :
    ∀ call id pc, s'.deploys call = some (id, pc) → pc.enters = true → ∀ d, pc.deploy? = some d →
      ∀ e ∈ d.plan.entries, pc.owes e = true ∨ s'.shared.Made call id e := by
  intro call id pc hpc henters d hd e he
  have hold := hdeploys call id pc hpc henters
  exact (h.flights call id pc hold henters d hd e he).imp_right fun hmade =>
    hC.made hmove hne he hmade (.inl ⟨_, hold, rfl, henters⟩)

theorem liveFlights_step (h : s.LiveInv) (hC : s.Sparing label)
    (hstep : s.step ports localAddr label = some s') (hmove : s.Move ports localAddr label s')
    (hne : label ≠ .restart) :
    ∀ call id pc, s'.deploys call = some (id, pc) → pc.enters = true → ∀ d, pc.deploy? = some d →
      ∀ e ∈ d.plan.entries, pc.owes e = true ∨ s'.shared.Made call id e := by
  have hmove' := hmove
  have hsame : s'.deploys = s.deploys → _ := fun hdeploys =>
    h.flights_congr hC hmove hne fun call id pc hpc _ => hdeploys ▸ hpc
  cases hmove with
  | @deploy _ _ call id pc t next hmoves hpc hdeploy hshared hdeploys =>
      intro c i pc' hpc' henters d hd e he
      rw [hdeploys] at hpc'
      by_cases hc : c = call
      · subst hc
        obtain ⟨rfl, rfl⟩ := goto_of_update_self hpc'
        rw [hshared]
        refine hdeploy.makes (h.belongs c i pc hpc) henters hd he fun hbefore => ?_
        exact h.flights c i pc hpc hbefore d (hdeploy.same_deploy hbefore hd) e he
      · rw [Function.update_of_ne hc] at hpc'
        exact (h.flights c i pc' hpc' henters d hd e he).imp_right fun hmade =>
          hC.made hmove' hne he hmade (.inl ⟨_, hpc', rfl, henters⟩)
  | start _ _ hdeploys =>
      refine h.flights_congr hC hmove' hne fun call id pc hpc henters => ?_
      rw [hdeploys] at hpc
      by_cases hc : call = s.nextCall
      · subst hc
        rw [Function.update_self] at hpc
        obtain ⟨rfl, rfl⟩ := Prod.mk.inj (Option.some.inj hpc)
        cases henters
      · rwa [Function.update_of_ne hc] at hpc
  | restart => exact absurd rfl hne
  | stop _ _ _ _ _ hdeploys | startStop _ _ hdeploys | request _ _ hdeploys | handler _ _ hdeploys
  | event _ _ hdeploys | sync _ _ hdeploys | surroundings _ _ hdeploys => exact hsame hdeploys

/-- A stop that has found its deployment ends with the row set back, or fails to. -/
theorem Move.foundStop (h : s.Move ports localAddr label s') {id : RowId} {pc : StopPc}
    (hbefore : s.foundStop id = some pc) (hafter : s'.foundStop id = none)
    (hne : label ≠ .restart) :
    ¬s'.shared.db.Deployed id ∨ s'.shared = s.shared ∧
      ∃ call info, s.movesStop label = some (call, id, .finish info) ∧ label.fault = true := by
  have hsame : s'.stopping = s.stopping → False := by
    intro hstopping
    rw [foundStop_congr hstopping, hbefore] at hafter
    cases hafter
  have hsome : s.stopping = none → False := by
    intro hnone
    rw [foundStop_none hnone] at hbefore
    cases hbefore
  cases h with
  | @stop _ _ call i p after t next _ hmoves hpc hstop hshared _ hstopping =>
      simp only [Server.foundStop, hpc, Option.bind_some] at hbefore
      split at hbefore
      · rename_i hfound
        obtain ⟨rfl, hfound⟩ := hfound
        rcases hstop.ends hfound with ⟨pc', rfl, hpc'⟩ | ⟨info, rfl, -, hends⟩
        · rw [Server.foundStop, hstopping] at hafter
          simp [hpc'] at hafter
        · rw [hshared]
          rcases hends with ⟨hfault, rfl⟩ | hno
          · exact .inr ⟨rfl, call, info, hmoves, hfault⟩
          · exact .inl hno
      · cases hbefore
  | startStop _ _ _ hnone | request _ _ _ hnone | handler _ _ _ hnone => exact (hsome hnone).elim
  | deploy _ _ _ _ _ hstopping | start _ _ _ hstopping | event _ _ _ hstopping
  | sync _ _ _ hstopping | surroundings _ _ _ hstopping => exact (hsame hstopping).elim
  | restart => exact absurd rfl hne

theorem liveRows_step (h : s.LiveInv) (hC : s.Sparing label)
    (hmove : s.Move ports localAddr label s') (hne : label ≠ .restart) :
    ∀ id, s'.shared.db.Deployed id → s'.foundStop id = none → s'.HasLive id := by
  intro id hdeployed hnone
  have hlive : s'.shared.lastDeploy id = s.shared.lastDeploy id → s.shared.db.Deployed id →
      s'.HasLive id := by
    intro hlast hold
    cases hfound : s.foundStop id with
    | none =>
        obtain ⟨d, hd, hlive⟩ := h.rows id hold hfound
        have hid := lastDeploy_id hd
        refine ⟨d, hlast.trans hd, fun e he => ?_⟩
        refine hC.made hmove hne he (hlive e he) (.inr ?_)
        rw [hid]
        exact ⟨by rw [hd]; rfl, hold, hfound⟩
    | some pc =>
        rcases hmove.foundStop hfound hnone hne with hno | ⟨hshared, call, info, hmoves, hfault⟩
        · exact absurd hdeployed hno
        · have hrow := hC.row
          simp only [SparesRow, hmoves] at hrow
          obtain ⟨d, hd, hlive⟩ := hrow hfault hold
          exact ⟨d, by rw [hshared]; exact hd, by rw [hshared]; exact hlive⟩
  rcases hmove.continues with ⟨hlast, hcontinues⟩ | ⟨call, i, d, -, hmoves, hpc, hset, hlast⟩
  · obtain ⟨c, hc, rfl, hstatus⟩ := hdeployed
    obtain ⟨c₀, hc₀, hid, hold, -⟩ := hcontinues.rows c hc hstatus
    exact hlive (by rw [hlast]) ⟨c₀, hc₀, hid, hold⟩
  · obtain ⟨hcall, hid⟩ := h.belongs call i _ hpc
    by_cases hi : id = i
    · subst hi
      have hlast' := hlast id
      rw [if_pos hid] at hlast'
      refine ⟨d, hlast', fun e he => ?_⟩
      have hmade := (h.flights call id _ hpc rfl d rfl e he).resolve_left (by cases e <;> nofun)
      rw [hcall, hid]
      exact hC.made hmove hne he hmade (.inl ⟨_, hpc, rfl, rfl⟩)
    · refine hlive (by rw [hlast, if_neg fun heq => hi (heq.symm.trans hid)]) ?_
      obtain ⟨c, hc, rfl, hstatus⟩ := hdeployed
      rcases Database.mem_updateConnectionNode hset hc with ⟨-, hold⟩ | ⟨hthis, -⟩
      · exact ⟨c, hold, rfl, hstatus⟩
      · exact absurd hthis hi

theorem liveInv_step (h : s.LiveInv) (hC : s.Sparing label)
    (hstep : s.step ports localAddr label = some s') : s'.LiveInv := by
  obtain ⟨hmove, hfresh⟩ := step_move h.fresh hstep
  by_cases hne : label = .restart
  · subst hne
    obtain rfl := Option.some.inj hstep
    refine ⟨hfresh, hmove.belongs h.belongs, fun _ _ _ hpc => (by cases hpc), ?_⟩
    rintro id ⟨c, hc, -, hstatus⟩ -
    exact absurd hstatus (hC.restart rfl c hc)
  · exact ⟨hfresh, hmove.belongs h.belongs, liveFlights_step h hC hstep hmove hne,
      liveRows_step h hC hmove hne⟩

theorem liveInv_boot (ports : FreshPool) : (boot .empty ports).LiveInv :=
  ⟨(tidyInv_boot ports).fresh, (tidyInv_boot ports).belongs, fun _ _ _ h => (by cases h),
    fun _ ⟨_, hc, _⟩ => absurd hc List.not_mem_nil⟩

/-- In a run of steps that spare what is needed, the status of every connection is true
whenever no deploy and no stop is in flight. -/
theorem truthful_of_sparing (ports : FreshPool) (localAddr : LocalAddr) (labels : List Label)
    (h : (kdcts ports localAddr).Meets Sparing (.boot .empty ports) labels) :
    (kdcts ports localAddr).Always (fun s => s.Calm → s.Truthful) (.boot .empty ports) labels := by
  have hinv : (kdcts ports localAddr).Always LiveInv (.boot .empty ports) labels :=
    Machine.always_of_meets (fun _ _ _ hI hC hstep => liveInv_step hI hC hstep)
      (liveInv_boot ports) h
  exact hinv.mono fun _ hI hcalm =>
    truthful_of_live fun id hdeployed => hI.rows id hdeployed (foundStop_none hcalm.2 id)

end Server

/-- A connection is deployed, its node is away for a while, and it is deployed again. -/
def awayAndBack : List Label :=
  Label.oneConnection ++ Label.deploys 0 0 (.containerStarted "kdct-a-1" []) ++
    [.unregister "u", .closeChannel 0, .event false ⟨"u", .disconnected "h"⟩] ++
      List.replicate 12 (.sync false) ++ Label.connects "u" 1 ++
        .request false .autoCheck :: List.replicate 12 (.api false) ++
          .message 1 (.containerStarted "kdct-a-1" []) :: List.replicate 8 (.api false)

set_option maxRecDepth 4000 in
theorem truthful_of_sparing_awayAndBack :
    (kdcts samplePool fun _ => none).Always (fun s => s.Calm → s.Truthful) (.boot .empty samplePool)
      awayAndBack :=
  Server.truthful_of_sparing samplePool (fun _ => none) awayAndBack (by decide)

/-- The server restarts while a connection is deployed. -/
def restartWhileDeployed : List Label :=
  Label.oneConnection ++ Label.deploys 0 0 (.containerStarted "kdct-a-1" []) ++ [.restart]

set_option maxRecDepth 4000 in
theorem restartWhileDeployed_untrue :
    ¬(kdcts samplePool fun _ => none).Always (fun s => s.Calm → s.Truthful)
      (.boot .empty samplePool)
      restartWhileDeployed := by
  intro h
  obtain ⟨s, hs⟩ : ∃ s, (kdcts samplePool fun _ => none).run (.boot .empty samplePool)
      restartWhileDeployed = some s := Option.isSome_iff_exists.mp (by decide)
  have hfacts : ((kdcts samplePool fun _ => none).run (.boot .empty samplePool)
      restartWhileDeployed).map (fun s => (decide s.Calm, decide (s.shared.db.Deployed 1),
        decide (s.HasLive 1))) = some (true, true, false) := by
    decide
  rw [hs] at hfacts
  obtain ⟨hcalm, hrest⟩ := Prod.mk.inj (Option.some.inj hfacts)
  obtain ⟨hdeployed, hlive⟩ := Prod.mk.inj hrest
  obtain ⟨c, hc, hid, hstatus⟩ : s.shared.db.Deployed 1 := of_decide_eq_true hdeployed
  have hthis := (h.last hs (of_decide_eq_true hcalm)).live c hc hstatus
  rw [hid] at hthis
  exact of_decide_eq_false hlive hthis

end Kdct
