/-
What deploys leave in memory: routes, tracker entries and active forwards.

The three stores are cleaned by three tasks, each of them partly, and a store does
not say which deploy an entry is from.  `entries` puts them side by side and
`creator` reads the deploy from the log.  Only three steps of a deploy add an entry;
every other step keeps or removes entries.
-/
import Kdct.Server.Isolation

namespace Kdct

/-- The deployments that deploys have recorded. -/
def Event.recorded? : Event → Option Deploy
  | .recorded d => some d
  | _ => none

inductive Entry
  | route (path : String) (port : Port)
  | record (key : DeploymentKey) (d : ActiveDeployment)
  | forward (port : Port) (sender : Sender)
  deriving DecidableEq

/-- Past the wait, where a deploy makes its entries. -/
def DeployPc.enters : DeployPc → Bool
  | .record _ | .lock _ | .register .. | .push .. | .finish _ => true
  | _ => false

namespace Shared

/-- The deploy that recorded the deployment last. -/
def recordOwner (s : Shared) (key : DeploymentKey) : Option Deploy :=
  (s.log.filterMap Event.recorded?).find? fun d => d.plan.key == key

def entries (s : Shared) : List Entry :=
  (s.routes.routes.entries.map fun e => .route e.1 e.2) ++
    (s.tracker.entries.map fun e => .record e.1 e.2) ++
      s.forwards.map fun f => .forward f.1 f.2

/-- The call that made an entry, and the connection it deployed. -/
def creator (s : Shared) : Entry → Option (CallId × RowId)
  | .route path _ => (s.routeOwner path).map fun d => (d.call, d.plan.connectionId)
  | .record key _ => (s.recordOwner key).map fun d => (d.call, d.plan.connectionId)
  | .forward _ sender => some (sender.call, sender.connectionId)

section

variable {s t : Shared}

theorem mem_entries_route {path : String} {port : Port} :
    .route path port ∈ s.entries ↔ s.routes.routes.lookup path = some port := by
  rw [← Option.mem_def, AList.mem_lookup_iff]
  simp only [entries, List.mem_append, List.mem_map, Entry.route.injEq, reduceCtorEq, and_false,
    exists_false, or_false]
  constructor
  · rintro ⟨e, he, rfl, rfl⟩
    exact he
  · exact fun he => ⟨_, he, rfl, rfl⟩

theorem mem_entries_record {key : DeploymentKey} {d : ActiveDeployment} :
    .record key d ∈ s.entries ↔ s.tracker.lookup key = some d := by
  rw [← Option.mem_def, AList.mem_lookup_iff]
  simp only [entries, List.mem_append, List.mem_map, Entry.record.injEq, reduceCtorEq, and_false,
    exists_false, or_false, false_or]
  constructor
  · rintro ⟨e, he, rfl, rfl⟩
    exact he
  · exact fun he => ⟨_, he, rfl, rfl⟩

theorem mem_entries_forward {port : Port} {sender : Sender} :
    .forward port sender ∈ s.entries ↔ (port, sender) ∈ s.forwards := by
  simp only [entries, List.mem_append, List.mem_map, Entry.forward.injEq, reduceCtorEq, and_false,
    exists_false, false_or]
  constructor
  · rintro ⟨f, hf, rfl, rfl⟩
    exact hf
  · exact fun hf => ⟨_, hf, rfl, rfl⟩

theorem creator_congr (hrouted : t.log.filterMap Event.routed? = s.log.filterMap Event.routed?)
    (hrecorded : t.log.filterMap Event.recorded? = s.log.filterMap Event.recorded?) :
    t.creator = s.creator := by
  funext e
  cases e with
  | route path port => rw [creator, routeOwner, hrouted]; rfl
  | record key d => rw [creator, recordOwner, hrecorded]; rfl
  | forward port sender => rfl

theorem entries_congr (hroutes : t.routes = s.routes) (htracker : t.tracker = s.tracker)
    (hforwards : t.forwards = s.forwards) : t.entries = s.entries := by
  rw [entries, hroutes, htracker, hforwards, entries]

variable (s) in
/-- A waiter that comes leaves the entries. -/
theorem insertWaiter_entries (ch : ChannelId) (name : String) (call : CallId) :
    (s.insertWaiter ch name call).entries = s.entries ∧
      (s.insertWaiter ch name call).creator = s.creator := by
  have hrouted := insertWaiter_log Event.routed? s ch name call fun _ => rfl
  have hrecorded := insertWaiter_log Event.recorded? s ch name call fun _ => rfl
  obtain ⟨_, _, _, h⟩ := s.insertWaiter_frame ch name call
  rw [h] at hrouted hrecorded ⊢
  exact ⟨rfl, creator_congr hrouted hrecorded⟩

variable (s) in
/-- So does a waiter that goes. -/
theorem removeWaiter_entries (ch : ChannelId) (name : String) (call : CallId) :
    (s.removeWaiter ch name call).entries = s.entries ∧
      (s.removeWaiter ch name call).creator = s.creator := by
  have hrouted := removeWaiter_log Event.routed? s ch name call fun _ => rfl
  have hrecorded := removeWaiter_log Event.recorded? s ch name call fun _ => rfl
  obtain ⟨_, _, _, h⟩ := s.removeWaiter_frame ch name call
  rw [h] at hrouted hrecorded ⊢
  exact ⟨rfl, creator_congr hrouted hrecorded⟩

end

/-- No entry is new, and those that stay have the creator they had. -/
def Shrinks (s t : Shared) : Prop := ∀ e ∈ t.entries, e ∈ s.entries ∧ t.creator e = s.creator e

theorem Shrinks.of_same {s t : Shared} (hentries : t.entries = s.entries)
    (hcreator : t.creator = s.creator) : s.Shrinks t := by
  intro e he
  exact ⟨hentries ▸ he, by rw [hcreator]⟩

end Shared

/-- The entries that the next step of a deploy may make. -/
def DeployPc.adds : DeployPc → Entry → Bool
  | .record d, e => e = .record d.plan.key d.plan.deployment
  | .register _ ((p, _) :: _), .route path port => p.route = some path && port = p.poolPort.getD 0
  | .push d (p, _) _, e => e = .forward (p.poolPort.getD 0) (d.sender p)
  | _, _ => false

/-! ## What a stop removes -/

/-- Where a stop has looked up its deployment. -/
def StopPc.found : StopPc → Bool
  | .lock .. | .release .. | .forwards .. | .untrack .. | .finish _ => true
  | _ => false

/-- The entries a stop is still going to remove. -/
def StopPc.removes : StopPc → Entry → Bool
  | .lock _ _ d, .route _ port => port ∈ d.serverPorts
  | .release _ _ _ rest, .route _ port => port ∈ rest
  | .lock _ _ d, .forward port _ | .release _ _ d _, .forward port _
  | .forwards _ _ d, .forward port _ =>
      port ∈ d.serverPorts
  | .lock info nodeUuid _, .record key _ | .release info nodeUuid _ _, .record key _
  | .forwards info nodeUuid _, .record key _ | .untrack info nodeUuid, .record key _ =>
      key = (info.connectionName, nodeUuid)
  | _, _ => false

/-- Where a stop goes when it has looked up its deployment. -/
def StopPc.finds (s : Shared) (fault : Bool) : StopPc → Option StopPc
  | .node info =>
      if fault = true ∨ info.nodeId.bind s.db.getNodeById = none then some (.finish info) else none
  | .find info nodeUuid =>
      match s.tracker.lookup (info.connectionName, nodeUuid) with
      | none => some (.finish info)
      | some d => some (.lock info nodeUuid d)
  | _ => none

namespace Shared

variable {s t : Shared} {call : CallId} {id : RowId} {fault : Bool}

theorem mem_entries_releasePort {port : Port} {e : Entry} :
    e ∈ (s.releasePort port).entries ↔ e ∈ s.entries ∧ ∀ path, e ≠ .route path port := by
  cases e with
  | route path p =>
      rw [mem_entries_route, mem_entries_route]
      show (s.routes.removeByPort port).routes.lookup path = some p ↔ _
      rw [RouteTable.removeByPort_lookup]
      simp
  | record key d => simp [mem_entries_record, releasePort]
  | forward p sender => simp [mem_entries_forward, releasePort]

theorem mem_entries_dropForwards {ports : List Port} {e : Entry} :
    e ∈ (s.dropForwards ports).entries ↔
      e ∈ s.entries ∧ ∀ port ∈ ports, ∀ sender, e ≠ .forward port sender := by
  cases e with
  | route path p => simp [mem_entries_route, dropForwards]
  | record key d => simp [mem_entries_record, dropForwards]
  | forward p sender =>
      rw [mem_entries_forward, mem_entries_forward]
      simp only [dropForwards, List.mem_filter, decide_eq_true_eq]
      grind

theorem mem_entries_untrack {key : DeploymentKey} {e : Entry} :
    e ∈ ({ s with tracker := s.tracker.erase key } : Shared).entries ↔
      e ∈ s.entries ∧ ∀ d, e ≠ .record key d := by
  cases e with
  | route path p => simp [mem_entries_route]
  | record k d =>
      rw [mem_entries_record, mem_entries_record]
      show (s.tracker.erase key).lookup k = some d ↔ _
      rw [HashMap.lookup_erase_eq]
      by_cases hk : k = key <;> simp [hk]
  | forward p sender => simp [mem_entries_forward]

/-- A stop makes no entry, and what it was going to remove and is still there it is
still going to remove. -/
theorem StopStep.entries {pc : StopPc} {next : StopNext} (h : StopStep s call id fault pc t next) :
    s.Shrinks t ∧ ∀ e ∈ t.entries, pc.removes e = true →
      ∃ pc', next = some pc' ∧ pc'.found = true ∧ pc'.removes e = true := by
  cases h
  case insert info nodeUuid ch =>
    obtain ⟨hentries, hcreator⟩ := s.insertWaiter_entries ch info.containerName call
    exact ⟨.of_same hentries hcreator, fun e _ hr => by cases hr⟩
  case locked info nodeUuid d hlock =>
    refine ⟨.of_same rfl rfl, fun e _ hr => ⟨_, rfl, rfl, ?_⟩⟩
    cases e <;> exact hr
  case release info nodeUuid d port rest =>
    refine ⟨fun e he => ⟨(mem_entries_releasePort.mp he).1, rfl⟩, fun e he hr => ⟨_, rfl, rfl, ?_⟩⟩
    cases e with
    | route path p =>
        have hne : p ≠ port := fun hp => (mem_entries_releasePort.mp he).2 path (by rw [hp])
        simpa [StopPc.removes, hne] using hr
    | record key d' => exact hr
    | forward p sender => exact hr
  case released info nodeUuid d =>
    refine ⟨.of_same rfl rfl, fun e _ hr => ⟨_, rfl, rfl, ?_⟩⟩
    cases e with
    | route path p => simp [StopPc.removes] at hr
    | record key d' => exact hr
    | forward p sender => exact hr
  case forwards info nodeUuid d hlock =>
    refine ⟨fun e he => ⟨(mem_entries_dropForwards.mp he).1, rfl⟩, fun e he hr => ⟨_, rfl, rfl, ?_⟩⟩
    cases e with
    | route path p => cases hr
    | record key d' => exact hr
    | forward p sender =>
        have hkept := (mem_entries_dropForwards (s := s)).mp he
        exact absurd rfl (hkept.2 p (by simpa [StopPc.removes] using hr) sender)
  case untracked info nodeUuid hlock =>
    refine ⟨fun e he => ⟨(mem_entries_untrack.mp he).1, rfl⟩, fun e he hr => ?_⟩
    cases e with
    | route path p => cases hr
    | record key d' =>
        have hkey : key = (info.connectionName, nodeUuid) := by simpa [StopPc.removes] using hr
        exact absurd (by rw [hkey]) ((mem_entries_untrack.mp he).2 d')
    | forward p sender => cases hr
  all_goals exact ⟨.of_same rfl rfl, fun e _ hr => by cases e <;> cases hr⟩

/-- A stop that has not found its deployment yet finds it where `finds` says. -/
theorem StopStep.finds {pc pc' : StopPc} (h : StopStep s call id fault pc t (some pc'))
    (hpc : pc.found = false) (hpc' : pc'.found = true) : pc.finds s fault = some pc' := by
  cases h
  case nodeGone info hgone => exact if_pos hgone
  case unrecorded info nodeUuid hnone => simp [StopPc.finds, hnone]
  case found info nodeUuid d hlock hfound => simp [StopPc.finds, hfound]
  all_goals first
    | cases hpc
      done
    | cases hpc'

/-- A disconnect only removes entries. -/
theorem SyncStep.entries {pc next : SyncPc} (h : SyncStep s fault pc t next) : s.Shrinks t := by
  cases h
  case erased uuid key rest d hfound => exact fun e he => ⟨(mem_entries_untrack.mp he).1, rfl⟩
  case release uuid port ports rest => exact fun e he => ⟨(mem_entries_releasePort.mp he).1, rfl⟩
  all_goals exact .of_same rfl rfl

theorem Around.entries {localAddr : LocalAddr} (h : s.Around localAddr t) : s.Shrinks t := by
  obtain ⟨-, hroutes, htracker, hforwards, -⟩ := h.frame
  exact .of_same (entries_congr hroutes htracker hforwards)
    (creator_congr (around_log _ (fun _ _ => rfl) (fun _ _ => rfl) h)
      (around_log _ (fun _ _ => rfl) (fun _ _ => rfl) h))

theorem mem_entries_insertRecord {key : DeploymentKey} {d : ActiveDeployment} {e : Entry} :
    e ∈ ({ s with tracker := s.tracker.insert key d } : Shared).entries ↔
      e = .record key d ∨ e ∈ s.entries ∧ ∀ d', e ≠ .record key d' := by
  cases e with
  | route path p => simp [mem_entries_route]
  | record k d' =>
      rw [mem_entries_record, mem_entries_record]
      show (s.tracker.insert key d).lookup k = some d' ↔ _
      rw [HashMap.lookup_insert_eq]
      by_cases hk : k = key
      · simp [hk, eq_comm]
      · simp [hk]
  | forward p sender => simp [mem_entries_forward]

theorem mem_entries_setRoute {path : String} {port : Port} {routes : RouteTable} {e : Entry}
    (h : s.routes.set path port = .ok routes) :
    e ∈ ({ s with routes := routes } : Shared).entries ↔
      e = .route path port ∨ e ∈ s.entries ∧ ∀ p, e ≠ .route path p := by
  cases e with
  | route q p =>
      rw [mem_entries_route, mem_entries_route]
      show routes.routes.lookup q = some p ↔ _
      rw [(RouteTable.set_ok h).2]
      by_cases hq : q = path
      · simp [hq, eq_comm]
      · simp [hq]
  | record k d' => simp [mem_entries_record]
  | forward p sender => simp [mem_entries_forward]

theorem mem_entries_pushForward {port : Port} {sender : Sender} {e : Entry} :
    e ∈ ({ s with forwards := s.forwards ++ [(port, sender)] } : Shared).entries ↔
      e ∈ s.entries ∨ e = .forward port sender := by
  cases e with
  | route path p => simp [mem_entries_route]
  | record k d' => simp [mem_entries_record]
  | forward p sender' => simp [mem_entries_forward]

theorem creator_noteRecorded_of_ne {d : Deploy} {e : Entry}
    (he : ∀ dep, e ≠ .record d.plan.key dep) :
    (s.note (.recorded d)).creator e = s.creator e := by
  cases e with
  | route path port => rfl
  | record key dep =>
      have hkey : ¬d.plan.key = key := fun heq => he dep (by rw [heq])
      simp [creator, recordOwner, note, Event.recorded?, hkey]
  | forward port sender => rfl

theorem creator_noteRouted_of_ne {d : Deploy} {path : String} {port : Port} {e : Entry}
    (he : ∀ p, e ≠ .route path p) :
    (s.note (.routed d path port)).creator e = s.creator e := by
  cases e with
  | route q p =>
      have hq : ¬path = q := fun heq => he p (by rw [heq])
      simp [creator, routeOwner, note, Event.routed?, hq]
  | record key dep => rfl
  | forward p sender => rfl

@[simp] theorem creator_noteRecorded {d : Deploy} {dep : ActiveDeployment} :
    (s.note (.recorded d)).creator (.record d.plan.key dep) =
      some (d.call, d.plan.connectionId) := by
  simp [creator, recordOwner, note, Event.recorded?]

@[simp] theorem creator_noteRouted {d : Deploy} {path : String} {port p : Port} :
    (s.note (.routed d path port)).creator (.route path p) =
      some (d.call, d.plan.connectionId) := by
  simp [creator, routeOwner, note, Event.routed?]

theorem spawnLoops_entries (d : Deploy) (p : BridgePort) (clientPort : Port) :
    (s.spawnLoops d p clientPort).entries = s.entries ∧
      (s.spawnLoops d p clientPort).creator = s.creator := by
  obtain ⟨_, _, h⟩ := s.spawnLoops_frame d p clientPort
  rw [h]
  exact ⟨rfl, rfl⟩

/-- What a deploy adds is its own, and it goes on. -/
theorem DeployStep.entries {pc : DeployPc} {next : DeployNext}
    (h : DeployStep s call id fault pc t next) (hb : pc.Belongs call id) :
    ∀ e ∈ (t.endCall call id next).entries,
      e ∈ s.entries ∧ (t.endCall call id next).creator e = s.creator e ∨
        pc.adds e = true ∧ (t.endCall call id next).creator e = some (call, id) ∧
          ∃ pc', next = .goto pc' ∧ pc'.enters = true := by
  have hsame : ∀ u : Shared, u.entries = s.entries → u.creator = s.creator → ∀ e ∈ u.entries,
      e ∈ s.entries ∧ u.creator e = s.creator e ∨
        pc.adds e = true ∧ u.creator e = some (call, id) ∧ ∃ pc', next = .goto pc' ∧
          pc'.enters = true :=
    fun u hentries hcreator e he => .inl (Shrinks.of_same hentries hcreator e he)
  cases h
  case insert d env =>
    obtain ⟨hentries, hcreator⟩ := s.insertWaiter_entries d.channel d.plan.containerName call
    exact hsame _ hentries hcreator
  case gaveUp d e =>
    obtain ⟨hentries, hcreator⟩ := s.removeWaiter_entries d.channel d.plan.containerName call
    exact hsame _ hentries hcreator
  case recorded d hlock =>
    intro e he
    rw [← hb.1, ← hb.2]
    change e ∈
      ({ s with tracker := s.tracker.insert d.plan.key d.plan.deployment } : Shared).entries at he
    rcases mem_entries_insertRecord.mp he with rfl | ⟨he, hne⟩
    · exact .inr ⟨decide_eq_true rfl, creator_noteRecorded, _, rfl, rfl⟩
    · exact .inl ⟨he, creator_noteRecorded_of_ne hne⟩
  case routed d p clientPort rest path routes hroute hset =>
    intro e he
    obtain ⟨hentries, hcreator⟩ :=
      spawnLoops_entries (s := ({ s with routes := routes } : Shared).note
      (.routed d path (p.poolPort.getD 0))) d p clientPort
    rw [← hb.1, ← hb.2]
    change e ∈ (spawnLoops _ d p clientPort).entries at he
    show e ∈ s.entries ∧ (spawnLoops _ d p clientPort).creator e = _ ∨
      _ ∧ (spawnLoops _ d p clientPort).creator e = _ ∧ _
    rw [hentries] at he
    rw [hcreator]
    change e ∈ ({ s with routes := routes } : Shared).entries at he
    rcases (mem_entries_setRoute hset).mp he with rfl | ⟨he, hne⟩
    · exact .inr ⟨by simp [DeployPc.adds, hroute], creator_noteRouted, _, rfl, rfl⟩
    · exact .inl ⟨he, creator_noteRouted_of_ne hne⟩
  case unrouted d p clientPort rest hroute =>
    obtain ⟨hentries, hcreator⟩ := s.spawnLoops_entries d p clientPort
    exact hsame _ hentries hcreator
  case pushed d p clientPort rest _ =>
    intro e he
    change e ∈ ({ s with forwards := s.forwards ++ [(p.poolPort.getD 0, d.sender p)] } :
      Shared).entries at he
    rcases mem_entries_pushForward.mp he with he | rfl
    · exact .inl ⟨he, rfl⟩
    · refine .inr ⟨decide_eq_true rfl, ?_, _, rfl, rfl⟩
      rw [← hb.1, ← hb.2]
      rfl
  all_goals exact hsame _ rfl rfl

end Shared

end Kdct
