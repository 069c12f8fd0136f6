/-
The locks that are held from one step to another.

Three locks have a holder that waits for something else with the lock in its hands: that
of the route table, that of the tracker and that of the forwards.  `Critical` says where a
task is between taking a lock and giving it back, and `locks_guard` that a lock is held by
exactly the task that is there.
-/
import Kdct.Lib.Tasks
import Kdct.Server.Moves

namespace Kdct

/-! ## Critical sections -/

/-- A lock, and where the tasks are in its critical section. -/
structure Critical where
  lock : Shared → Option Holder
  deploy : DeployPc → Bool
  stop : StopPc → Bool
  sync : SyncPc → Bool

namespace Critical

/-- The lock of the route table. -/
def table : Critical where
  lock := Shared.tableLock
  deploy
    | .register .. | .push .. => true
    | _ => false
  stop
    | .release .. => true
    | _ => false
  sync
    | .release .. => true
    | _ => false

/-- The lock of the tracker; a deploy and a stop do with it what they need in one step. -/
def tracker : Critical where
  lock := Shared.trackerLock
  deploy _ := false
  stop _ := false
  sync
    | .keys .. | .table .. | .release .. => true
    | _ => false

/-- The lock of the forwards; a deploy pushes to them in one step. -/
def forwards : Critical where
  lock := Shared.forwardsLock
  deploy _ := false
  stop
    | .untrack .. => true
    | _ => false
  sync _ := false

/-- Who is in the critical section. -/
def section? (k : Critical) (s : Server) : Holder → Bool
  | .call c =>
      (s.deploys c).any (fun q => k.deploy q.2) ||
        s.stopping.any fun q => decide (q.1 = c) && k.stop q.2.2
  | .sync => k.sync s.sync

/-- The lock is held by whoever is in the critical section. -/
def Guards (k : Critical) (s : Server) : Prop := LockOk (k.section? s) (k.lock s.shared)

/-- What the tasks do with a lock. -/
structure Kept (k : Critical) : Prop where
  deploy : ∀ {s t call id fault pc next}, Shared.DeployStep s call id fault pc t next →
    LockStep (.call call) (k.deploy pc) (next.pc?.any k.deploy) (k.lock s) (k.lock t)
  stop : ∀ {s t call id fault pc next}, Shared.StopStep s call id fault pc t next →
    LockStep (.call call) (k.stop pc) (next.any k.stop) (k.lock s) (k.lock t)
  sync : ∀ {s t fault pc next}, Shared.SyncStep s fault pc t next →
    LockStep .sync (k.sync pc) (k.sync next) (k.lock s) (k.lock t)
  check : k.deploy .check = false
  start : k.stop .start = false
  idle : k.sync .idle = false
  openDb : ∀ uuid, k.sync (.openDb uuid) = false
  /-- Nothing else in the state says who holds the lock. -/
  congr : ∀ {s t : Shared}, t.tableLock = s.tableLock → t.trackerLock = s.trackerLock →
    t.forwardsLock = s.forwardsLock → k.lock t = k.lock s
  boot : ∀ db ports, k.lock (.boot db ports) = none

/-- A deploy leaves the locks of the tracker and of the forwards as they are. -/
theorem deploy_locks {s t : Shared} {call : CallId} {id : RowId} {fault : Bool} {pc : DeployPc}
    {next : DeployNext} (h : Shared.DeployStep s call id fault pc t next) :
    t.trackerLock = s.trackerLock ∧ t.forwardsLock = s.forwardsLock := by
  cases h
  case insert d env =>
    obtain ⟨_, _, _, h⟩ := s.insertWaiter_frame d.channel d.plan.containerName call
    rw [h]
    exact ⟨rfl, rfl⟩
  case gaveUp d e =>
    obtain ⟨_, _, _, h⟩ := s.removeWaiter_frame d.channel d.plan.containerName call
    rw [h]
    exact ⟨rfl, rfl⟩
  case routed d p clientPort rest path routes _ _ =>
    obtain ⟨_, _, h⟩ := ({ s with routes := routes }.note
      (.routed d path (p.poolPort.getD 0))).spawnLoops_frame d p clientPort
    rw [h]
    exact ⟨rfl, rfl⟩
  case unrouted d p clientPort rest _ =>
    obtain ⟨_, _, h⟩ := s.spawnLoops_frame d p clientPort
    rw [h]
    exact ⟨rfl, rfl⟩
  all_goals exact ⟨rfl, rfl⟩

theorem table_kept : table.Kept where
  deploy {s t call id fault pc next} h := by
    cases h
    case locked hlock => exact .acquire hlock rfl rfl
    case registered | routeRejected => exact .release rfl rfl rfl
    case insert d env =>
      obtain ⟨_, _, _, h⟩ := s.insertWaiter_frame d.channel d.plan.containerName call
      exact .keep (by rw [h]; rfl) rfl
    case gaveUp d e =>
      obtain ⟨_, _, _, h⟩ := s.removeWaiter_frame d.channel d.plan.containerName call
      exact .keep (by rw [h]; rfl) rfl
    case routed d p clientPort rest path routes _ _ =>
      obtain ⟨_, _, h⟩ := ({ s with routes := routes }.note
        (.routed d path (p.poolPort.getD 0))).spawnLoops_frame d p clientPort
      exact .keep (by rw [h]; rfl) rfl
    case unrouted d p clientPort rest _ =>
      obtain ⟨_, _, h⟩ := s.spawnLoops_frame d p clientPort
      exact .keep (by rw [h]; rfl) rfl
    case refused hpc => exact .keep rfl (by cases pc <;> first | rfl | cases hpc)
    all_goals exact .keep rfl rfl
  stop {s t call id fault pc next} h := by
    cases h
    case locked hlock => exact .acquire hlock rfl rfl
    case released => exact .release rfl rfl rfl
    case insert info nodeUuid ch =>
      obtain ⟨_, _, _, h⟩ := s.insertWaiter_frame ch info.containerName call
      exact .keep (by rw [h]; rfl) rfl
    all_goals exact .keep rfl rfl
  sync {s t fault pc next} h := by
    cases h
    case tableLocked hlock => exact .acquire hlock rfl rfl
    case released => exact .release rfl rfl rfl
    all_goals exact .keep rfl rfl
  check := rfl
  start := rfl
  idle := rfl
  openDb _ := rfl
  congr htable _ _ := htable
  boot _ _ := rfl

theorem tracker_kept : tracker.Kept where
  deploy {s t call id fault pc next} h := .keep (deploy_locks h).1 (by cases next.pc? <;> rfl)
  stop {s t call id fault pc next} h := by
    refine .keep ?_ (by cases next <;> rfl)
    cases h
    case insert info nodeUuid ch =>
      obtain ⟨_, _, _, h⟩ := s.insertWaiter_frame ch info.containerName call
      rw [h]
      rfl
    all_goals rfl
  sync {s t fault pc next} h := by
    cases h
    case locked hlock => exact .acquire hlock rfl rfl
    case unlocked => exact .release rfl rfl rfl
    all_goals exact .keep rfl rfl
  check := rfl
  start := rfl
  idle := rfl
  openDb _ := rfl
  congr _ htracker _ := htracker
  boot _ _ := rfl

theorem forwards_kept : forwards.Kept where
  deploy {s t call id fault pc next} h := .keep (deploy_locks h).2 (by cases next.pc? <;> rfl)
  stop {s t call id fault pc next} h := by
    cases h
    case forwards hlock => exact .acquire hlock rfl rfl
    case untracked => exact .release rfl rfl rfl
    case insert info nodeUuid ch =>
      obtain ⟨_, _, _, h⟩ := s.insertWaiter_frame ch info.containerName call
      exact .keep (by rw [h]; rfl) rfl
    all_goals exact .keep rfl rfl
  sync {s t fault pc next} h := by
    cases h <;> exact .keep rfl rfl
  check := rfl
  start := rfl
  idle := rfl
  openDb _ := rfl
  congr _ _ hforwards := hforwards
  boot _ _ := rfl

variable {k : Critical} {ports : FreshPool} {localAddr : LocalAddr} {s s' : Server}

theorem guards_boot (hk : k.Kept) (db : Database) (ports : FreshPool) :
    k.Guards (.boot db ports) := by
  intro h
  have hlock : k.lock (Server.boot db ports).shared = none := hk.boot db ports
  rw [hlock]
  cases h with
  | call c => exact ⟨fun h => (by cases h), fun h => (by cases h)⟩
  | sync => exact ⟨fun h => (by cases h), fun h => absurd (hk.idle.symm.trans h) (by simp)⟩

/-- Nobody enters or leaves the critical section. -/
theorem Guards.of_section (h : k.Guards s) (hlock : k.lock s'.shared = k.lock s.shared)
    (hsection : ∀ holder, k.section? s' holder = k.section? s holder) : k.Guards s' := by
  intro holder
  rw [hlock, hsection]
  exact h holder

/-- One task takes a step. -/
theorem Guards.of_update (h : k.Guards s) {holder : Holder} {b' : Bool}
    (hstep : LockStep holder (k.section? s holder) b' (k.lock s.shared) (k.lock s'.shared))
    (hsection : k.section? s' = Function.update (k.section? s) holder b') : k.Guards s' := by
  unfold Guards
  rw [hsection]
  exact LockOk.update h hstep

theorem section_congr (hdeploys : s'.deploys = s.deploys) (hstopping : s'.stopping = s.stopping)
    (hsync : k.sync s'.sync = k.sync s.sync) (holder : Holder) :
    k.section? s' holder = k.section? s holder := by
  cases holder with
  | call c => simp only [section?, hdeploys, hstopping]
  | sync => exact hsync

/-- A deploy is not the stop in progress. -/
theorem stop_section_deploy (hf : s.Fresh) {call : CallId} {q : RowId × DeployPc}
    (hpc : s.deploys call = some q) :
    (s.stopping.any fun q => decide (q.1 = call) && k.stop q.2.2) = false := by
  cases hstopping : s.stopping with
  | none => rfl
  | some q' =>
      have hne : q'.1 ≠ call := by
        intro heq
        rw [← heq, (hf.stop_lt hstopping).2] at hpc
        cases hpc
      simp [hne]

theorem section_deploy (hf : s.Fresh) {call : CallId} {id : RowId} {pc : DeployPc}
    (hpc : s.deploys call = some (id, pc)) : k.section? s (.call call) = k.deploy pc := by
  simp only [section?, hpc, stop_section_deploy hf hpc, Option.any_some, Bool.or_false]

theorem section_stop (hf : s.Fresh) {call : CallId} {id : RowId} {pc : StopPc}
    (hpc : s.stopping = some (call, id, pc)) : k.section? s (.call call) = k.stop pc := by
  simp only [section?, (hf.stop_lt hpc).2, hpc, Option.any_none, Option.any_some, decide_true,
    Bool.true_and, Bool.false_or]

/-- A deploy moves from one point to the next or ends. -/
theorem section_update_deploy (hf : s.Fresh) {call : CallId} {id : RowId} {pc : DeployPc}
    {next : Option DeployPc} (hpc : s.deploys call = some (id, pc))
    (hdeploys : s'.deploys = Function.update s.deploys call (next.map fun pc => (id, pc)))
    (hstopping : s'.stopping = s.stopping) (hsync : s'.sync = s.sync) :
    k.section? s' = Function.update (k.section? s) (.call call) (next.any k.deploy) := by
  funext holder
  cases holder with
  | sync => exact congrArg k.sync hsync
  | call c =>
      by_cases hc : c = call
      · subst hc
        rw [Function.update_self]
        simp only [section?, hdeploys, hstopping, Function.update_self, stop_section_deploy hf hpc,
          Bool.or_false]
        cases next <;> rfl
      · rw [Function.update_of_ne (by simp [hc])]
        simp only [section?, hdeploys, hstopping, Function.update_of_ne hc]

/-- The stop moves from one point to the next or ends. -/
theorem section_update_stop (hf : s.Fresh) {call : CallId} {id : RowId} {pc : StopPc}
    {next : StopNext} (hpc : s.stopping = some (call, id, pc)) (hdeploys : s'.deploys = s.deploys)
    (hstopping : s'.stopping = next.map fun pc => (call, id, pc)) (hsync : s'.sync = s.sync) :
    k.section? s' = Function.update (k.section? s) (.call call) (next.any k.stop) := by
  funext holder
  cases holder with
  | sync => exact congrArg k.sync hsync
  | call c =>
      by_cases hc : c = call
      · subst hc
        rw [Function.update_self]
        simp only [section?, hdeploys, hstopping, (hf.stop_lt hpc).2]
        cases next <;> simp
      · rw [Function.update_of_ne (by simp [hc])]
        have hne : call ≠ c := fun heq => hc heq.symm
        simp only [section?, hdeploys, hstopping, hpc]
        cases next <;> simp [hne]

theorem section_update_sync {pc : SyncPc} (hdeploys : s'.deploys = s.deploys)
    (hstopping : s'.stopping = s.stopping) (hsync : s'.sync = pc) :
    k.section? s' = Function.update (k.section? s) .sync (k.sync pc) := by
  funext holder
  cases holder with
  | sync =>
      rw [Function.update_self]
      exact congrArg k.sync hsync
  | call c =>
      rw [Function.update_of_ne (by simp)]
      simp only [section?, hdeploys, hstopping]

/-- A call that starts is in no critical section. -/
theorem section_start (hk : k.Kept) (hf : s.Fresh) {id : RowId}
    (hdeploys : s'.deploys = Function.update s.deploys s.nextCall (some (id, .check)))
    (hstopping : s'.stopping = s.stopping) (hsync : s'.sync = s.sync) (holder : Holder) :
    k.section? s' holder = k.section? s holder := by
  cases holder with
  | sync => exact congrArg k.sync hsync
  | call c =>
      by_cases hc : c = s.nextCall
      · simp only [section?, hdeploys, hstopping, hc, Function.update_self,
          hf.deploys (Nat.le_refl _), Option.any_some, Option.any_none, hk.check]
      · simp only [section?, hdeploys, hstopping, Function.update_of_ne hc]

theorem Guards.step (hk : k.Kept) (hf : s.Fresh) {label : Label}
    (hmove : s.Move ports localAddr label s') (h : k.Guards s) : k.Guards s' := by
  cases hmove with
  | @deploy _ _ call id pc t next _ hpc hstep hshared hdeploys hstopping hsync _ _ =>
      have hlock : k.lock s'.shared = k.lock t := by
        obtain ⟨log, hend⟩ := t.endCall_frame call id next
        rw [hshared, hend]
        exact hk.congr rfl rfl rfl
      refine h.of_update ?_ (section_update_deploy hf hpc hdeploys hstopping hsync)
      rw [section_deploy hf hpc, hlock]
      exact hk.deploy hstep
  | @stop _ _ call id pc after t next _ _ hpc hstep hshared hdeploys hstopping hsync _ _ _ =>
      refine h.of_update ?_ (section_update_stop hf hpc hdeploys hstopping hsync)
      rw [section_stop hf hpc, hshared]
      exact hk.stop hstep
  | @start _ _ id _ hshared hdeploys hstopping hsync _ _ _ =>
      exact h.of_section (by rw [hshared]) (section_start hk hf hdeploys hstopping hsync)
  | @startStop _ _ id _ hshared hdeploys hnone hstopping hsync _ _ _ =>
      refine h.of_section (by rw [hshared]) fun holder => ?_
      cases holder with
      | sync => exact congrArg k.sync hsync
      | call c =>
          simp only [section?, hdeploys, hstopping, hnone, Option.any_some, Option.any_none,
            hk.start, Bool.and_false]
  | @request fault r _ _ hshared hdeploys hnone hstopping hsync _ _ =>
      obtain ⟨db, pool, hframe⟩ := s.shared.request_frame fault r
      refine h.of_section ?_ (section_congr hdeploys (hstopping.trans hnone.symm) (by rw [hsync]))
      rw [hshared, hframe]
      exact hk.congr rfl rfl rfl
  | @handler fault _ t pc hstep hshared hdeploys hnone hstopping hsync _ _ =>
      obtain ⟨db, pool, hframe⟩ := Shared.handlerStep_frame hstep
      refine h.of_section ?_ (section_congr hdeploys (hstopping.trans hnone.symm) (by rw [hsync]))
      rw [hshared, hframe]
      exact hk.congr rfl rfl rfl
  | @event fault update _ hidle hshared hdeploys hstopping hsync _ _ =>
      obtain ⟨clientNodes, hframe⟩ := s.shared.syncEvent_frame fault update
      refine h.of_section ?_ (section_congr hdeploys hstopping ?_)
      · rw [hshared, hframe]
        exact hk.congr rfl rfl rfl
      · rw [hsync, hidle, hk.idle]
        unfold Shared.syncEvent
        repeat' split
        all_goals first | exact hk.idle | exact hk.openDb _
  | @sync fault _ t pc hstep hshared hdeploys hstopping hsync _ _ =>
      refine h.of_update ?_ (section_update_sync hdeploys hstopping hsync)
      rw [hshared]
      exact hk.sync hstep
  | surroundings _ hstep hdeploys hstopping hsync _ _ =>
      obtain ⟨_, _, _, _, _, htable, htracker, hforwards, _⟩ := hstep.frame
      exact h.of_section (hk.congr htable htracker hforwards)
        (section_congr hdeploys hstopping (by rw [hsync]))
  | restart =>
      have hlock : k.lock (s.restart ports).shared = k.lock (.boot s.shared.db ports) :=
        hk.congr rfl rfl rfl
      refine (guards_boot hk s.shared.db ports).of_section hlock fun holder => ?_
      cases holder <;> rfl

end Critical

namespace Server

variable {ports : FreshPool} {localAddr : LocalAddr} {s : Server}

/-! ## Every run -/

/-- The locks are held by whoever is in their critical sections, and calls are numbered. -/
structure Orderly (s : Server) : Prop where
  fresh : s.Fresh
  table : Critical.table.Guards s
  tracker : Critical.tracker.Guards s
  forwards : Critical.forwards.Guards s

theorem orderly_boot (db : Database) (ports : FreshPool) : (boot db ports).Orderly :=
  ⟨fresh_boot db ports, Critical.guards_boot Critical.table_kept db ports,
    Critical.guards_boot Critical.tracker_kept db ports,
    Critical.guards_boot Critical.forwards_kept db ports⟩

theorem Orderly.step (h : s.Orderly) {label : Label} {s' : Server}
    (hstep : s.step ports localAddr label = some s') : s'.Orderly := by
  obtain ⟨hmove, hfresh⟩ := step_move h.fresh hstep
  exact ⟨hfresh, h.table.step Critical.table_kept h.fresh hmove,
    h.tracker.step Critical.tracker_kept h.fresh hmove,
    h.forwards.step Critical.forwards_kept h.fresh hmove⟩

theorem orderly_run (ports : FreshPool) (localAddr : LocalAddr) (db : Database)
    (labels : List Label) :
    (kdcts ports localAddr).Always Orderly (.boot db ports) labels :=
  Machine.always_of_step (fun _ _ _ h hstep => h.step hstep) labels (orderly_boot db ports)

/-- In every state of every run each of the three locks is held by exactly the task that is
in its critical section. -/
theorem locks_guard (ports : FreshPool) (localAddr : LocalAddr) (db : Database)
    (labels : List Label) :
    (kdcts ports localAddr).Always
      (fun s => Critical.table.Guards s ∧ Critical.tracker.Guards s ∧ Critical.forwards.Guards s)
      (.boot db ports) labels :=
  (orderly_run ports localAddr db labels).mono fun _ h => ⟨h.table, h.tracker, h.forwards⟩

end Server

end Kdct
