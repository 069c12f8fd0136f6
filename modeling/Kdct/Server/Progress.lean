/-
The server's own tasks come to rest.

A task that blocks on a lock waits for a task that holds it, and a call waits for its
client for a bounded time.  Three locks are held while their holder waits for another one:
a deploy holds the route table's when it pushes its forwards, a stop holds the forwards'
when it takes its deployment out of the tracker, and the cleanup of a disconnect holds the
tracker's when it goes to the table.  So there is one circle, and `atRest_iff` says that it
is the only one: when none of the server's own steps is enabled, either no call, no
handler and no disconnect is in progress, or a deploy, a stop and a cleanup wait for each
other and everybody else waits for them.

`own_steps_end` says that own steps do not go on for ever, whatever fails on the way: a
handler spawns deploys and walks lists that it reads from the database, but every step
leaves less to do in the ranks below.
-/
import Kdct.Server.Locks
import Mathlib.Data.Prod.Lex

namespace Kdct

/-! ## What is left to do -/

/-- What a task has left to do, compared from the left. -/
abbrev Rank := ℕ ×ₗ ℕ ×ₗ ℕ ×ₗ ℕ

def rank (a b c d : ℕ) : Rank := toLex (a, toLex (b, toLex (c, d)))

theorem rank_lt {a b c d a' b' c' d' : ℕ} :
    rank a b c d < rank a' b' c' d' ↔
      a < a' ∨ a = a' ∧ (b < b' ∨ b = b' ∧ (c < c' ∨ c = c' ∧ d < d')) := by
  simp only [rank, Prod.Lex.toLex_lt_toLex]

def DeployPc.stage : DeployPc → ℕ
  | .check => 16
  | .connection => 15
  | .node .. => 14
  | .image .. => 13
  | .ports .. => 12
  | .conflicts _ => 11
  | .registry _ => 10
  | .envs _ => 9
  | .insert .. => 8
  | .send .. => 7
  | .wait _ => 6
  | .giveUp .. => 5
  | .record _ => 4
  | .lock _ => 3
  | .register .. | .push .. => 2
  | .finish _ => 1

/-- What the loop over the ports has left to do. -/
def DeployPc.left : DeployPc → ℕ
  | .register _ rest => 2 * rest.length
  | .push _ _ rest => 2 * rest.length + 1
  | _ => 0

def StopPc.stage : StopPc → ℕ
  | .start => 12
  | .node _ => 11
  | .registry .. => 10
  | .insert .. => 9
  | .send .. => 8
  | .wait .. => 7
  | .find .. => 6
  | .lock .. => 5
  | .release .. => 4
  | .forwards .. => 3
  | .untrack .. => 2
  | .finish _ => 1

def StopPc.left : StopPc → ℕ
  | .release _ _ _ rest => rest.length
  | _ => 0

def SyncPc.rank? : SyncPc → Option Rank
  | .idle => none
  | .openDb _ => some (rank 7 0 0 0)
  | .offline _ => some (rank 6 0 0 0)
  | .findNode _ => some (rank 5 0 0 0)
  | .list .. => some (rank 4 0 0 0)
  | .pend _ _ rest => some (rank 3 rest.length 0 0)
  | .tracker _ => some (rank 2 0 0 0)
  | .keys _ rest => some (rank 1 rest.length 0 0)
  | .table _ d rest => some (rank 1 rest.length (d.serverPorts.length + 2) 0)
  | .release _ ports rest => some (rank 1 rest.length (ports.length + 1) 0)

def DeployPc.rank (pc : DeployPc) : Rank := Kdct.rank 0 0 pc.stage pc.left

def ApiPc.rank? : ApiPc → Option Rank
  | .idle => none
  | .autoNext rest => some (rank 1 rest.length 0 0)
  | .autoDeploy _ _ pc rest => some (rank 1 rest.length pc.stage pc.left)
  | .unreserve _ | .deleteBridge _ | .deletePort .. | .spawn _ | .delete _ | .autoCheck =>
      some (rank 2 0 0 0)
  | .releaseBridge _ rest => some (rank 3 rest.length 0 0)
  | .insertPort .. | .releasePort .. | .newSlots .. | .patch .. => some (rank 3 0 0 0)
  | .stopping _ _ pc _ => some (rank 4 0 pc.stage pc.left)
  | .bridgePorts _ | .bridgePort .. => some (rank 4 0 0 0)
  | .stop .. => some (rank 5 0 0 0)
  | .patchCheck .. | .deleteCheck _ => some (rank 6 0 0 0)

/-! ## Every step leaves less to do -/

namespace Shared

variable {s t : Shared} {fault : Bool}

theorem DeployStep.smaller {call : CallId} {id : RowId} {pc next : DeployPc}
    (h : DeployStep s call id fault pc t (.goto next)) :
    next.stage < pc.stage ∨ next.stage = pc.stage ∧ next.left < pc.left := by
  cases h
  case routed | unrouted | pushed =>
    refine .inr ⟨rfl, ?_⟩
    simp only [DeployPc.left, List.length_cons]
    omega
  all_goals
    refine .inl ?_
    simp only [DeployPc.stage]
    omega

theorem StopStep.smaller {call : CallId} {id : RowId} {pc next : StopPc}
    (h : StopStep s call id fault pc t (some next)) :
    next.stage < pc.stage ∨ next.stage = pc.stage ∧ next.left < pc.left := by
  cases h
  case release =>
    refine .inr ⟨rfl, ?_⟩
    simp only [StopPc.left, List.length_cons]
    omega
  all_goals
    refine .inl ?_
    simp only [StopPc.stage]
    omega

theorem SyncStep.smaller {pc next : SyncPc} (h : SyncStep s fault pc t next) :
    ∃ a, pc.rank? = some a ∧ ∀ b ∈ next.rank?, b < a := by
  cases h <;> refine ⟨_, rfl, ?_⟩ <;> intro b hb <;>
    simp only [SyncPc.rank?, Option.mem_def, Option.some.injEq, reduceCtorEq] at hb <;>
    subst hb <;> rw [rank_lt] <;> simp

/-- A handler that goes on has less to do. -/
theorem handlerStep_smaller {pc next : ApiPc} (h : s.handlerStep fault pc = some (t, next)) :
    ∃ a, pc.rank? = some a ∧ ∀ b ∈ next.rank?, b < a := by
  cases pc
  case releaseBridge bridgeId rest =>
    cases rest with
    | nil =>
        obtain ⟨rfl, rfl⟩ := Prod.mk.inj (Option.some.inj h)
        refine ⟨_, rfl, ?_⟩
        rintro b ⟨⟩
        simp [rank_lt]
    | cons port rest =>
        obtain ⟨rfl, rfl⟩ := Prod.mk.inj (Option.some.inj h)
        refine ⟨_, rfl, ?_⟩
        rintro b ⟨⟩
        simp [rank_lt]
  case autoNext rest =>
    cases rest with
    | nil =>
        obtain ⟨rfl, rfl⟩ := Prod.mk.inj (Option.some.inj h)
        exact ⟨_, rfl, fun b hb => by cases hb⟩
    | cons id rest => cases h
  all_goals
    unfold handlerStep at h
    dsimp only at h
    repeat' split at h
    all_goals first
      | cases h
        done
      | obtain ⟨rfl, rfl⟩ := Prod.mk.inj (Option.some.inj h)
        refine ⟨_, rfl, ?_⟩
        try split
        all_goals
          rintro b ⟨⟩
          try simp [rank_lt]

end Shared

namespace Label

/-- The steps that the server's own tasks take. -/
def Own : Label → Prop
  | .attempt .. | .api _ | .sync _ => True
  | _ => False

end Label

namespace Server

open Machine (inSlots inSlots_succ inSlots_congr cutExpand_inSlots one cutExpand_one)

/-- The spawned deploys, one in each slot. -/
def attemptTasks (s : Server) (call : CallId) : Multiset Rank :=
  one ((s.attempts call).map fun q => q.2.rank)

def tasks (s : Server) : Multiset Rank :=
  one s.sync.rank? + (one s.api.rank? + inSlots s.attemptTasks s.nextCall)

section

variable {ports : FreshPool} {localAddr : LocalAddr} {s s' : Server}

/-- A call that gets a number without a task. -/
theorem inSlots_nextCall (hf : s.Fresh) :
    inSlots s.attemptTasks (s.nextCall + 1) = inSlots s.attemptTasks s.nextCall := by
  have hnone : s.attemptTasks s.nextCall = 0 := by
    rw [attemptTasks, hf.attempts _ (Nat.le_refl _)]
    rfl
  rw [inSlots_succ, hnone, add_zero]

/-- The API thread moves on and leaves the spawned deploys as they are. -/
theorem cutExpand_api {a : Rank} (hsync : s'.sync = s.sync) (hapi : s.api.rank? = some a)
    (hsmaller : ∀ b ∈ s'.api.rank?, b < a)
    (hslots : inSlots s'.attemptTasks s'.nextCall = inSlots s.attemptTasks s.nextCall) :
    Relation.CutExpand (· < ·) s'.tasks s.tasks := by
  unfold tasks
  rw [hsync, hapi, hslots]
  refine (Relation.cutExpand_add_left _).mpr ((Relation.cutExpand_add_right _).mpr ?_)
  exact cutExpand_one hsmaller

theorem cutExpand_attempt (hf : s.Fresh) {call : CallId} {fault : Bool}
    (h : s.attemptStep call fault = some s') :
    Relation.CutExpand (· < ·) s'.tasks s.tasks := by
  obtain ⟨⟨id, pc⟩, hcall, h⟩ := Option.bind_eq_some_iff.mp h
  obtain ⟨⟨t, next⟩, hstep, rfl⟩ := Option.map_eq_some_iff.mp h
  have hlt : call < s.nextCall := by
    by_contra hge
    rw [hf.attempts call (Nat.le_of_not_lt hge)] at hcall
    cases hcall
  refine (Relation.cutExpand_add_left _).mpr ((Relation.cutExpand_add_left _).mpr ?_)
  refine cutExpand_inSlots hlt (fun c hc => ?_) ?_
  · simp only [attemptTasks, Function.update_of_ne hc]
  · have hbefore : s.attemptTasks call = {pc.rank} := by
      rw [attemptTasks, hcall]
      rfl
    rw [hbefore]
    simp only [attemptTasks, Function.update_self]
    refine cutExpand_one fun b hb => ?_
    cases next with
    | goto next =>
        obtain rfl := Option.some.inj hb
        have hsmaller := (Shared.deployStep_cases hstep).smaller
        exact rank_lt.mpr (.inr ⟨rfl, .inr ⟨rfl, hsmaller⟩⟩)
    | skip => cases hb
    | exit result => cases hb

/-- A spawned deploy ranks below the handler that spawns it. -/
theorem cutExpand_spawn {id : RowId} (hapi : s.api = .spawn id) :
    Relation.CutExpand (· < ·) { s.spawnAttempt id with api := .idle }.tasks s.tasks := by
  have hold : inSlots { s.spawnAttempt id with api := .idle }.attemptTasks s.nextCall =
      inSlots s.attemptTasks s.nextCall := by
    refine inSlots_congr fun c hc => ?_
    simp only [attemptTasks, spawnAttempt, Function.update_of_ne (Nat.ne_of_lt hc)]
  have hnew : { s.spawnAttempt id with api := .idle }.attemptTasks s.nextCall =
      one (some DeployPc.check.rank) := by
    simp only [attemptTasks, spawnAttempt, Function.update_self, Option.map_some]
  have htasks : { s.spawnAttempt id with api := .idle }.tasks =
      one s.sync.rank? + (one (some DeployPc.check.rank) + inSlots s.attemptTasks s.nextCall) := by
    show one s.sync.rank? + (0 + inSlots _ (s.nextCall + 1)) = _
    rw [inSlots_succ, hold, hnew, zero_add,
      add_comm (inSlots s.attemptTasks s.nextCall) (one (some DeployPc.check.rank))]
  rw [htasks, tasks, hapi]
  refine (Relation.cutExpand_add_left _).mpr ((Relation.cutExpand_add_right _).mpr ?_)
  refine cutExpand_one fun b hb => ?_
  obtain rfl := Option.some.inj hb
  exact rank_lt.mpr (.inl (by omega))

theorem cutExpand_apiStep (hf : s.Fresh) {fault : Bool} (h : s.apiStep fault = some s') :
    Relation.CutExpand (· < ·) s'.tasks s.tasks := by
  unfold apiStep at h
  split at h
  · rename_i id hapi
    obtain rfl := Option.some.inj h
    exact cutExpand_spawn hapi
  · rename_i id after hapi
    obtain rfl := Option.some.inj h
    refine cutExpand_api rfl (congrArg ApiPc.rank? hapi) ?_ (inSlots_nextCall hf)
    rintro b ⟨⟩
    exact rank_lt.mpr (.inl (by omega))
  · rename_i call id pc after hapi
    obtain ⟨⟨t, next⟩, hstep, rfl⟩ := Option.map_eq_some_iff.mp h
    refine cutExpand_api rfl (congrArg ApiPc.rank? hapi) ?_ rfl
    cases next with
    | some next =>
        rintro b ⟨⟩
        exact rank_lt.mpr (.inr ⟨rfl, .inr ⟨rfl, (Shared.stopStep_cases hstep).smaller⟩⟩)
    | none =>
        cases after <;> rintro b ⟨⟩ <;> exact rank_lt.mpr (.inl (by omega))
  · rename_i id rest hapi
    obtain rfl := Option.some.inj h
    refine cutExpand_api rfl (congrArg ApiPc.rank? hapi) ?_ (inSlots_nextCall hf)
    rintro b ⟨⟩
    exact rank_lt.mpr (.inr ⟨rfl, .inl (by simp)⟩)
  · rename_i call id pc rest hapi
    obtain ⟨⟨t, next⟩, hstep, rfl⟩ := Option.map_eq_some_iff.mp h
    refine cutExpand_api rfl (congrArg ApiPc.rank? hapi) ?_ rfl
    have hpos : 0 < pc.stage := by cases pc <;> simp [DeployPc.stage]
    cases next with
    | goto next =>
        rintro b ⟨⟩
        exact rank_lt.mpr (.inr ⟨rfl, .inr ⟨rfl, (Shared.deployStep_cases hstep).smaller⟩⟩)
    | skip | exit =>
        rintro b ⟨⟩
        exact rank_lt.mpr (.inr ⟨rfl, .inr ⟨rfl, .inl hpos⟩⟩)
  · obtain ⟨⟨t, pc⟩, hstep, rfl⟩ := Option.map_eq_some_iff.mp h
    obtain ⟨a, ha, hsmaller⟩ := Shared.handlerStep_smaller hstep
    exact cutExpand_api rfl ha hsmaller rfl

theorem cutExpand_step (hf : s.Fresh) {label : Label} (hown : label.Own)
    (h : s.step ports localAddr label = some s') :
    Relation.CutExpand (· < ·) s'.tasks s.tasks := by
  cases label with
  | attempt call fault => exact cutExpand_attempt hf h
  | api fault => exact cutExpand_apiStep hf h
  | sync fault =>
      obtain ⟨⟨t, pc⟩, hstep, rfl⟩ := Option.map_eq_some_iff.mp h
      obtain ⟨a, ha, hsmaller⟩ := (Shared.syncStep_cases hstep).smaller
      unfold tasks
      rw [ha]
      exact (Relation.cutExpand_add_right _).mpr (cutExpand_one hsmaller)
  | _ => exact absurd hown id

end

end Server

/-! ## Waiting -/

/-- The locks that a task holds while it waits for another one. -/
inductive Lock
  | table
  | tracker
  | forwards
  deriving DecidableEq

def Shared.holder (s : Shared) : Lock → Option Holder
  | .table => s.tableLock
  | .tracker => s.trackerLock
  | .forwards => s.forwardsLock

/-- The lock that the next step takes or reads under. -/
def DeployPc.waitsFor : DeployPc → Option Lock
  | .conflicts _ | .lock _ => some .table
  | .record _ => some .tracker
  | .push .. => some .forwards
  | _ => none

def StopPc.waitsFor : StopPc → Option Lock
  | .lock .. => some .table
  | .find .. | .untrack .. => some .tracker
  | .forwards .. => some .forwards
  | _ => none

def SyncPc.waitsFor : SyncPc → Option Lock
  | .table .. => some .table
  | .tracker _ => some .tracker
  | _ => none

namespace Shared

variable {s : Shared} {call : CallId} {id : RowId} {fault : Bool} {l : Lock}

theorem deployStep_of_held {pc : DeployPc} (hwaits : pc.waitsFor = some l)
    (hheld : s.holder l ≠ none) : s.deployStep call id fault pc = none := by
  cases pc with
  | conflicts | lock | record | push =>
      obtain rfl := Option.some.inj hwaits
      exact if_pos (Option.isSome_iff_ne_none.mpr hheld)
  | _ => cases hwaits

theorem stopStep_of_held {pc : StopPc} (hwaits : pc.waitsFor = some l)
    (hheld : s.holder l ≠ none) : s.stopStep call id fault pc = none := by
  cases pc with
  | lock | find | untrack | forwards =>
      obtain rfl := Option.some.inj hwaits
      exact if_pos (Option.isSome_iff_ne_none.mpr hheld)
  | _ => cases hwaits

theorem syncStep_of_held {pc : SyncPc} (hwaits : pc.waitsFor = some l)
    (hheld : s.holder l ≠ none) : s.syncStep fault pc = none := by
  cases pc with
  | table | tracker =>
      obtain rfl := Option.some.inj hwaits
      exact if_pos (Option.isSome_iff_ne_none.mpr hheld)
  | _ => cases hwaits

/-- A deploy whose time is up waits for a lock or for nothing. -/
theorem deployStep_eq_none {pc : DeployPc} (h : s.deployStep call id true pc = none) :
    ∃ l, pc.waitsFor = some l ∧ s.holder l ≠ none := by
  cases pc with
  | conflicts plan =>
      refine ⟨.table, rfl, fun hfree => ?_⟩
      replace hfree : s.tableLock = none := hfree
      simp only [deployStep, hfree, fail, Option.isSome_none, Bool.false_eq_true, if_false] at h
      split at h <;> cases h
  | lock d =>
      refine ⟨.table, rfl, fun hfree => ?_⟩
      replace hfree : s.tableLock = none := hfree
      simp [deployStep, hfree] at h
  | record d =>
      refine ⟨.tracker, rfl, fun hfree => ?_⟩
      replace hfree : s.trackerLock = none := hfree
      simp [deployStep, hfree] at h
  | push d port rest =>
      refine ⟨.forwards, rfl, fun hfree => ?_⟩
      replace hfree : s.forwardsLock = none := hfree
      simp [deployStep, hfree] at h
  | register d rest =>
      cases rest with
      | nil => cases h
      | cons port rest =>
          simp only [deployStep, fail] at h
          repeat' split at h
          all_goals cases h
  | wait d =>
      simp only [deployStep] at h
      repeat' split at h
      all_goals cases h
      contradiction
  | registry plan =>
      simp only [deployStep, fail] at h
      split at h <;> cases h
  | send d env =>
      simp only [deployStep, fail] at h
      split at h <;> cases h
  | _ => cases h

theorem stopStep_eq_none {pc : StopPc} (h : s.stopStep call id true pc = none) :
    ∃ l, pc.waitsFor = some l ∧ s.holder l ≠ none := by
  cases pc with
  | find info nodeUuid =>
      refine ⟨.tracker, rfl, fun hfree => ?_⟩
      replace hfree : s.trackerLock = none := hfree
      simp only [stopStep, hfree, Option.isSome_none, Bool.false_eq_true, if_false] at h
      split at h <;> cases h
  | lock info nodeUuid d =>
      refine ⟨.table, rfl, fun hfree => ?_⟩
      replace hfree : s.tableLock = none := hfree
      simp [stopStep, hfree] at h
  | forwards info nodeUuid d =>
      refine ⟨.forwards, rfl, fun hfree => ?_⟩
      replace hfree : s.forwardsLock = none := hfree
      simp [stopStep, hfree] at h
  | untrack info nodeUuid =>
      refine ⟨.tracker, rfl, fun hfree => ?_⟩
      replace hfree : s.trackerLock = none := hfree
      simp [stopStep, hfree] at h
  | release info nodeUuid d rest => cases rest <;> cases h
  | wait info nodeUuid =>
      simp only [stopStep] at h
      repeat' split at h
      all_goals cases h
      contradiction
  | node info =>
      simp only [stopStep] at h
      split at h <;> cases h
  | registry info nodeUuid =>
      simp only [stopStep] at h
      split at h <;> cases h
  | _ => cases h

theorem syncStep_eq_none {pc : SyncPc} (h : s.syncStep true pc = none) :
    pc = .idle ∨ ∃ l, pc.waitsFor = some l ∧ s.holder l ≠ none := by
  cases pc with
  | idle => exact .inl rfl
  | tracker uuid =>
      refine .inr ⟨.tracker, rfl, fun hfree => ?_⟩
      replace hfree : s.trackerLock = none := hfree
      simp [syncStep, hfree] at h
  | table uuid d rest =>
      refine .inr ⟨.table, rfl, fun hfree => ?_⟩
      replace hfree : s.tableLock = none := hfree
      simp [syncStep, hfree] at h
  | keys uuid rest =>
      cases rest with
      | nil => cases h
      | cons key rest =>
          simp only [syncStep] at h
          split at h <;> cases h
  | pend uuid nodeId rest => cases rest <;> cases h
  | release uuid ports rest => cases ports <;> cases h
  | _ => cases h

/-- No step of a handler waits for anybody. -/
theorem handlerStep_eq_none {pc : ApiPc} (h : s.handlerStep true pc = none) :
    pc = .idle ∨ (∃ id, pc = .spawn id) ∨ (∃ id after, pc = .stop id after) ∨
      (∃ call id pc' after, pc = .stopping call id pc' after) ∨
      (∃ id rest, pc = .autoNext (id :: rest)) ∨
      ∃ call id pc' rest, pc = .autoDeploy call id pc' rest := by
  cases pc with
  | releaseBridge bridgeId rest => cases rest <;> cases h
  | newSlots id slots =>
      have h : ite _ _ _ = none := h
      split at h <;> cases h
  | autoNext rest =>
      cases rest with
      | nil => cases h
      | cons id rest => simp
  | idle | spawn | stop | stopping | autoDeploy => simp
  | _ => cases h

end Shared

namespace Server

variable {ports : FreshPool} {localAddr : LocalAddr} {s : Server}

/-- No call, no handler and no disconnect is in progress, and the locks are free. -/
structure Rested (s : Server) : Prop where
  api : s.api = .idle
  sync : s.sync = .idle
  attempts : ∀ call, s.attempts call = none
  free : ∀ l, s.shared.holder l = none

/-- A stop holds the forwards and waits for the tracker, the cleanup of a disconnect holds
the tracker and waits for the table, a deploy holds the table and waits for the forwards, and
every other deploy waits for one of the three. -/
structure Deadlocked (s : Server) : Prop where
  stop : ∃ call id info nodeUuid, s.stopping = some (call, id, .untrack info nodeUuid)
  sync : ∃ uuid d rest, s.sync = .table uuid d rest
  deploy : ∃ call id d port rest, s.attempts call = some (id, .push d port rest)
  others : ∀ call id pc, s.attempts call = some (id, pc) → pc.waitsFor ≠ none

section Rest

variable (hrest : (kdcts ports localAddr).AtRest Label.Own s)
include hrest

theorem deployStep_of_atRest {call : CallId} {id : RowId} {pc : DeployPc}
    (hpc : s.deploys call = some (id, pc)) : s.shared.deployStep call id true pc = none := by
  have hattempt : s.attempts call = some (id, pc) → s.shared.deployStep call id true pc = none := by
    intro hcall
    have hnone : s.attemptStep call true = none := hrest (.attempt call true) trivial
    simpa [attemptStep, hcall] using hnone
  unfold deploys at hpc
  split at hpc
  · rename_i c i p rest hapi
    split at hpc
    · rename_i hc
      subst hc
      obtain ⟨rfl, rfl⟩ := Prod.mk.inj (Option.some.inj hpc)
      have hnone : s.apiStep true = none := hrest (.api true) trivial
      simpa [apiStep, hapi] using hnone
    · exact hattempt hpc
  · exact hattempt hpc

theorem stopStep_of_atRest {call : CallId} {id : RowId} {pc : StopPc}
    (hpc : s.stopping = some (call, id, pc)) : s.shared.stopStep call id true pc = none := by
  unfold stopping at hpc
  split at hpc
  · rename_i c i p after hapi
    obtain ⟨rfl, rfl, rfl⟩ : c = call ∧ i = id ∧ p = pc := by simpa using hpc
    have hnone : s.apiStep true = none := hrest (.api true) trivial
    simpa [apiStep, hapi] using hnone
  · cases hpc

theorem syncStep_of_atRest : s.shared.syncStep true s.sync = none := by
  have hnone : (s.shared.syncStep true s.sync).map _ = none := hrest (.sync true) trivial
  exact Option.map_eq_none_iff.mp hnone

/-- Whoever holds the table and cannot go on is a deploy that waits for the forwards. -/
theorem table_of_atRest (ho : s.Orderly) (hheld : s.shared.holder .table ≠ none) :
    (∃ call id d port rest, s.deploys call = some (id, .push d port rest)) ∧
      s.shared.holder .forwards ≠ none := by
  obtain ⟨holder, hholder⟩ := Option.ne_none_iff_exists'.mp hheld
  have hin := (ho.table holder).mp hholder
  cases holder with
  | call c =>
      rcases (Bool.or_eq_true _ _).mp hin with hdeploy | hstop
      · obtain ⟨⟨id, pc⟩, hpc, hcritical⟩ := (Option.any_eq_true ..).mp hdeploy
        obtain ⟨l, hwaits, hl⟩ := Shared.deployStep_eq_none (deployStep_of_atRest hrest hpc)
        cases pc with
        | push d port rest =>
            obtain rfl := Option.some.inj hwaits
            exact ⟨⟨c, id, d, port, rest, hpc⟩, hl⟩
        | register => cases hwaits
        | _ => cases hcritical
      · obtain ⟨⟨c', id, pc⟩, hpc, hcritical⟩ := (Option.any_eq_true ..).mp hstop
        obtain ⟨l, hwaits, -⟩ := Shared.stopStep_eq_none (stopStep_of_atRest hrest hpc)
        have hcritical := ((Bool.and_eq_true _ _).mp hcritical).2
        cases pc with
        | release => cases hwaits
        | _ => cases hcritical
  | sync =>
      have hin : Critical.table.sync s.sync = true := hin
      rcases Shared.syncStep_eq_none (syncStep_of_atRest hrest) with hpc | ⟨l, hwaits, -⟩
      · rw [hpc] at hin
        cases hin
      · cases hpc : s.sync with
        | release =>
            rw [hpc] at hwaits
            cases hwaits
        | _ =>
            rw [hpc] at hin
            cases hin

/-- Whoever holds the tracker and cannot go on is a cleanup that waits for the table. -/
theorem tracker_of_atRest (ho : s.Orderly) (hheld : s.shared.holder .tracker ≠ none) :
    (∃ uuid d rest, s.sync = .table uuid d rest) ∧ s.shared.holder .table ≠ none := by
  obtain ⟨holder, hholder⟩ := Option.ne_none_iff_exists'.mp hheld
  have hin := (ho.tracker holder).mp hholder
  cases holder with
  | call c =>
      rcases (Bool.or_eq_true _ _).mp hin with hdeploy | hstop
      · obtain ⟨q, -, hcritical⟩ := (Option.any_eq_true ..).mp hdeploy
        cases hcritical
      · obtain ⟨q, -, hcritical⟩ := (Option.any_eq_true ..).mp hstop
        cases ((Bool.and_eq_true _ _).mp hcritical).2
  | sync =>
      have hin : Critical.tracker.sync s.sync = true := hin
      rcases Shared.syncStep_eq_none (syncStep_of_atRest hrest) with hpc | ⟨l, hwaits, hl⟩
      · rw [hpc] at hin
        cases hin
      · cases hpc : s.sync with
        | table uuid d rest =>
            rw [hpc] at hwaits
            obtain rfl := Option.some.inj hwaits
            exact ⟨⟨uuid, d, rest, rfl⟩, hl⟩
        | keys | release =>
            rw [hpc] at hwaits
            cases hwaits
        | _ =>
            rw [hpc] at hin
            cases hin

/-- Whoever holds the forwards and cannot go on is a stop that waits for the tracker. -/
theorem forwards_of_atRest (ho : s.Orderly) (hheld : s.shared.holder .forwards ≠ none) :
    (∃ call id info nodeUuid, s.stopping = some (call, id, .untrack info nodeUuid)) ∧
      s.shared.holder .tracker ≠ none := by
  obtain ⟨holder, hholder⟩ := Option.ne_none_iff_exists'.mp hheld
  have hin := (ho.forwards holder).mp hholder
  cases holder with
  | call c =>
      rcases (Bool.or_eq_true _ _).mp hin with hdeploy | hstop
      · obtain ⟨q, -, hcritical⟩ := (Option.any_eq_true ..).mp hdeploy
        cases hcritical
      · obtain ⟨⟨c', id, pc⟩, hpc, hcritical⟩ := (Option.any_eq_true ..).mp hstop
        obtain ⟨l, hwaits, hl⟩ := Shared.stopStep_eq_none (stopStep_of_atRest hrest hpc)
        have hcritical := ((Bool.and_eq_true _ _).mp hcritical).2
        cases pc with
        | untrack info nodeUuid =>
            obtain rfl := Option.some.inj hwaits
            exact ⟨⟨c', id, info, nodeUuid, hpc⟩, hl⟩
        | _ => cases hcritical
  | sync => cases hin

theorem attempt_waits_of_atRest (ho : s.Orderly) {call : CallId} {id : RowId} {pc : DeployPc}
    (hcall : s.attempts call = some (id, pc)) : ∃ l, pc.waitsFor = some l ∧
      s.shared.holder l ≠ none :=
  Shared.deployStep_eq_none (deployStep_of_atRest hrest (ho.fresh.attempt_deploys hcall))

theorem deadlocked_of_atRest (ho : s.Orderly) {l : Lock} (hheld : s.shared.holder l ≠ none) :
    s.Deadlocked := by
  have hnext : s.shared.holder .table ≠ none := by
    cases l with
    | table => exact hheld
    | tracker => exact (tracker_of_atRest hrest ho hheld).2
    | forwards => exact (tracker_of_atRest hrest ho (forwards_of_atRest hrest ho hheld).2).2
  obtain ⟨⟨call, id, d, port, rest, hdeploy⟩, hforwards⟩ := table_of_atRest hrest ho hnext
  obtain ⟨hstop, htracker⟩ := forwards_of_atRest hrest ho hforwards
  refine ⟨hstop, (tracker_of_atRest hrest ho htracker).1, ⟨call, id, d, port, rest, ?_⟩, ?_⟩
  · -- The API's thread is in the stop.
    obtain ⟨_, _, _, _, hstop⟩ := hstop
    unfold stopping at hstop
    unfold deploys at hdeploy
    split at hdeploy
    · rename_i hapi
      rw [hapi] at hstop
      cases hstop
    · exact hdeploy
  · intro call id pc hcall
    obtain ⟨l, hwaits, -⟩ := attempt_waits_of_atRest hrest ho hcall
    rw [hwaits]
    exact Option.some_ne_none l

theorem rested_of_atRest (ho : s.Orderly) (hfree : ∀ l, s.shared.holder l = none) :
    s.Rested := by
  have hdeploys : ∀ call, s.deploys call = none := by
    intro call
    cases hpc : s.deploys call with
    | none => rfl
    | some q =>
        obtain ⟨l, -, hl⟩ := Shared.deployStep_eq_none (deployStep_of_atRest hrest hpc)
        exact absurd (hfree l) hl
  have hstopping : s.stopping = none := by
    cases hpc : s.stopping with
    | none => rfl
    | some q =>
        obtain ⟨l, -, hl⟩ := Shared.stopStep_eq_none (stopStep_of_atRest hrest hpc)
        exact absurd (hfree l) hl
  refine ⟨?_, ?_, ?_, hfree⟩
  · have hnone : s.apiStep true = none := hrest (.api true) trivial
    unfold apiStep at hnone
    split at hnone
    · cases hnone
    · cases hnone
    · rename_i call id pc after hapi
      simp [stopping, hapi] at hstopping
    · cases hnone
    · rename_i call id pc rest hapi
      have hsome := hdeploys call
      simp [deploys, hapi] at hsome
    · rename_i hspawn hstop hstopping hnext hauto
      rcases Shared.handlerStep_eq_none (Option.map_eq_none_iff.mp hnone) with
        h | ⟨_, h⟩ | ⟨_, _, h⟩ | ⟨_, _, _, _, h⟩ | ⟨_, _, h⟩ | ⟨_, _, _, _, h⟩
      · exact h
      · exact absurd h (hspawn _)
      · exact absurd h (hstop _ _)
      · exact absurd h (hstopping _ _ _ _)
      · exact absurd h (hnext _ _)
      · exact absurd h (hauto _ _ _ _)
  · rcases Shared.syncStep_eq_none (syncStep_of_atRest hrest) with h | ⟨l, -, hl⟩
    · exact h
    · exact absurd (hfree l) hl
  · intro call
    cases hcall : s.attempts call with
    | none => rfl
    | some q => exact absurd ((ho.fresh.attempt_deploys hcall).symm.trans (hdeploys call)) (by simp)

end Rest

/-- A server with nothing in progress has no own step. -/
theorem Rested.atRest (h : s.Rested) : (kdcts ports localAddr).AtRest Label.Own s := by
  intro label hown
  cases label with
  | attempt call fault =>
      show s.attemptStep call fault = none
      rw [attemptStep, h.attempts call]
      rfl
  | api fault =>
      show s.apiStep fault = none
      unfold apiStep
      rw [h.api]
      rfl
  | sync fault =>
      show (s.shared.syncStep fault s.sync).map _ = none
      simp only [h.sync, Shared.syncStep, Option.map_none]
  | _ => exact absurd hown id

/-- The three locks are held. -/
theorem Deadlocked.held (h : s.Deadlocked) (ho : s.Orderly) (l : Lock) :
    s.shared.holder l ≠ none := by
  have hheld : ∃ holder, s.shared.holder l = some holder := by
    cases l with
    | table =>
        obtain ⟨call, id, d, port, rest, hcall⟩ := h.deploy
        refine ⟨.call call, (ho.table (.call call)).mpr ?_⟩
        exact Critical.section_deploy ho.fresh (ho.fresh.attempt_deploys hcall)
    | tracker =>
        obtain ⟨uuid, d, rest, hsync⟩ := h.sync
        refine ⟨.sync, (ho.tracker .sync).mpr ?_⟩
        exact congrArg Critical.tracker.sync hsync
    | forwards =>
        obtain ⟨call, id, info, nodeUuid, hstop⟩ := h.stop
        refine ⟨.call call, (ho.forwards (.call call)).mpr ?_⟩
        exact Critical.section_stop ho.fresh hstop
  obtain ⟨holder, hholder⟩ := hheld
  rw [hholder]
  exact Option.some_ne_none holder

/-- Nothing gets out of a deadlock. -/
theorem Deadlocked.atRest (h : s.Deadlocked) (ho : s.Orderly) :
    (kdcts ports localAddr).AtRest Label.Own s := by
  intro label hown
  cases label with
  | attempt call fault =>
      show s.attemptStep call fault = none
      rw [attemptStep]
      cases hcall : s.attempts call with
      | none => rfl
      | some q =>
          obtain ⟨id, pc⟩ := q
          obtain ⟨l, hwaits⟩ := Option.ne_none_iff_exists'.mp (h.others call id pc hcall)
          show (s.shared.deployStep call id fault pc).map _ = none
          rw [Shared.deployStep_of_held hwaits (h.held ho l)]
          rfl
  | api fault =>
      show s.apiStep fault = none
      obtain ⟨call, id, info, nodeUuid, hstop⟩ := h.stop
      unfold stopping at hstop
      split at hstop
      · rename_i c i pc after hapi
        obtain ⟨-, -, rfl⟩ : c = call ∧ i = id ∧ pc = .untrack info nodeUuid := by simpa using hstop
        unfold apiStep
        rw [hapi]
        dsimp only
        have hwaits : (StopPc.untrack info nodeUuid).waitsFor = some .tracker := rfl
        rw [Shared.stopStep_of_held hwaits (h.held ho .tracker)]
        rfl
      · cases hstop
  | sync fault =>
      show (s.shared.syncStep fault s.sync).map _ = none
      obtain ⟨uuid, d, rest, hsync⟩ := h.sync
      have hwaits : s.sync.waitsFor = some .table := by
        rw [hsync]
        rfl
      rw [Shared.syncStep_of_held hwaits (h.held ho .table)]
      rfl
  | _ => exact absurd hown id

theorem atRest_cases (ho : s.Orderly) (hrest : (kdcts ports localAddr).AtRest Label.Own s) :
    s.Rested ∨ s.Deadlocked := by
  by_cases hfree : ∀ l, s.shared.holder l = none
  · exact .inl (rested_of_atRest hrest ho hfree)
  · obtain ⟨l, hheld⟩ := not_forall.mp hfree
    exact .inr (deadlocked_of_atRest hrest ho hheld)

/-- No own step takes up a disconnect. -/
theorem sync_idle_of_step {label : Label} {s' : Server} (hidle : s.sync = .idle)
    (hown : label.Own) (h : s.step ports localAddr label = some s') :
    s'.sync = .idle := by
  cases label with
  | attempt call fault =>
      obtain ⟨q, -, h⟩ := Option.bind_eq_some_iff.mp h
      obtain ⟨r, -, rfl⟩ := Option.map_eq_some_iff.mp h
      exact hidle
  | api fault =>
      have h : s.apiStep fault = some s' := h
      unfold apiStep at h
      split at h
      all_goals first
        | obtain rfl := Option.some.inj h
          exact hidle
        | obtain ⟨r, -, rfl⟩ := Option.map_eq_some_iff.mp h
          exact hidle
  | sync fault =>
      have h : (s.shared.syncStep fault s.sync).map _ = some s' := h
      rw [hidle] at h
      cases h
  | _ => exact absurd hown id

theorem Orderly.settles (h : s.Orderly) : (kdcts ports localAddr).Settles Label.Own s :=
  Machine.settles_of_tasks wellFounded_lt tasks (fun _ _ _ h _ hstep => h.step hstep)
    (fun _ _ _ h hown hstep => cutExpand_step h.fresh hown hstep) h

/-! ## Every run -/

/-- Two connections of one client: the first is deployed and stopped, the second is at its
forwards by then, and the client goes. -/
def circle : List Label :=
  Label.connects "u" 0 ++ .loadImage "web" "nginx" "docker" ::
    Label.bridges "a" (samplePort 1 "/a") ++ Label.bridges "b" (samplePort 2 "/b") ++
      Label.creates "a" 1 1 ++ Label.creates "b" 2 1 ++
        Label.deploys 0 0 (.containerStarted "kdct-a-1" []) ++
          List.replicate 10 (.attempt 1 false) ++ .message 0 (.containerStarted "kdct-b-2" []) ::
            List.replicate 2 (.attempt 1 false) ++
              .request false (.deleteConnection 1) :: List.replicate 7 (.api false) ++
                .message 0 (.containerStopped "kdct-a-1") :: List.replicate 6 (.api false) ++
                  List.replicate 2 (.attempt 1 false) ++
                    .event false ⟨"u", .disconnected "h"⟩ :: List.replicate 8 (.sync false)

set_option maxRecDepth 4000 in
/-- The circle can be entered. -/
example : ((kdcts samplePool fun _ => none).run (.boot .empty samplePool) circle).map (fun s =>
    (s.stopping.map fun q => q.2.2.waitsFor, s.sync.waitsFor,
      (s.attempts 1).map fun q => q.2.waitsFor)) =
    some (some (some .tracker), some .table, some (some .forwards)) := by decide

end Server

end Kdct
