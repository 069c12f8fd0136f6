/-
Calls that wait for their clients, one step at a time.

A deploy and a stop insert a waiter under the name of their container, send a command
and wait.  `callAt` is where a call is.  A step moves one call, or it leaves all calls
where they are; in both cases no call comes to wait under a name but the one that
inserts its waiter there, and no call comes to send a command but that one.
-/
import Kdct.Server.Exclusive

namespace Kdct

/-! ## Where a call is -/

inductive CallPc
  | deploy (pc : DeployPc)
  | stop (pc : StopPc)
  deriving DecidableEq

namespace CallPc

/-- The waiter that the call is about to insert: its channel, and the command it is for. -/
def inserting? : CallPc → Option (ChannelId × ControlChannelCmd)
  | .deploy (.insert d env) => some (d.channel, .imageStart (d.plan.imageStart env))
  | .stop (.insert info _ ch) => some (ch, .imageStop info.containerName)
  | _ => none

/-- The command that the call is about to send. -/
def sending? : CallPc → Option (ChannelId × ControlChannelCmd)
  | .deploy (.send d env) => some (d.channel, .imageStart (d.plan.imageStart env))
  | .stop (.send info _ ch) => some (ch, .imageStop info.containerName)
  | _ => none

def awaits : CallPc → Bool
  | .deploy pc => pc.awaits
  | .stop pc => pc.awaits

/-- The call has inserted its waiter, or goes on without one. -/
def entered : CallPc → Bool
  | .deploy pc => pc.inserted?.isSome
  | .stop (.start) | .stop (.node _) | .stop (.registry ..) | .stop (.insert ..) => false
  | .stop _ => true

theorem sending_eq_none {p : CallPc} (h : p.inserting?.isSome) : p.sending? = none := by
  cases p with
  | deploy pc => cases pc <;> first | rfl | cases h
  | stop pc => cases pc <;> first | rfl | cases h

theorem entered_of_inserting {p : CallPc} (h : p.inserting?.isSome) : p.entered = false := by
  cases p with
  | deploy pc => cases pc <;> first | rfl | cases h
  | stop pc => cases pc <;> first | rfl | cases h

end CallPc

/-- The container that a command of the server is about. -/
def ControlChannelCmd.container? : ControlChannelCmd → Option String
  | .imageStart start => some start.containerName
  | .imageStop name => some name
  | _ => none

/-- The containers whose waiters a command of a client resolves. -/
def ControlChannelCmd.resolves : ControlChannelCmd → List String
  | .reportNodeStatus status => status.runningContainers.map ContainerInfo.containerName
  | .containerStarted name _ | .containerStopped name | .containerError name _ => [name]
  | _ => []

/-- The call waits under the name. -/
def Shared.Awaits (s : Shared) (ch : ChannelId) (name : String) (call : CallId) : Prop :=
  (s.pending ch).lookup name = some call ∧ s.waiters call = some .waiting

namespace Server

variable (s : Server)

def callAt (call : CallId) : Option CallPc :=
  match s.deploys call with
  | some (_, pc) => some (.deploy pc)
  | none => s.stopping.bind fun q => if q.1 = call then some (.stop q.2.2) else none

/-- The call that a step with the label moves, and where it is. -/
def moves (label : Label) : Option (CallId × CallPc) :=
  match s.movesDeploy label with
  | some (call, _, pc) => some (call, .deploy pc)
  | none => (s.movesStop label).map fun q => (q.1, .stop q.2.2)

/-- The waiter that a step inserts: its channel, its call and the command it is for. -/
def inserts (label : Label) : Option (ChannelId × CallId × ControlChannelCmd) :=
  (s.moves label).bind fun q => q.2.inserting?.map fun w => (w.1, q.1, w.2)

def sending (call : CallId) : Option (ChannelId × ControlChannelCmd) :=
  (s.callAt call).bind CallPc.sending?

/-- The command that a step sends, if the channel still takes it. -/
def sends (label : Label) : Option (ChannelId × CallId × ControlChannelCmd) :=
  (s.moves label).bind fun q => q.2.sending?.bind fun w =>
    if w.1 ∈ s.shared.closed then none else some (w.1, q.1, w.2)

end Server

/-! ## What a message resolves -/

namespace Shared

variable {s t : Shared} {ch : ChannelId} {name : String} {call : CallId}

instance : Decidable (s.Awaits ch name call) := inferInstanceAs (Decidable (_ ∧ _))

/-- The calls that a command of the client completes. -/
def completes (s : Shared) (ch : ChannelId) (cmd : ControlChannelCmd) : List CallId :=
  cmd.resolves.filterMap fun name =>
    ((s.pending ch).lookup name).filter fun call => s.waiters call = some .waiting

theorem mem_completes {cmd : ControlChannelCmd} :
    call ∈ s.completes ch cmd ↔ ∃ name ∈ cmd.resolves, s.Awaits ch name call := by
  unfold completes Awaits
  simp only [List.mem_filterMap, Option.filter_eq_some_iff, decide_eq_true_eq]

theorem answer_lookup (reply : Reply) :
    ((s.answer ch name reply).pending ch).lookup name = none := by
  unfold answer
  split
  · dsimp only
    split <;> exact (congrArg (AList.lookup name) (Function.update_self ch _ s.pending)).trans
      (AList.lookup_erase _ _)
  · assumption

theorem foldl_answer_pending (cs : List ContainerInfo) : s.PendingShrinks
    (cs.foldl (fun s c => s.answer ch c.containerName (.running c.ports)) s) := by
  induction cs generalizing s with
  | nil => exact fun _ _ _ h => h
  | cons c cs ih => exact fun ch' name' o ho => answer_pending _ ch' name' o (ih ch' name' o ho)

/-- After a command about the container, nobody waits for it on this channel. -/
theorem message_lookup {cmd : ControlChannelCmd} (h : name ∈ cmd.resolves) :
    ((s.message ch cmd).pending ch).lookup name = none := by
  cases cmd with
  | reportNodeStatus status =>
      replace h : name ∈ status.runningContainers.map ContainerInfo.containerName := h
      simp only [message]
      generalize status.runningContainers = cs at h
      induction cs generalizing s with
      | nil => cases h
      | cons c cs ih =>
          rw [List.foldl_cons]
          rw [List.map_cons, List.mem_cons] at h
          rcases h with rfl | h
          · refine Option.eq_none_iff_forall_ne_some.mpr fun o ho => ?_
            have hnone := foldl_answer_pending cs ch _ o ho
            rw [answer_lookup] at hnone
            cases hnone
          · exact ih h
  | containerStarted name' ports | containerStopped name' | containerError name' text =>
      rw [List.mem_singleton.mp h]
      exact answer_lookup _
  | _ => cases h

theorem answer_waiters (reply : Reply) :
    (s.answer ch name reply).waiters call = s.waiters call ∨ s.Awaits ch name call := by
  unfold answer
  split
  · rename_i other hother
    dsimp only
    split
    · rename_i hw
      by_cases hc : call = other
      · subst hc
        exact .inr ⟨hother, hw⟩
      · exact .inl (Function.update_of_ne hc _ s.waiters)
    · exact .inl rfl
  · exact .inl rfl

theorem awaits_of_filled (reply' : Reply) {reply : Reply} (hw : s.waiters call = some .waiting)
    (h : (s.answer ch name reply').waiters call = some (.filled reply)) :
    s.Awaits ch name call := by
  refine (answer_waiters reply').resolve_left fun hsame => ?_
  cases hw.symm.trans (hsame.symm.trans h)

/-- A call that gets a result from a command is one that the command completes. -/
theorem mem_completes_of_filled {cmd : ControlChannelCmd} {reply : Reply}
    (hw : s.waiters call = some .waiting)
    (h : (s.message ch cmd).waiters call = some (.filled reply)) :
    call ∈ s.completes ch cmd := by
  rw [mem_completes]
  cases cmd with
  | reportNodeStatus status =>
      show ∃ name ∈ status.runningContainers.map ContainerInfo.containerName, _
      simp only [message] at h
      generalize status.runningContainers = cs at h
      induction cs generalizing s with
      | nil => cases hw.symm.trans h
      | cons c cs ih =>
          rw [List.foldl_cons] at h
          have hcases : (s.answer ch c.containerName (.running c.ports)).waiters call =
              s.waiters call ∨ s.Awaits ch c.containerName call := answer_waiters _
          rcases hcases with hsame | hawaits
          · have hw' := hsame.trans hw
            obtain ⟨name, hname, hlookup, -⟩ := ih hw' h
            exact ⟨name, List.mem_cons_of_mem _ hname, answer_pending _ ch name call hlookup, hw⟩
          · exact ⟨c.containerName, List.mem_cons_self, hawaits⟩
  | containerStarted name ports | containerStopped name | containerError name text =>
      exact ⟨name, List.mem_singleton_self name, awaits_of_filled _ hw h⟩
  | _ => cases hw.symm.trans h

/-! ## What a step of a call does to the waiters -/

/-- Nobody comes to wait. -/
structure Settles (s t : Shared) : Prop where
  pending : s.PendingShrinks t
  waiters : ∀ c, t.waiters c = some .waiting → s.waiters c = some .waiting

theorem Settles.of_eq (hpending : t.pending = s.pending) (hwaiters : t.waiters = s.waiters) :
    s.Settles t where
  pending := fun _ _ _ h => by rwa [hpending] at h
  waiters := fun _ h => by rwa [hwaiters] at h

theorem Settles.congr {u : Shared} (h : s.Settles t) (hpending : u.pending = t.pending)
    (hwaiters : u.waiters = t.waiters) : s.Settles u where
  pending := fun ch name o ho => h.pending ch name o (by rwa [hpending] at ho)
  waiters := fun c hc => h.waiters c (by rwa [hwaiters] at hc)

theorem settles_dropWaiter (call : CallId) :
    s.Settles { s with waiters := Function.update s.waiters call none } where
  pending := fun _ _ _ h => h
  waiters := fun c hc => by
    replace hc : Function.update s.waiters call none c = some .waiting := hc
    by_cases h : c = call
    · rw [h, Function.update_self] at hc
      cases hc
    · rwa [Function.update_of_ne h] at hc

theorem DeployStep.settles {id : RowId} {fault : Bool} {pc : DeployPc} {next : DeployNext}
    (h : DeployStep s call id fault pc t next) :
    (∃ d env, pc = .insert d env ∧ next = .goto (.send d env) ∧
      t = s.insertWaiter d.channel d.plan.containerName call) ∨
    (CallPc.deploy pc).inserting? = none ∧ s.Settles t := by
  cases h
  case insert d env => exact .inl ⟨d, env, rfl, rfl, rfl⟩
  case refused hrefuses =>
    refine .inr ⟨?_, .of_eq rfl rfl⟩
    cases pc <;> first | rfl | cases hrefuses
  case sendFailed | timedOut => exact .inr ⟨rfl, settles_dropWaiter call⟩
  case gaveUp d e =>
    refine .inr ⟨rfl, removeWaiter_pending, fun c => ?_⟩
    exact (s.removeWaiter_nudges d.channel d.plan.containerName call c).waiting
  case routed d p clientPort rest path routes _ _ =>
    obtain ⟨_, _, h⟩ := ({ s with routes := routes }.note
      (.routed d path (p.poolPort.getD 0))).spawnLoops_frame d p clientPort
    rw [h]
    exact .inr ⟨rfl, .of_eq rfl rfl⟩
  case unrouted d p clientPort rest _ =>
    obtain ⟨_, _, h⟩ := s.spawnLoops_frame d p clientPort
    rw [h]
    exact .inr ⟨rfl, .of_eq rfl rfl⟩
  all_goals exact .inr ⟨rfl, .of_eq rfl rfl⟩

theorem DeployStep.sending {id : RowId} {fault : Bool} {pc next : DeployPc}
    (h : DeployStep s call id fault pc t (.goto next)) {w : ChannelId × ControlChannelCmd}
    (hw : (CallPc.deploy next).sending? = some w) : (CallPc.deploy pc).inserting? = some w := by
  cases h with
  | insert => exact hw
  | _ => cases hw

theorem StopStep.settles {id : RowId} {fault : Bool} {pc : StopPc} {next : StopNext}
    (h : StopStep s call id fault pc t next) :
    (∃ info nodeUuid ch, pc = .insert info nodeUuid ch ∧ next = some (.send info nodeUuid ch) ∧
      t = s.insertWaiter ch info.containerName call) ∨
    (CallPc.stop pc).inserting? = none ∧ s.Settles t := by
  cases h
  case insert info nodeUuid ch => exact .inl ⟨info, nodeUuid, ch, rfl, rfl, rfl⟩
  case timedOut => exact .inr ⟨rfl, settles_dropWaiter call⟩
  all_goals exact .inr ⟨rfl, .of_eq rfl rfl⟩

theorem StopStep.sending {id : RowId} {fault : Bool} {pc next : StopPc}
    (h : StopStep s call id fault pc t (some next)) {w : ChannelId × ControlChannelCmd}
    (hw : (CallPc.stop next).sending? = some w) : (CallPc.stop pc).inserting? = some w := by
  cases h with
  | insert => exact hw
  | _ => cases hw

theorem StopStep.entered {id : RowId} {fault : Bool} {pc next : StopPc}
    (h : StopStep s call id fault pc t (some next)) (hpc : (CallPc.stop pc).entered = true) :
    (CallPc.stop next).entered = true := by
  cases h with
  | started | node | nodeGone | offline | registry | insert => cases hpc
  | _ => rfl

end Shared

namespace Server

variable {ports : FreshPool} {localAddr : LocalAddr} {s s' : Server} {label : Label}
  {ch : ChannelId} {name : String} {call : CallId} {cmd : ControlChannelCmd} {p : CallPc}

/-- A step of a call that was at `p`. -/
structure Moved (s s' : Server) (call : CallId) (p : CallPc) : Prop where
  here : s.callAt call = some p
  others : ∀ c, c ≠ call → s'.callAt c = s.callAt c
  nextCall : s.nextCall ≤ s'.nextCall
  awaits : (s.shared.waiters call = some .waiting → p.awaits = true) →
    s'.shared.waiters call = some .waiting → ∃ p', s'.callAt call = some p' ∧ p'.awaits = true
  entered : ∀ p', s'.callAt call = some p' → p.entered = true → p'.entered = true
  sending : ∀ p', s'.callAt call = some p' → ∀ w, p'.sending? = some w → p.inserting? = some w
  inserted : (∃ ch cmd name, p.inserting? = some (ch, cmd) ∧ cmd.container? = some name ∧
      (∀ p', s'.callAt call = some p' → p'.entered = true) ∧
      s'.shared.pending = (s.shared.insertWaiter ch name call).pending ∧
      s'.shared.waiters = (s.shared.insertWaiter ch name call).waiters) ∨
    p.inserting? = none ∧ s.shared.Settles s'.shared

/-- A step that moves no call. -/
structure Still (s s' : Server) : Prop where
  settles : s.shared.Settles s'.shared
  calls : ∀ c p, s'.callAt c = some p →
    s.callAt c = some p ∨ s.nextCall ≤ c ∧ (p = .deploy .check ∨ p = .stop .start)
  kept : ∀ c p, s'.shared.waiters c = some .waiting → s.callAt c = some p → s'.callAt c = some p
  nextCall : s.nextCall ≤ s'.nextCall

theorem callAt_deploy {id : RowId} {pc : DeployPc} (h : s.deploys call = some (id, pc)) :
    s.callAt call = some (.deploy pc) := by
  unfold callAt
  rw [h]

theorem callAt_stop {id : RowId} {pc : StopPc} (hf : s.Fresh)
    (h : s.stopping = some (call, id, pc)) : s.callAt call = some (.stop pc) := by
  unfold callAt
  rw [(hf.stop_lt h).2, h]
  exact if_pos rfl

theorem callAt_congr (hdeploys : s'.deploys = s.deploys) (hstopping : s'.stopping = s.stopping)
    (c : CallId) : s'.callAt c = s.callAt c := by
  unfold callAt
  rw [hdeploys, hstopping]

theorem Fresh.callAt_lt (hf : s.Fresh) (h : s.callAt call = some p) : call < s.nextCall := by
  unfold callAt at h
  split at h
  · rename_i hdeploys
    exact hf.lt hdeploys
  · obtain ⟨⟨c, id, pc⟩, hstopping, h⟩ := Option.bind_eq_some_iff.mp h
    split at h
    · rename_i hc
      replace hc : c = call := hc
      rw [← hc]
      exact (hf.stop_lt hstopping).1
    · cases h

theorem Move.nextCall_le (h : s.Move ports localAddr label s') : s.nextCall ≤ s'.nextCall := by
  cases h with
  | deploy _ _ _ _ _ _ _ hcalls | stop _ _ _ _ _ _ _ _ hcalls | request _ _ _ _ _ _ hcalls
  | handler _ _ _ _ _ _ hcalls | event _ _ _ _ _ hcalls | sync _ _ _ _ _ hcalls
  | surroundings _ _ _ _ _ hcalls => exact hcalls.ge
  | start _ _ _ _ _ hcalls | startStop _ _ _ _ _ _ hcalls => exact hcalls ▸ Nat.le_succ _
  | restart => exact Nat.le_refl _

theorem moved_deploy {id : RowId} {pc : DeployPc} (hf : s.Fresh)
    (h : s.step ports localAddr label = some s')
    (hmoves : s.movesDeploy label = some (call, id, pc)) :
    s.Moved s' call (.deploy pc) := by
  obtain ⟨hmove, -⟩ := step_move hf h
  obtain ⟨t, next, hstep, hpc, hshared, hstopping, hdeploys⟩ := hmove.deploy_step hmoves
  have hown := hstep.own
  rw [← hshared] at hown
  have hnew : ∀ p', s'.callAt call = some p' → ∃ pc', next = .goto pc' ∧ p' = .deploy pc' := by
    intro p' hp'
    unfold callAt at hp'
    rw [hdeploys, Function.update_self, hstopping] at hp'
    cases next with
    | goto pc' => exact ⟨pc', rfl, (Option.some.inj hp').symm⟩
    | skip | exit =>
        obtain ⟨⟨c, i, p⟩, hq, hp'⟩ := Option.bind_eq_some_iff.mp hp'
        split at hp'
        · rename_i hc
          replace hc : c = call := hc
          rw [← hc, (hf.stop_lt hq).2] at hpc
          cases hpc
        · cases hp'
  refine ⟨callAt_deploy hpc, fun c hc => ?_, hmove.nextCall_le, fun hpc' hw => ?_,
    fun p' hp' hentered => ?_, fun p' hp' w hw => ?_, ?_⟩
  · unfold callAt
    rw [hdeploys, Function.update_of_ne hc, hstopping]
  · obtain ⟨pc', rfl, hpc'⟩ := hown.waits hpc' hw
    have hat : s'.deploys call = some (id, pc') := by
      rw [hdeploys, Function.update_self]
      rfl
    exact ⟨.deploy pc', callAt_deploy hat, hpc'⟩
  · obtain ⟨pc', rfl, rfl⟩ := hnew p' hp'
    obtain ⟨d, hd⟩ := Option.isSome_iff_exists.mp hentered
    exact Option.isSome_iff_exists.mpr ⟨d, hown.inserted d pc' hd rfl⟩
  · obtain ⟨pc', rfl, rfl⟩ := hnew p' hp'
    exact hstep.sending hw
  · obtain ⟨log, hlog⟩ := Shared.endCall_frame t call id next
    have hpending : s'.shared.pending = t.pending := by rw [hshared, hlog]
    have hwaiters : s'.shared.waiters = t.waiters := by rw [hshared, hlog]
    rcases hstep.settles with ⟨d, env, rfl, rfl, rfl⟩ | ⟨hnone, hsettles⟩
    · refine .inl ⟨_, _, _, rfl, rfl, fun p' hp' => ?_, hpending, hwaiters⟩
      obtain ⟨pc', heq, rfl⟩ := hnew p' hp'
      obtain rfl := DeployNext.goto.inj heq
      rfl
    · exact .inr ⟨hnone, hsettles.congr hpending hwaiters⟩

/-- The step of the stop that a step moves. -/
theorem stopStep_of_step {id : RowId} {pc : StopPc}
    (h : s.step ports localAddr label = some s')
    (hmoves : s.movesStop label = some (call, id, pc)) :
    ∃ t next, s.shared.stopStep call id label.fault pc = some (t, next) ∧ s'.shared = t ∧
      s'.stopping = (next.map fun pc => (call, id, pc)) ∧ s'.deploys = s.deploys := by
  cases label with
  | api fault =>
      change s.stopping = _ at hmoves
      have hdeploys : s.deploys = s.attempts := deploys_of_api fun c i p rest hapi => by
        unfold stopping at hmoves
        rw [hapi] at hmoves
        cases hmoves
      unfold stopping at hmoves
      split at hmoves
      · rename_i c i p after hapi
        obtain ⟨rfl, rfl, rfl⟩ : c = call ∧ i = id ∧ p = pc := by simpa using hmoves
        simp only [step, apiStep, hapi] at h
        obtain ⟨⟨t, next⟩, hstep, rfl⟩ := Option.map_eq_some_iff.mp h
        refine ⟨t, next, hstep, rfl, ?_, ?_⟩
        · cases next with
          | some pc => rfl
          | none => cases after <;> rfl
        · rw [hdeploys]
          cases next with
          | some pc => rfl
          | none => cases after <;> rfl
      · cases hmoves
  | _ => cases hmoves

theorem moved_stop {id : RowId} {pc : StopPc} (hf : s.Fresh)
    (h : s.step ports localAddr label = some s')
    (hmoves : s.movesStop label = some (call, id, pc)) (hpc : s.stopping = some (call, id, pc)) :
    s.Moved s' call (.stop pc) := by
  obtain ⟨hmove, -⟩ := step_move hf h
  obtain ⟨t, next, hstep, rfl, hstopping, hdeploys⟩ := stopStep_of_step h hmoves
  replace hstep := Shared.stopStep_cases hstep
  have hnone := (hf.stop_lt hpc).2
  have hat : s'.callAt call = next.map .stop := by
    unfold callAt
    rw [hdeploys, hnone, hstopping]
    cases next with
    | some pc' => exact if_pos rfl
    | none => rfl
  refine ⟨callAt_stop hf hpc, fun c hc => ?_, hmove.nextCall_le, fun hpc' hw => ?_,
    fun p' hp' hentered => ?_, fun p' hp' w hw => ?_, ?_⟩
  · unfold callAt
    rw [hdeploys, hstopping, hpc]
    cases s.deploys c with
    | some q => rfl
    | none =>
        cases next with
        | some pc' => exact (if_neg (Ne.symm hc)).trans (if_neg (Ne.symm hc)).symm
        | none => exact (if_neg (Ne.symm hc)).symm
  · obtain ⟨pc', rfl, hawaits⟩ := (stop_self hstep hpc').2 hw
    exact ⟨.stop pc', hat, hawaits⟩
  · rw [hat] at hp'
    obtain ⟨pc', rfl, rfl⟩ := Option.map_eq_some_iff.mp hp'
    exact hstep.entered hentered
  · rw [hat] at hp'
    obtain ⟨pc', rfl, rfl⟩ := Option.map_eq_some_iff.mp hp'
    exact hstep.sending hw
  · rcases hstep.settles with ⟨info, nodeUuid, ch, rfl, rfl, hshared⟩ | hsettles
    · refine .inl ⟨_, _, _, rfl, rfl, fun p' hp' => ?_, congrArg Shared.pending hshared,
        congrArg Shared.waiters hshared⟩
      rw [hat] at hp'
      obtain rfl := Option.some.inj hp'
      rfl
    · exact .inr hsettles

theorem stopping_of_movesStop {q : CallId × RowId × StopPc} (h : s.movesStop label = some q) :
    s.stopping = some q := by
  cases label with
  | api fault => exact h
  | _ => cases h

theorem moved_of_moves (hf : s.Fresh) (h : s.step ports localAddr label = some s')
    (hmoves : s.moves label = some (call, p)) : s.Moved s' call p := by
  unfold moves at hmoves
  split at hmoves
  · rename_i hdeploy
    obtain ⟨rfl, rfl⟩ := Prod.mk.inj (Option.some.inj hmoves)
    exact moved_deploy hf h hdeploy
  · obtain ⟨⟨c, id, pc⟩, hstop, heq⟩ := Option.map_eq_some_iff.mp hmoves
    obtain ⟨rfl, rfl⟩ := Prod.mk.inj heq
    exact moved_stop hf h hstop (stopping_of_movesStop hstop)

theorem Moved.waiting (h : s.Moved s' call p) {c : CallId} (hc : c ≠ call)
    (hw : s'.shared.waiters c = some .waiting) : s.shared.waiters c = some .waiting := by
  rcases h.inserted with ⟨ch, cmd, name, _, _, _, _, hwaiters⟩ | ⟨_, hsettles⟩
  · rw [hwaiters] at hw
    exact (Shared.insertWaiter_nudge ch name hc).waiting hw
  · exact hsettles.waiters c hw

theorem Moved.pending (h : s.Moved s' call p) {o : CallId}
    (ho : (s'.shared.pending ch).lookup name = some o) :
    (s.shared.pending ch).lookup name = some o ∨
      o = call ∧ ∀ p', s'.callAt call = some p' → p'.entered = true := by
  rcases h.inserted with ⟨ch', cmd, name', _, _, hentered, hpending, _⟩ | ⟨_, hsettles⟩
  · rw [hpending] at ho
    exact (Shared.insertWaiter_pending ho).elim (fun h => .inr ⟨h.1, hentered⟩) .inl
  · exact .inl (hsettles.pending ch name o ho)

theorem Still.of_calls (hsettles : s.shared.Settles s'.shared) (hdeploys : s'.deploys = s.deploys)
    (hstopping : s'.stopping = s.stopping) (hcalls : s'.nextCall = s.nextCall) : s.Still s' where
  settles := hsettles
  calls := fun c _ h => .inl (callAt_congr hdeploys hstopping c ▸ h)
  kept := fun c _ _ h => (callAt_congr hdeploys hstopping c).symm ▸ h
  nextCall := hcalls.ge

theorem still_of_moves (hf : s.Fresh) (h : s.step ports localAddr label = some s')
    (hmoves : s.moves label = none) : s.Still s' := by
  obtain ⟨hmove, hf'⟩ := step_move hf h
  cases hmove with
  | deploy hmoves' =>
      unfold moves at hmoves
      rw [hmoves'] at hmoves
      cases hmoves
  | stop hnone hmoves' =>
      unfold moves at hmoves
      rw [hnone, hmoves'] at hmoves
      cases hmoves
  | @start _ _ id _ hshared hdeploys hstopping _ hcalls =>
      refine ⟨.of_eq (by rw [hshared]) (by rw [hshared]), fun c p hp => ?_, fun c p _ hp => ?_,
        hcalls ▸ Nat.le_succ _⟩
      · by_cases hc : c = s.nextCall
        · subst hc
          have hcheck : s'.callAt s.nextCall = some (.deploy .check) :=
            callAt_deploy (by rw [hdeploys, Function.update_self])
          rw [hcheck] at hp
          exact .inr ⟨Nat.le_refl _, .inl (Option.some.inj hp).symm⟩
        · unfold callAt at hp ⊢
          rw [hdeploys, Function.update_of_ne hc, hstopping] at hp
          exact .inl hp
      · have hc : c ≠ s.nextCall := Nat.ne_of_lt (hf.callAt_lt hp)
        unfold callAt at hp ⊢
        rw [hdeploys, Function.update_of_ne hc, hstopping]
        exact hp
  | @startStop _ _ id _ hshared hdeploys hnone hstopping _ hcalls =>
      refine ⟨.of_eq (by rw [hshared]) (by rw [hshared]), fun c p hp => ?_, fun c p _ hp => ?_,
        hcalls ▸ Nat.le_succ _⟩
      · by_cases hc : c = s.nextCall
        · subst hc
          have hstart : s'.callAt s.nextCall = some (.stop .start) := callAt_stop hf' hstopping
          rw [hstart] at hp
          exact .inr ⟨Nat.le_refl _, .inr (Option.some.inj hp).symm⟩
        · refine .inl ?_
          unfold callAt at hp ⊢
          rw [hdeploys, hstopping] at hp
          cases hdeploy : s.deploys c with
          | some q =>
              rw [hdeploy] at hp
              exact hp
          | none =>
              rw [hdeploy] at hp
              cases (if_neg (Ne.symm hc)).symm.trans hp
      · unfold callAt at hp ⊢
        rw [hdeploys]
        cases hdeploy : s.deploys c with
        | some q =>
            rw [hdeploy] at hp
            exact hp
        | none =>
            rw [hdeploy, hnone] at hp
            cases hp
  | @request fault r _ _ hshared hdeploys hnone hstopping _ hcalls =>
      obtain ⟨db, pool, hframe⟩ := s.shared.request_frame fault r
      rw [hframe] at hshared
      exact .of_calls (.of_eq (by rw [hshared]) (by rw [hshared])) hdeploys
        (hstopping.trans hnone.symm) hcalls
  | handler hhandler hshared hdeploys hnone hstopping _ hcalls =>
      obtain ⟨db, pool, hframe⟩ := Shared.handlerStep_frame hhandler
      rw [hframe] at hshared
      exact .of_calls (.of_eq (by rw [hshared]) (by rw [hshared])) hdeploys
        (hstopping.trans hnone.symm) hcalls
  | @event fault update _ _ hshared hdeploys hstopping _ hcalls =>
      obtain ⟨clientNodes, hframe⟩ := s.shared.syncEvent_frame fault update
      rw [hframe] at hshared
      exact .of_calls (.of_eq (by rw [hshared]) (by rw [hshared])) hdeploys hstopping hcalls
  | sync hsync hshared hdeploys hstopping _ hcalls =>
      obtain ⟨_, _, _, _, _, _, hwaiters, hpending, _⟩ := hsync.frame
      exact .of_calls (.of_eq (by rw [hshared, hpending]) (by rw [hshared, hwaiters])) hdeploys
        hstopping hcalls
  | surroundings _ hsurr hdeploys hstopping _ hcalls =>
      exact .of_calls ⟨hsurr.pending, fun c => (Shared.around_nudges hsurr c).waiting⟩ hdeploys
        hstopping hcalls
  | restart =>
      exact ⟨⟨fun _ _ _ ho => (by cases ho), fun _ hc => (by cases hc)⟩,
        fun _ _ hp => (by cases hp), fun _ _ hw => (by cases hw), Nat.le_refl _⟩

theorem shared_of_message (h : s.step ports localAddr (.message ch cmd) = some s') :
    s'.shared = s.shared.message ch cmd := by
  obtain ⟨t, ht, rfl⟩ := Option.map_eq_some_iff.mp h
  simp only [Shared.surroundings] at ht
  split at ht
  · cases ht
  · exact (Option.some.inj ht).symm

/-! ## Who waits -/

/-- A call that waits has sent its command or is about to, and a name is a call's own. -/
structure Waits (s : Server) : Prop where
  fresh : s.Fresh
  awaited : ∀ c, s.shared.waiters c = some .waiting → ∃ p, s.callAt c = some p ∧ p.awaits = true
  entered : ∀ ch name c, (s.shared.pending ch).lookup name = some c →
    c < s.nextCall ∧ ∀ p, s.callAt c = some p → p.entered = true

theorem waits_boot (ports : FreshPool) : (boot .empty ports).Waits :=
  ⟨fresh_boot _ ports, fun _ h => (by cases h), fun _ _ _ h => by cases h⟩

theorem waits_step (h : s.Waits) (hstep : s.step ports localAddr label = some s') : s'.Waits := by
  obtain ⟨-, hf'⟩ := step_move h.fresh hstep
  cases hmoves : s.moves label with
  | none =>
      have hstill := still_of_moves h.fresh hstep hmoves
      refine ⟨hf', fun c hw => ?_, fun ch name c ho => ?_⟩
      · obtain ⟨p, hp, hawaits⟩ := h.awaited c (hstill.settles.waiters c hw)
        exact ⟨p, hstill.kept c p hw hp, hawaits⟩
      · obtain ⟨hlt, hentered⟩ := h.entered ch name c (hstill.settles.pending ch name c ho)
        refine ⟨hlt.trans_le hstill.nextCall, fun p hp => ?_⟩
        rcases hstill.calls c p hp with hp | ⟨hge, -⟩
        · exact hentered p hp
        · exact absurd hlt (Nat.not_lt.mpr hge)
  | some q =>
      obtain ⟨call, p⟩ := q
      have hmoved := moved_of_moves h.fresh hstep hmoves
      have hawaits : s.shared.waiters call = some .waiting → p.awaits = true := by
        intro hw
        obtain ⟨p', hp', hawaits⟩ := h.awaited call hw
        obtain rfl := Option.some.inj (hmoved.here.symm.trans hp')
        exact hawaits
      refine ⟨hf', fun c hw => ?_, fun ch name c ho => ?_⟩
      · by_cases hc : c = call
        · rw [hc] at hw ⊢
          exact hmoved.awaits hawaits hw
        · rw [hmoved.others c hc]
          exact h.awaited c (hmoved.waiting hc hw)
      · rcases hmoved.pending ho with ho | ⟨rfl, hentered⟩
        · obtain ⟨hlt, hentered⟩ := h.entered ch name c ho
          refine ⟨hlt.trans_le hmoved.nextCall, fun p' hp' => ?_⟩
          by_cases hc : c = call
          · rw [hc] at hp' hentered
            exact hmoved.entered p' hp' (hentered p hmoved.here)
          · rw [hmoved.others c hc] at hp'
            exact hentered p' hp'
        · exact ⟨(h.fresh.callAt_lt hmoved.here).trans_le hmoved.nextCall, hentered⟩

theorem inserts_eq_some : s.inserts label = some (ch, call, cmd) ↔
    ∃ p, s.moves label = some (call, p) ∧ p.inserting? = some (ch, cmd) := by
  unfold inserts
  constructor
  · intro h
    obtain ⟨⟨c, p⟩, hmoves, h⟩ := Option.bind_eq_some_iff.mp h
    obtain ⟨⟨ch', cmd'⟩, hp, heq⟩ := Option.map_eq_some_iff.mp h
    cases heq
    exact ⟨p, hmoves, hp⟩
  · rintro ⟨p, hmoves, hp⟩
    rw [hmoves, Option.bind_some, hp]
    rfl

/-- Who comes to wait under a name has inserted its waiter there. -/
theorem Waits.awaits_step (h : s.Waits) (hstep : s.step ports localAddr label = some s')
    (hw : s'.shared.Awaits ch name call) :
    s.shared.Awaits ch name call ∧ (∀ ch cmd, s.inserts label ≠ some (ch, call, cmd)) ∨
      ∃ cmd, s.inserts label = some (ch, call, cmd) ∧ cmd.container? = some name := by
  obtain ⟨hlookup, hwaiting⟩ := hw
  have hsame : (∀ p, s.moves label = some (call, p) → p.inserting? = none) →
      ∀ ch cmd, s.inserts label ≠ some (ch, call, cmd) := by
    intro hnone ch cmd hinserts
    obtain ⟨p, hmoves, hp⟩ := inserts_eq_some.mp hinserts
    rw [hnone p hmoves] at hp
    cases hp
  cases hmoves : s.moves label with
  | none =>
      have hsettles := (still_of_moves h.fresh hstep hmoves).settles
      refine .inl ⟨⟨hsettles.pending ch name call hlookup, hsettles.waiters call hwaiting⟩,
        hsame fun p hp => ?_⟩
      cases hmoves.symm.trans hp
  | some q =>
      obtain ⟨c, p⟩ := q
      have hmoved := moved_of_moves h.fresh hstep hmoves
      rcases hmoved.inserted with ⟨ch', cmd, name', hp, hname, _, hpending, _⟩ | ⟨hnone, hsettles⟩
      · by_cases hhere : ch = ch' ∧ name = name'
        · obtain ⟨rfl, rfl⟩ := hhere
          rw [hpending, Shared.insertWaiter_map, Function.update_self, AList.lookup_insert]
            at hlookup
          obtain rfl := Option.some.inj hlookup
          exact .inr ⟨cmd, inserts_eq_some.mpr ⟨p, hmoves, hp⟩, hname⟩
        · have hold : (s.shared.pending ch).lookup name = some call := by
            rw [hpending, Shared.insertWaiter_map] at hlookup
            by_cases hch : ch = ch'
            · subst hch
              rwa [Function.update_self, AList.lookup_insert_ne fun hn => hhere ⟨rfl, hn⟩]
                at hlookup
            · rwa [Function.update_of_ne hch] at hlookup
          have hc : call ≠ c := by
            rintro rfl
            have hentered := (h.entered ch name call hold).2 p hmoved.here
            rw [CallPc.entered_of_inserting (Option.isSome_iff_exists.mpr ⟨_, hp⟩)] at hentered
            cases hentered
          refine .inl ⟨⟨hold, hmoved.waiting hc hwaiting⟩, hsame fun p' hp' => ?_⟩
          rw [hmoves] at hp'
          exact absurd (Prod.mk.inj (Option.some.inj hp')).1.symm hc
      · refine .inl ⟨⟨hsettles.pending ch name call hlookup, hsettles.waiters call hwaiting⟩,
          hsame fun p' hp' => ?_⟩
        rw [hmoves] at hp'
        rwa [← (Prod.mk.inj (Option.some.inj hp')).2]

/-- Who comes to send a command has inserted the waiter for it. -/
theorem Waits.sending_step (h : s.Waits) (hstep : s.step ports localAddr label = some s')
    {c : CallId} {w : ChannelId × ControlChannelCmd} (hw : s'.sending c = some w) :
    s.sending c = some w ∧ (∀ ch cmd, s.inserts label ≠ some (ch, c, cmd)) ∨
      s.inserts label = some (w.1, c, w.2) := by
  obtain ⟨p', hp', hw⟩ := Option.bind_eq_some_iff.mp hw
  have hold : s.callAt c = some p' → s.sending c = some w := fun hp =>
    Option.bind_eq_some_iff.mpr ⟨p', hp, hw⟩
  cases hmoves : s.moves label with
  | none =>
      refine .inl ⟨hold ?_, fun ch cmd hinserts => ?_⟩
      · refine ((still_of_moves h.fresh hstep hmoves).calls c p' hp').resolve_right ?_
        rintro ⟨-, rfl | rfl⟩ <;> cases hw
      · obtain ⟨p, hp, -⟩ := inserts_eq_some.mp hinserts
        cases hmoves.symm.trans hp
  | some q =>
      obtain ⟨call, p⟩ := q
      have hmoved := moved_of_moves h.fresh hstep hmoves
      by_cases hc : c = call
      · subst hc
        exact .inr (inserts_eq_some.mpr ⟨p, hmoves, hmoved.sending p' hp' w hw⟩)
      · refine .inl ⟨hold ((hmoved.others c hc).symm.trans hp'), fun ch cmd hinserts => ?_⟩
        obtain ⟨p, hp, -⟩ := inserts_eq_some.mp hinserts
        rw [hmoves] at hp
        exact hc (Prod.mk.inj (Option.some.inj hp)).1.symm

theorem Waits.lookup_of_inserts (h : s.Waits) (hstep : s.step ports localAddr label = some s')
    (hinserts : s.inserts label = some (ch, call, cmd)) (hname : cmd.container? = some name) :
    (s'.shared.pending ch).lookup name = some call := by
  obtain ⟨p, hmoves, hp⟩ := inserts_eq_some.mp hinserts
  rcases (moved_of_moves h.fresh hstep hmoves).inserted with
    ⟨ch', cmd', name', hp', hname', _, hpending, _⟩ | ⟨hnone, -⟩
  · obtain ⟨rfl, rfl⟩ := Prod.mk.inj (Option.some.inj (hp.symm.trans hp'))
    obtain rfl := Option.some.inj (hname.symm.trans hname')
    rw [hpending, Shared.insertWaiter_map, Function.update_self, AList.lookup_insert]
  · cases hnone.symm.trans hp

/-- A step that sends a command inserts no waiter. -/
theorem Waits.sending_of_sends (h : s.Waits) (hstep : s.step ports localAddr label = some s')
    (hsends : s.sends label = some (ch, call, cmd)) :
    s.sending call = some (ch, cmd) ∧ s.inserts label = none := by
  obtain ⟨⟨c, p⟩, hmoves, hsends⟩ := Option.bind_eq_some_iff.mp hsends
  obtain ⟨⟨ch', cmd'⟩, hp, hsends⟩ := Option.bind_eq_some_iff.mp hsends
  split at hsends
  · cases hsends
  · obtain ⟨rfl, rfl, rfl⟩ : ch' = ch ∧ c = call ∧ cmd' = cmd := by simpa using hsends
    refine ⟨Option.bind_eq_some_iff.mpr ⟨p, (moved_of_moves h.fresh hstep hmoves).here, hp⟩, ?_⟩
    refine Option.eq_none_iff_forall_ne_some.mpr fun ⟨ch, call, cmd⟩ hinserts => ?_
    obtain ⟨p', hmoves', hp'⟩ := inserts_eq_some.mp hinserts
    obtain ⟨-, rfl⟩ := Prod.mk.inj (Option.some.inj (hmoves.symm.trans hmoves'))
    rw [CallPc.sending_eq_none (Option.isSome_iff_exists.mpr ⟨_, hp'⟩)] at hp
    cases hp

end Server

end Kdct
