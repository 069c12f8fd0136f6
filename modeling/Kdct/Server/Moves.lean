/-
What one step of a server is.

The API thread runs a stop or a deploy of its own, so the calls in progress are
spread over the thread and the spawned tasks.  `deploys` and `stopping` collect
them, and `step_move` says that a step moves one deploy, the stop, the sync task,
a handler or the surroundings, starts a call, or restarts the server.
-/
import Kdct.Server.Steps

namespace Kdct

/-- Where the API thread is in a handler of its own. -/
def ApiPc.handler : ApiPc → ApiPc
  | .spawn _ | .stop .. | .stopping .. | .autoNext _ | .autoDeploy .. => .idle
  | pc => pc

def Label.fault : Label → Bool
  | .attempt _ fault | .request fault _ | .api fault | .event fault _ | .sync fault => fault
  | _ => false

/-- A handler never is in a call of its own. -/
theorem Shared.request_api (s : Shared) (fault : Bool) (r : Request) :
    (∀ call id pc rest, (s.request fault r).2 ≠ .autoDeploy call id pc rest) ∧
      ∀ call id pc after, (s.request fault r).2 ≠ .stopping call id pc after := by
  cases r <;> simp only [request] <;> (repeat' split) <;> simp

theorem Shared.handlerStep_api {s t : Shared} {fault : Bool} {pc next : ApiPc}
    (h : s.handlerStep fault pc = some (t, next)) :
    (∀ call id pc rest, next ≠ .autoDeploy call id pc rest) ∧
      ∀ call id pc after, next ≠ .stopping call id pc after := by
  cases pc
  case releaseBridge bridgeId rest =>
    cases rest <;> obtain ⟨rfl, rfl⟩ := Prod.mk.inj (Option.some.inj h) <;> simp
  case autoNext rest =>
    cases rest with
    | nil =>
        obtain ⟨rfl, rfl⟩ := Prod.mk.inj (Option.some.inj h)
        simp
    | cons id rest => cases h
  all_goals
    unfold handlerStep at h
    dsimp only at h
    repeat' split at h
    all_goals first
      | cases h
        done
      | obtain ⟨rfl, rfl⟩ := Prod.mk.inj (Option.some.inj h)
        simp

namespace Server

/-- The deploys in progress. -/
def deploys (s : Server) (call : CallId) : Option (RowId × DeployPc) :=
  match s.api with
  | .autoDeploy c id pc _ => if call = c then some (id, pc) else s.attempts call
  | _ => s.attempts call

/-- The stop in progress. -/
def stopping (s : Server) : Option (CallId × RowId × StopPc) :=
  match s.api with
  | .stopping call id pc _ => some (call, id, pc)
  | _ => none

/-- The deploy that a step with the label moves. -/
def movesDeploy (s : Server) : Label → Option (CallId × RowId × DeployPc)
  | .attempt call _ => (s.attempts call).map fun q => (call, q)
  | .api _ =>
      match s.api with
      | .autoDeploy call id pc _ => some (call, id, pc)
      | _ => none
  | _ => none

/-- The stop that a step with the label moves. -/
def movesStop (s : Server) : Label → Option (CallId × RowId × StopPc)
  | .api _ => s.stopping
  | _ => none

/-- Calls get new numbers. -/
structure Fresh (s : Server) : Prop where
  attempts : ∀ call, s.nextCall ≤ call → s.attempts call = none
  autoDeploy : ∀ call id pc rest, s.api = .autoDeploy call id pc rest →
    call < s.nextCall ∧ s.attempts call = none
  stopping : ∀ call id pc after, s.api = .stopping call id pc after →
    call < s.nextCall ∧ s.attempts call = none

/-- The steps of a server. -/
inductive Move (ports : FreshPool) (localAddr : LocalAddr) (s : Server) : Label → Server → Prop
  | deploy {label s' call id pc t next} (hmoves : s.movesDeploy label = some (call, id, pc))
      (hpc : s.deploys call = some (id, pc))
      (hstep : s.shared.DeployStep call id label.fault pc t next)
      (hshared : s'.shared = t.endCall call id next)
      (hdeploys : s'.deploys = Function.update s.deploys call (next.pc?.map fun pc => (id, pc)))
      (hstopping : s'.stopping = s.stopping) (hsync : s'.sync = s.sync)
      (hcalls : s'.nextCall = s.nextCall) (hhandler : s'.api.handler = s.api.handler) :
      Move ports localAddr s label s'
  | stop {label s' call id pc after t next} (hnone : s.movesDeploy label = none)
      (hmoves : s.movesStop label = some (call, id, pc))
      (hpc : s.stopping = some (call, id, pc))
      (hstep : s.shared.StopStep call id label.fault pc t next) (hshared : s'.shared = t)
      (hdeploys : s'.deploys = s.deploys)
      (hstopping : s'.stopping = next.map fun pc => (call, id, pc)) (hsync : s'.sync = s.sync)
      (hcalls : s'.nextCall = s.nextCall) (hbefore : s.api.handler = .idle)
      (hhandler : s'.api.handler = .idle ∨ next = none ∧ s'.api.handler = AfterStop.pc id after) :
      Move ports localAddr s label s'
  | start {label s' id} (hnone : s.movesDeploy label = none) (hshared : s'.shared = s.shared)
      (hdeploys : s'.deploys = Function.update s.deploys s.nextCall (some (id, .check)))
      (hstopping : s'.stopping = s.stopping) (hsync : s'.sync = s.sync)
      (hcalls : s'.nextCall = s.nextCall + 1) (hbefore : s.api.handler = .idle)
      (hhandler : s'.api.handler = .idle) : Move ports localAddr s label s'
  | startStop {label s' id} (hmoves : s.movesDeploy label = none) (hshared : s'.shared = s.shared)
      (hdeploys : s'.deploys = s.deploys) (hnone : s.stopping = none)
      (hstopping : s'.stopping = some (s.nextCall, id, .start)) (hsync : s'.sync = s.sync)
      (hcalls : s'.nextCall = s.nextCall + 1)
      (hbefore : s.api.handler = .idle) (hhandler : s'.api.handler = .idle) :
      Move ports localAddr s label s'
  | request {fault r s'} (hidle : s.api = .idle)
      (hshared : s'.shared = (s.shared.request fault r).1)
      (hdeploys : s'.deploys = s.deploys) (hnone : s.stopping = none)
      (hstopping : s'.stopping = none)
      (hsync : s'.sync = s.sync) (hcalls : s'.nextCall = s.nextCall)
      (hapi : s'.api = (s.shared.request fault r).2) :
      Move ports localAddr s (.request fault r) s'
  | handler {fault s' t pc} (hstep : s.shared.handlerStep fault s.api = some (t, pc))
      (hshared : s'.shared = t) (hdeploys : s'.deploys = s.deploys) (hnone : s.stopping = none)
      (hstopping : s'.stopping = none) (hsync : s'.sync = s.sync)
      (hcalls : s'.nextCall = s.nextCall) (hapi : s'.api = pc) :
      Move ports localAddr s (.api fault) s'
  | event {fault update s'} (hidle : s.sync = .idle)
      (hshared : s'.shared = (s.shared.syncEvent fault update).1)
      (hdeploys : s'.deploys = s.deploys)
      (hstopping : s'.stopping = s.stopping) (hsync : s'.sync = (s.shared.syncEvent fault update).2)
      (hcalls : s'.nextCall = s.nextCall) (hapi : s'.api = s.api) :
      Move ports localAddr s (.event fault update) s'
  | sync {fault s' t pc} (hstep : s.shared.SyncStep fault s.sync t pc) (hshared : s'.shared = t)
      (hdeploys : s'.deploys = s.deploys) (hstopping : s'.stopping = s.stopping)
      (hsync : s'.sync = pc) (hcalls : s'.nextCall = s.nextCall) (hapi : s'.api = s.api) :
      Move ports localAddr s (.sync fault) s'
  | surroundings {label s'} (hnone : s.movesDeploy label = none)
      (hstep : s.shared.Around localAddr s'.shared)
      (hdeploys : s'.deploys = s.deploys) (hstopping : s'.stopping = s.stopping)
      (hsync : s'.sync = s.sync) (hcalls : s'.nextCall = s.nextCall) (hapi : s'.api = s.api) :
      Move ports localAddr s label s'
  | restart : Move ports localAddr s .restart (s.restart ports)

section

variable {ports : FreshPool} {localAddr : LocalAddr} {s s' : Server}

theorem deploys_of_api (h : ∀ call id pc rest, s.api ≠ .autoDeploy call id pc rest) :
    s.deploys = s.attempts := by
  funext call
  unfold deploys
  split
  · rename_i c id pc rest hapi
    exact absurd hapi (h c id pc rest)
  · rfl

theorem deploys_autoDeploy {call id pc rest} (h : s.api = .autoDeploy call id pc rest) :
    s.deploys = Function.update s.attempts call (some (id, pc)) := by
  funext c
  unfold deploys
  rw [h]
  dsimp only
  by_cases hc : c = call
  · rw [if_pos hc, hc, Function.update_self]
  · rw [if_neg hc, Function.update_of_ne hc]

theorem stopping_of_api (h : ∀ call id pc after, s.api ≠ .stopping call id pc after) :
    s.stopping = none := by
  unfold stopping
  split
  · rename_i call id pc after hapi
    exact absurd hapi (h call id pc after)
  · rfl

/-- A call that a step moves or starts stays below the next number. -/
theorem Fresh.deploys (h : s.Fresh) {call : CallId} (hcall : s.nextCall ≤ call) :
    s.deploys call = none := by
  unfold Server.deploys
  split
  · rename_i c id pc rest hapi
    rw [if_neg, h.attempts call hcall]
    rintro rfl
    exact absurd (h.autoDeploy _ _ _ _ hapi).1 (Nat.not_lt.mpr hcall)
  · exact h.attempts call hcall

theorem Fresh.lt (h : s.Fresh) {call : CallId} {q : RowId × DeployPc}
    (hq : s.deploys call = some q) : call < s.nextCall := by
  by_contra hge
  rw [h.deploys (Nat.le_of_not_lt hge)] at hq
  cases hq

theorem Fresh.stop_lt (h : s.Fresh) {call id pc} (hq : s.stopping = some (call, id, pc)) :
    call < s.nextCall ∧ s.deploys call = none := by
  unfold Server.stopping at hq
  split at hq
  · rename_i c i p after hapi
    obtain ⟨rfl, rfl, rfl⟩ : c = call ∧ i = id ∧ p = pc := by simpa using hq
    obtain ⟨hlt, hnone⟩ := h.stopping _ _ _ _ hapi
    refine ⟨hlt, ?_⟩
    rw [deploys_of_api fun _ _ _ _ hauto => by rw [hapi] at hauto; cases hauto]
    exact hnone
  · cases hq

theorem Fresh.attempt_deploys (h : s.Fresh) {call : CallId} {q : RowId × DeployPc}
    (hq : s.attempts call = some q) : s.deploys call = some q := by
  unfold Server.deploys
  split
  · rename_i c id pc rest hapi
    rw [if_neg, hq]
    rintro rfl
    rw [(h.autoDeploy _ _ _ _ hapi).2] at hq
    cases hq
  · exact hq

theorem deploys_update_attempts (h : s.Fresh) {call : CallId} {q : RowId × DeployPc} {t : Shared}
    (hq : s.attempts call = some q) (x : Option (RowId × DeployPc)) :
    { s with shared := t, attempts := Function.update s.attempts call x }.deploys =
      Function.update s.deploys call x := by
  funext c
  unfold Server.deploys
  dsimp only
  split
  · rename_i c' id pc rest hapi
    have hne : c' ≠ call := by
      rintro rfl
      rw [(h.autoDeploy _ _ _ _ hapi).2] at hq
      cases hq
    by_cases hc : c = call
    · rw [hc, if_neg hne.symm, Function.update_self, Function.update_self]
    · rw [Function.update_of_ne hc, Function.update_of_ne hc]
  · rfl

theorem step_attempt (hf : s.Fresh) {call : CallId} {fault : Bool}
    (h : s.attemptStep call fault = some s') :
    s.Move ports localAddr (.attempt call fault) s' ∧ s'.Fresh := by
  obtain ⟨⟨id, pc⟩, hcall, h⟩ := Option.bind_eq_some_iff.mp h
  obtain ⟨⟨t, next⟩, hstep, rfl⟩ := Option.map_eq_some_iff.mp h
  refine ⟨.deploy (by simp [movesDeploy, hcall]) (hf.attempt_deploys hcall)
    (Shared.deployStep_cases hstep) rfl (deploys_update_attempts hf hcall _) rfl rfl rfl rfl,
    ?_, ?_, ?_⟩
  · intro c hc
    show Function.update s.attempts call _ c = none
    rw [Function.update_of_ne, hf.attempts c hc]
    rintro rfl
    rw [hf.attempts c hc] at hcall
    cases hcall
  · intro c i p rest hapi
    refine ⟨(hf.autoDeploy c i p rest hapi).1, ?_⟩
    show Function.update s.attempts call _ c = none
    rw [Function.update_of_ne, (hf.autoDeploy c i p rest hapi).2]
    rintro rfl
    rw [(hf.autoDeploy _ _ _ _ hapi).2] at hcall
    cases hcall
  · intro c i p after hapi
    refine ⟨(hf.stopping c i p after hapi).1, ?_⟩
    show Function.update s.attempts call _ c = none
    rw [Function.update_of_ne, (hf.stopping c i p after hapi).2]
    rintro rfl
    rw [(hf.stopping _ _ _ _ hapi).2] at hcall
    cases hcall

/-- The thread is in a state in which it runs no call. -/
theorem fresh_of_api (hattempts : ∀ call, s.nextCall ≤ call → s.attempts call = none)
    (hdeploy : ∀ call id pc rest, s.api ≠ .autoDeploy call id pc rest)
    (hstop : ∀ call id pc after, s.api ≠ .stopping call id pc after) : s.Fresh :=
  ⟨hattempts, fun c i p r h => absurd h (hdeploy c i p r),
    fun c i p a h => absurd h (hstop c i p a)⟩

theorem fresh_boot (db : Database) (ports : FreshPool) : (boot db ports).Fresh :=
  fresh_of_api (fun _ _ => rfl) (fun _ _ _ _ h => by cases h) fun _ _ _ _ h => by cases h

theorem step_api (hf : s.Fresh) {fault : Bool} (h : s.apiStep fault = some s') :
    s.Move ports localAddr (.api fault) s' ∧ s'.Fresh := by
  unfold apiStep at h
  split at h
  · rename_i id hapi
    obtain rfl := Option.some.inj h
    refine ⟨@Move.start _ _ _ _ _ id (by simp [movesDeploy, hapi]) rfl ?_ ?_ rfl rfl
      (by rw [hapi]; rfl) rfl, fresh_of_api ?_ ?_ ?_⟩
    · rw [deploys_of_api (s := s) (by simp [hapi])]
      rfl
    · rw [stopping_of_api (s := s) (by simp [hapi])]
      rfl
    · intro c hc
      show Function.update s.attempts s.nextCall _ c = none
      rw [Function.update_of_ne (Nat.ne_of_gt hc)]
      exact hf.attempts c (Nat.le_of_succ_le hc)
    · exact fun _ _ _ _ h => by cases h
    · exact fun _ _ _ _ h => by cases h
  · rename_i id after hapi
    obtain rfl := Option.some.inj h
    refine ⟨.startStop (by simp [movesDeploy, hapi]) rfl ?_ (stopping_of_api (by simp [hapi])) rfl
      rfl rfl (by rw [hapi]; rfl) rfl, ?_, ?_, ?_⟩
    · rw [deploys_of_api (s := s) (by simp [hapi])]
      rfl
    · exact fun c hc => hf.attempts c (Nat.le_of_succ_le hc)
    · exact fun _ _ _ _ h => by cases h
    · rintro c i p a ⟨⟩
      exact ⟨Nat.lt_succ_self _, hf.attempts _ (Nat.le_refl _)⟩
  · rename_i call id pc after hapi
    obtain ⟨⟨t, next⟩, hstep, rfl⟩ := Option.map_eq_some_iff.mp h
    have hstopping : s.stopping = some (call, id, pc) := by simp [Server.stopping, hapi]
    obtain ⟨hlt, hnone⟩ := hf.stopping _ _ _ _ hapi
    have hdeploys : s.deploys = s.attempts := deploys_of_api (by simp [hapi])
    refine ⟨@Move.stop _ _ _ _ _ call id pc after t next (by simp [movesDeploy, hapi])
      (by simpa [movesStop] using hstopping) hstopping (Shared.stopStep_cases hstep) rfl ?_ ?_ rfl
      rfl (by rw [hapi]; rfl) ?_, ?_⟩
    · rw [hdeploys]
      refine deploys_of_api ?_
      cases next with
      | some pc => exact fun _ _ _ _ h => by cases h
      | none => cases after <;> exact fun _ _ _ _ h => by cases h
    · cases next with
      | some pc => rfl
      | none => cases after <;> rfl
    · cases next with
      | some pc => exact .inl rfl
      | none => cases after <;> exact .inr ⟨rfl, rfl⟩
    · cases next with
      | some pc =>
          refine ⟨hf.attempts, by simp, ?_⟩
          intro c i p a h
          obtain ⟨rfl, -⟩ := ApiPc.stopping.inj h
          exact ⟨hlt, hnone⟩
      | none =>
          refine fresh_of_api hf.attempts ?_ ?_ <;> cases after <;>
            exact fun _ _ _ _ h => by cases h
  · rename_i id rest hapi
    obtain rfl := Option.some.inj h
    refine ⟨@Move.start _ _ _ _ _ id (by simp [movesDeploy, hapi]) rfl ?_ ?_ rfl rfl
      (by rw [hapi]; rfl) rfl, ?_, ?_, ?_⟩
    · rw [deploys_of_api (s := s) (by simp [hapi])]
      exact deploys_autoDeploy rfl
    · rw [stopping_of_api (s := s) (by simp [hapi])]
      rfl
    · exact fun c hc => hf.attempts c (Nat.le_of_succ_le hc)
    · rintro c i p a ⟨⟩
      exact ⟨Nat.lt_succ_self _, hf.attempts _ (Nat.le_refl _)⟩
    · exact fun _ _ _ _ h => by cases h
  · rename_i call id pc rest hapi
    obtain ⟨⟨t, next⟩, hstep, hs'⟩ := Option.map_eq_some_iff.mp h
    have hapi' : s'.api =
        (next.pc?.map fun pc => ApiPc.autoDeploy call id pc rest).getD (.autoNext rest) := by
      rw [← hs']
    have hattempts : s'.attempts = s.attempts := by rw [← hs']
    have hcalls : s'.nextCall = s.nextCall := by rw [← hs']
    obtain ⟨hlt, hnone⟩ := hf.autoDeploy _ _ _ _ hapi
    have hdeploys := deploys_autoDeploy hapi
    have hmove : s'.deploys = Function.update s.deploys call (next.pc?.map fun pc => (id, pc)) ∧
        s'.stopping = none ∧ s'.api.handler = .idle ∧ s'.Fresh := by
      cases hnext : next.pc? with
      | some pc' =>
          rw [hnext, Option.map_some, Option.getD_some] at hapi'
          refine ⟨?_, stopping_of_api (by simp [hapi']), by rw [hapi']; rfl, ?_, ?_, ?_⟩
          · rw [deploys_autoDeploy hapi', hdeploys, Function.update_idem, hattempts]
            rfl
          · rw [hcalls, hattempts]
            exact hf.attempts
          · intro c i p r hauto
            obtain ⟨rfl, -⟩ := ApiPc.autoDeploy.inj (hapi'.symm.trans hauto)
            rw [hcalls, hattempts]
            exact ⟨hlt, hnone⟩
          · exact fun _ _ _ _ hstop => by rw [hapi'] at hstop; cases hstop
      | none =>
          rw [hnext, Option.map_none, Option.getD_none] at hapi'
          refine ⟨?_, stopping_of_api (by simp [hapi']), by rw [hapi']; rfl,
            fresh_of_api ?_ (by simp [hapi']) (by simp [hapi'])⟩
          · rw [deploys_of_api (by simp [hapi']), hdeploys, Function.update_idem, hattempts,
              Option.map_none]
            exact (Function.update_eq_self_iff.mpr hnone.symm).symm
          · rw [hcalls, hattempts]
            exact hf.attempts
    obtain ⟨hmoved, hstopping, hhandler, hfresh⟩ := hmove
    refine ⟨@Move.deploy _ _ _ _ _ call id pc t next (by simp [movesDeploy, hapi])
      (by rw [hdeploys, Function.update_self]) (Shared.deployStep_cases hstep)
      (by rw [← hs']) hmoved
      ?_ (by rw [← hs']) hcalls ?_, hfresh⟩
    · rw [hstopping, stopping_of_api (s := s) (by simp [hapi])]
    · rw [hhandler, hapi]
      rfl
  · rename_i hspawn hstop hstopping hnext hauto
    obtain ⟨⟨t, pc⟩, hstep, rfl⟩ := Option.map_eq_some_iff.mp h
    obtain ⟨hdeploy', hstop'⟩ := Shared.handlerStep_api hstep
    refine ⟨.handler hstep rfl ?_ ?_ ?_ rfl rfl rfl, fresh_of_api hf.attempts hdeploy' hstop'⟩
    · rw [deploys_of_api (s := s) hauto]
      exact deploys_of_api hdeploy'
    · exact stopping_of_api hstopping
    · exact stopping_of_api hstop'

theorem step_move (hf : s.Fresh) {label : Label} (h : s.step ports localAddr label = some s') :
    s.Move ports localAddr label s' ∧ s'.Fresh := by
  have hsurroundings : ∀ {label}, s.movesDeploy label = none →
      (s.shared.surroundings localAddr label).map (fun t => { s with shared := t }) = some s' →
      s.Move ports localAddr label s' ∧ s'.Fresh := by
    intro label hnone h
    obtain ⟨t, hstep, rfl⟩ := Option.map_eq_some_iff.mp h
    exact ⟨.surroundings hnone (Shared.around_of_surroundings hstep) rfl rfl rfl rfl rfl,
      hf.attempts, hf.autoDeploy, hf.stopping⟩
  cases label with
  | attempt call fault => exact step_attempt hf h
  | request fault r =>
      simp only [step] at h
      split at h
      · rename_i hidle
        obtain rfl := Option.some.inj h
        obtain ⟨hdeploy', hstop'⟩ := s.shared.request_api fault r
        refine ⟨.request hidle rfl ?_ (stopping_of_api (by simp [hidle]))
          (stopping_of_api hstop') rfl
          rfl rfl, fresh_of_api hf.attempts hdeploy' hstop'⟩
        rw [deploys_of_api (s := s) (by simp [hidle])]
        exact deploys_of_api hdeploy'
      · cases h
  | api fault => exact step_api hf h
  | event fault update =>
      simp only [step] at h
      split at h
      · rename_i hidle
        obtain rfl := Option.some.inj h
        exact ⟨.event hidle rfl rfl rfl rfl rfl rfl, hf.attempts, hf.autoDeploy, hf.stopping⟩
      · cases h
  | sync fault =>
      obtain ⟨⟨t, pc⟩, hstep, rfl⟩ := Option.map_eq_some_iff.mp h
      exact ⟨.sync (Shared.syncStep_cases hstep) rfl rfl rfl rfl rfl rfl, hf.attempts,
        hf.autoDeploy, hf.stopping⟩
  | restart =>
      obtain rfl := Option.some.inj h
      exact ⟨.restart, fresh_of_api (fun _ _ => rfl) (fun _ _ _ _ h => by cases h)
        fun _ _ _ _ h => by
        cases h⟩
  | _ => exact hsurroundings rfl h

/-- A deploy that is there after its own step has gone on. -/
theorem goto_of_update_self {deploys : CallId → Option (RowId × DeployPc)} {call : CallId}
    {id i : RowId} {next : DeployNext} {p : DeployPc}
    (h : Function.update deploys call (next.pc?.map fun pc => (id, pc)) call = some (i, p)) :
    i = id ∧ next = .goto p := by
  rw [Function.update_self] at h
  obtain ⟨p', hnext, heq⟩ := Option.map_eq_some_iff.mp h
  obtain ⟨rfl, rfl⟩ := Prod.mk.inj heq
  cases next with
  | goto p'' => exact ⟨rfl, congrArg _ (Option.some.inj hnext)⟩
  | _ => cases hnext

/-- What a step does to the deploy it moves. -/
theorem Move.deploy_step (h : s.Move ports localAddr label s') {call : CallId} {id : RowId}
    {pc : DeployPc} (hmoves : s.movesDeploy label = some (call, id, pc)) :
    ∃ t next, s.shared.DeployStep call id label.fault pc t next ∧ s.deploys call = some (id, pc) ∧
      s'.shared = t.endCall call id next ∧ s'.stopping = s.stopping ∧
        s'.deploys = Function.update s.deploys call (next.pc?.map fun pc => (id, pc)) := by
  cases h with
  | @deploy _ _ c i p t next hmoves' hpc hdeploy hshared hdeploys hstopping =>
      obtain ⟨rfl, rfl, rfl⟩ : c = call ∧ i = id ∧ p = pc := by simpa [hmoves'] using hmoves
      exact ⟨t, next, hdeploy, hpc, hshared, hstopping, hdeploys⟩
  | stop hnone | start hnone | startStop hnone | surroundings hnone =>
      rw [hnone] at hmoves
      cases hmoves
  | handler hhandler =>
      simp only [movesDeploy] at hmoves
      split at hmoves
      · rename_i hapi
        rw [hapi] at hhandler
        cases hhandler
      · cases hmoves
  | request | event | sync | restart => cases hmoves

/-- What a deploy starts with and its own steps keep, every deploy has. -/
theorem Move.each {label : Label} {Q : CallId → RowId → DeployPc → Prop}
    (h : s.Move ports localAddr label s') (hcheck : ∀ call id, Q call id .check)
    (hstep : ∀ {t : Shared} {call : CallId} {id : RowId} {pc next : DeployPc},
      s.shared.DeployStep call id label.fault pc t (.goto next) → Q call id pc → Q call id next)
    (hs : ∀ call id pc, s.deploys call = some (id, pc) → Q call id pc) :
    ∀ call id pc, s'.deploys call = some (id, pc) → Q call id pc := by
  intro call id pc hpc
  cases h with
  | @deploy _ _ c i p t next _ hcall hdeploy _ hdeploys =>
      rw [hdeploys] at hpc
      by_cases hc : call = c
      · subst hc
        obtain ⟨rfl, rfl⟩ := goto_of_update_self hpc
        exact hstep hdeploy (hs _ _ _ hcall)
      · rw [Function.update_of_ne hc] at hpc
        exact hs _ _ _ hpc
  | start _ _ hdeploys =>
      rw [hdeploys] at hpc
      by_cases hc : call = s.nextCall
      · subst hc
        rw [Function.update_self] at hpc
        obtain ⟨rfl, rfl⟩ := Prod.mk.inj (Option.some.inj hpc)
        exact hcheck _ _
      · rw [Function.update_of_ne hc] at hpc
        exact hs _ _ _ hpc
  | restart => cases hpc
  | stop _ _ _ _ _ hdeploys | startStop _ _ hdeploys | request _ _ hdeploys | handler _ _ hdeploys
  | event _ _ hdeploys | sync _ _ hdeploys | surroundings _ _ hdeploys =>
      rw [hdeploys] at hpc
      exact hs _ _ _ hpc

end

end Server

end Kdct
