/-
Deploys of one connection at a time.

A deploy waits under its container's name, and the name ends in the id of the
connection, so only deploys of one connection can take each other's waiter.
`Exclusive` says that at most one deploy of a connection is past its status check
and that no deploy takes the sender another one waits for.  The status check does
not see a deploy that has not finished, so this holds exactly in the runs in which
no check passes while another deploy of the connection is past its own.
-/
import Kdct.Server.Outcome

namespace Kdct

/-- The connection is found by its container's name. -/
theorem Plan.connectionId_of_containerName {p q : Plan} (h : p.containerName = q.containerName) :
    p.connectionId = q.connectionId :=
  eq_of_dash_toString h

/-- The calls that are deploys past their check. -/
def Event.checked? : Event → Option CallId
  | .checked call _ => some call
  | _ => none

/-- The call that lost the sender it waited for, and the call that dropped it. -/
def Event.dropped? : Event → Option (CallId × CallId)
  | .displaced other call | .removed other call => some (other, call)
  | _ => none

namespace Server

/-- At most one deploy of a connection is past its check, and no deploy loses the
sender it waits for to another deploy. -/
def Exclusive (s : Server) : Prop :=
  (∀ c c' id pc pc', s.deploys c = some (id, pc) → s.deploys c' = some (id, pc') → c ≠ c' →
    pc = .check ∨ pc' = .check) ∧
    ∀ o c, (o, c) ∈ s.shared.log.filterMap Event.dropped? → o ≠ c →
      o ∈ s.shared.log.filterMap Event.checked? → c ∉ s.shared.log.filterMap Event.checked?

/-- A status check that passes finds no other deploy of the connection past its own
check. -/
def Excluding (s : Server) (label : Label) : Prop :=
  match s.movesDeploy label with
  | some (call, id, .check) =>
      label.fault = false → s.shared.db.deployable id = true →
        ∀ c < s.nextCall, c ≠ call → ∀ q ∈ s.deploys c, q.1 = id → q.2 = .check
  | _ => True

instance (s : Server) (label : Label) : Decidable (s.Excluding label) := by
  unfold Excluding
  rcases s.movesDeploy label with _ | ⟨call, id, pc⟩
  · exact .isTrue trivial
  · rcases pc with _ | _
    case check => dsimp only; infer_instance
    all_goals exact .isTrue trivial

end Server

/-! ## What a deploy has put into the waiter map -/

/-- The deploy of a task that has inserted its waiter. -/
def DeployPc.inserted? : DeployPc → Option Deploy
  | .send d _ | .wait d | .giveUp d _ | .record d | .lock d | .register d _ | .push d _ _
  | .finish d => some d
  | _ => none

/-- Where a deploy may have a waiter without a result. -/
def DeployPc.awaits : DeployPc → Bool
  | .send .. | .wait _ => true
  | _ => false

theorem Nudge.waiting {w w' : Option Waiter} {T T' : Trail} (h : Nudge w T w' T')
    (hw : w' = some .waiting) : w = some .waiting := by
  cases h with
  | same => exact hw
  | closed | filled => cases hw

namespace Shared

variable {s t : Shared} {ch : ChannelId} {name : String} {call : CallId}

/-- No name gets a waiter. -/
def PendingShrinks (s t : Shared) : Prop :=
  ∀ ch name o, (t.pending ch).lookup name = some o → (s.pending ch).lookup name = some o

theorem dropSender_pending (e : Event) : (s.dropSender call e).pending = s.pending := by
  unfold dropSender
  split <;> rfl

theorem pendingShrinks_erase (ch : ChannelId) (name : String)
    (h : t.pending = Function.update s.pending ch ((s.pending ch).erase name)) :
    s.PendingShrinks t := by
  intro ch' name' o ho
  rw [h] at ho
  by_cases hch : ch' = ch
  · subst hch
    rw [Function.update_self] at ho
    exact (HashMap.lookup_erase_eq_some.mp ho).2
  · rwa [Function.update_of_ne hch] at ho

theorem insertWaiter_map : (s.insertWaiter ch name call).pending =
    Function.update s.pending ch ((s.pending ch).insert name call) := by
  unfold insertWaiter
  split
  · dsimp only
    rw [dropSender_pending]
  · rfl

theorem insertWaiter_lookup (ch' : ChannelId) (name' : String) :
    ((s.insertWaiter ch name call).pending ch').lookup name' =
      if ch' = ch ∧ name' = name then some call else (s.pending ch').lookup name' := by
  rw [insertWaiter_map]
  by_cases hch : ch' = ch
  · subst hch
    rw [Function.update_self, HashMap.lookup_insert_eq]
    simp only [true_and]
  · rw [Function.update_of_ne hch, if_neg fun h => hch h.1]

theorem insertWaiter_pending {ch' : ChannelId} {name' : String} {o : CallId}
    (h : ((s.insertWaiter ch name call).pending ch').lookup name' = some o) :
    o = call ∧ name' = name ∨ (s.pending ch').lookup name' = some o := by
  rw [insertWaiter_lookup] at h
  split at h
  · rename_i hkey
    exact .inl ⟨(Option.some.inj h).symm, hkey.2⟩
  · exact .inr h

theorem removeWaiter_pending : s.PendingShrinks (s.removeWaiter ch name call) := by
  unfold removeWaiter
  split
  · refine pendingShrinks_erase ch name ?_
    dsimp only
    rw [dropSender_pending]
  · exact fun _ _ _ h => h

theorem answer_pending (reply : Reply) : s.PendingShrinks (s.answer ch name reply) := by
  unfold answer
  split
  · dsimp only
    split <;> exact pendingShrinks_erase ch name rfl
  · exact fun _ _ _ h => h

theorem message_pending (cmd : ControlChannelCmd) : s.PendingShrinks (s.message ch cmd) := by
  cases cmd with
  | reportNodeStatus status =>
      simp only [message]
      generalize status.runningContainers = cs
      induction cs generalizing s with
      | nil => exact fun _ _ _ h => h
      | cons c cs ih =>
          intro ch' name' o ho
          rw [List.foldl_cons] at ho
          exact answer_pending _ ch' name' o (ih ch' name' o ho)
  | containerStarted name ports => exact answer_pending _
  | containerStopped name => exact answer_pending _
  | containerError name text => exact answer_pending _
  | _ => exact fun _ _ _ h => h

theorem Around.pending {localAddr : LocalAddr} (h : s.Around localAddr t) : s.PendingShrinks t := by
  cases h with
  | message ch cmd => exact message_pending cmd
  | _ => exact fun _ _ _ h => h

/-! ## Senders that are dropped -/

theorem dropSender_dropped {o : CallId} {e : Event} (he : e.dropped? = some (o, call)) :
    (s.dropSender o e).log.filterMap Event.dropped? = s.log.filterMap Event.dropped? ∨
      s.waiters o = some .waiting ∧
        (s.dropSender o e).log.filterMap Event.dropped? =
          (o, call) :: s.log.filterMap Event.dropped? := by
  unfold dropSender
  split
  · rename_i hw
    exact .inr ⟨hw, List.filterMap_cons_some he⟩
  · exact .inl rfl

/-- What a step adds to the dropped senders. -/
def Drops (s t : Shared) (call : CallId) (name : String) : Prop :=
  t.log.filterMap Event.dropped? = s.log.filterMap Event.dropped? ∨
    ∃ ch o, (s.pending ch).lookup name = some o ∧ s.waiters o = some .waiting ∧
      t.log.filterMap Event.dropped? = (o, call) :: s.log.filterMap Event.dropped?

theorem insertWaiter_drops : s.Drops (s.insertWaiter ch name call) call name := by
  unfold insertWaiter
  split
  · rename_i o ho
    rcases dropSender_dropped (s := s) (e := .displaced o call) rfl with hlog | ⟨hw, hlog⟩
    · exact .inl hlog
    · exact .inr ⟨ch, o, ho, hw, hlog⟩
  · exact .inl rfl

theorem removeWaiter_drops : s.Drops (s.removeWaiter ch name call) call name := by
  unfold removeWaiter
  split
  · rename_i o ho
    rcases dropSender_dropped (s := s) (e := .removed o call) rfl with hlog | ⟨hw, hlog⟩
    · exact .inl hlog
    · exact .inr ⟨ch, o, ho, hw, hlog⟩
  · exact .inl rfl

/-! ## The steps of a deploy -/

/-- A step changes no sender but its own, adds no call to the checked ones but its
own, and keeps the deploy whose waiter it has inserted. -/
structure Own (s t : Shared) (pc : DeployPc) (next : DeployNext) (call : CallId) (id : RowId)
    (fault : Bool) : Prop where
  waits : (s.waiters call = some .waiting → pc.awaits = true) → t.waiters call = some .waiting →
    ∃ pc', next = .goto pc' ∧ pc'.awaits = true
  inserted : ∀ d pc', pc.inserted? = some d → next = .goto pc' → pc'.inserted? = some d
  later : next ≠ .goto .check
  pending : ∀ ch name o, (t.pending ch).lookup name = some o →
    (s.pending ch).lookup name = some o ∨ o = call ∧ pc.inserted? = none ∧
      ∀ pc', next = .goto pc' → ∃ d, pc'.inserted? = some d ∧ d.plan.containerName = name
  checked : t.log.filterMap Event.checked? = s.log.filterMap Event.checked? ∨
    pc = .check ∧ fault = false ∧ s.db.deployable id = true ∧
      t.log.filterMap Event.checked? = call :: s.log.filterMap Event.checked?
  dropped : t.log.filterMap Event.dropped? = s.log.filterMap Event.dropped? ∨
    pc ≠ .check ∧ ∃ d, pc.deploy? = some d ∧ s.Drops t call d.plan.containerName

theorem Own.of_same {pc next : DeployPc} {call : CallId} {id : RowId} {fault : Bool}
    (hwaiters : t.waiters = s.waiters) (hpending : t.pending = s.pending)
    (hchecked : t.log.filterMap Event.checked? = s.log.filterMap Event.checked?)
    (hdropped : t.log.filterMap Event.dropped? = s.log.filterMap Event.dropped?)
    (hawaits : pc.awaits = true → next.awaits = true) (hnext : next ≠ .check)
    (hinserted : ∀ d, pc.inserted? = some d → next.inserted? = some d) :
    s.Own t pc (.goto next) call id fault := by
  refine ⟨fun hpc hw => ⟨next, rfl, hawaits (hpc (hwaiters ▸ hw))⟩, ?_, by simpa using hnext, ?_,
    .inl hchecked, .inl hdropped⟩
  · rintro d pc' hd ⟨⟩
    exact hinserted d hd
  · intro ch name o ho
    rw [hpending] at ho
    exact .inl ho

/-- A deploy that ends without a waiter of its own. -/
theorem Own.of_exit {pc : DeployPc} {result : Except DeployError String}
    {call : CallId} {id : RowId}
    {fault : Bool}
    (hwaits : (s.waiters call = some .waiting → pc.awaits = true) → t.waiters call ≠ some .waiting)
    (hpending : s.PendingShrinks t)
    (hchecked : t.log.filterMap Event.checked? = s.log.filterMap Event.checked?)
    (hdropped : t.log.filterMap Event.dropped? = s.log.filterMap Event.dropped? ∨
      pc ≠ .check ∧ ∃ d, pc.deploy? = some d ∧ s.Drops t call d.plan.containerName) :
    s.Own t pc (.exit result) call id fault :=
  ⟨fun hpc hw => absurd hw (hwaits hpc), fun _ _ _ h => (by cases h), by simp,
    fun ch name o ho => .inl (hpending ch name o ho), .inl hchecked, hdropped⟩

theorem DeployStep.own {call : CallId} {id : RowId} {fault : Bool} {pc : DeployPc}
    {next : DeployNext} (h : DeployStep s call id fault pc t next) :
    s.Own (t.endCall call id next) pc next call id fault := by
  cases h
  case skip => exact ⟨fun hpc hw => (by cases hpc hw), fun _ _ _ h => (by cases h), by simp,
    fun _ _ _ ho => .inl ho, .inl rfl, .inl rfl⟩
  case checked info hfault hrow hslots hstatus hnode =>
    refine ⟨fun hpc hw => (by cases hpc hw), fun _ _ h => (by cases h), by simp,
      fun _ _ _ ho => .inl ho, .inr ⟨rfl, hfault, ?_, rfl⟩, .inl rfl⟩
    simp [Database.deployable, hrow, hslots, hstatus, hnode]
  case refused e hrefuses =>
    refine .of_exit (fun hpc hw => ?_) (fun _ _ _ ho => ho) rfl (.inl rfl)
    have hawaits := hpc hw
    cases pc <;> first | exact Bool.noConfusion hrefuses | exact Bool.noConfusion hawaits
  case insert d env =>
    refine ⟨fun _ _ => ⟨_, rfl, rfl⟩, fun _ _ h => (by cases h), by simp, fun ch name o ho => ?_,
      .inl (insertWaiter_log _ s _ _ _ fun _ => rfl), .inr ⟨by simp, d, rfl, insertWaiter_drops⟩⟩
    rcases insertWaiter_pending ho with ⟨rfl, rfl⟩ | ho
    · exact .inr
        ⟨rfl, rfl, fun pc' hpc' => by obtain rfl := DeployNext.goto.inj hpc'; exact ⟨d, rfl, rfl⟩⟩
    · exact .inl ho
  case sendFailed d env _ =>
    refine .of_exit (fun _ hw => ?_) (fun _ _ _ ho => ho) rfl (.inl rfl)
    have hnone : Function.update s.waiters call none call = none := Function.update_self ..
    cases hnone.symm.trans hw
  case answered d reply hreply =>
    refine ⟨fun _ hw => ?_, ?_, by simp, fun _ _ _ ho => .inl ho, .inl rfl, .inl rfl⟩
    · cases hreply.symm.trans hw
    · rintro d' pc' hd ⟨⟩
      exact hd
  case dropped d hclosed =>
    refine ⟨fun _ hw => ?_, ?_, by simp, fun _ _ _ ho => .inl ho, .inl rfl, .inl rfl⟩
    · cases hclosed.symm.trans hw
    · rintro d' pc' hd ⟨⟩
      exact hd
  case timedOut d hwaiting =>
    refine ⟨fun _ hw => ?_, ?_, by simp, fun _ _ _ ho => .inl ho, .inl rfl, .inl rfl⟩
    · have hnone : Function.update s.waiters call none call = none := Function.update_self ..
      cases hnone.symm.trans hw
    · rintro d' pc' hd ⟨⟩
      exact hd
  case gaveUp d e =>
    refine .of_exit (fun hpc hw => ?_) removeWaiter_pending
      (removeWaiter_log _ s _ _ _ fun _ => rfl)
      (.inr ⟨by simp, d, rfl, removeWaiter_drops⟩)
    cases hpc ((s.removeWaiter_nudges d.channel d.plan.containerName call call).waiting hw)
  case routeRejected d p clientPort rest path e _ _ =>
    exact .of_exit (fun hpc hw => by cases hpc hw) (fun _ _ _ ho => ho) rfl (.inl rfl)
  case routed d p clientPort rest path routes _ _ =>
    obtain ⟨_, _, h⟩ := ({ s with routes := routes }.note
      (.routed d path (p.poolPort.getD 0))).spawnLoops_frame d p clientPort
    rw [h]
    exact .of_same rfl rfl rfl rfl (fun h => by cases h) (by simp) fun _ hd => hd
  case unrouted d p clientPort rest _ =>
    obtain ⟨_, _, h⟩ := s.spawnLoops_frame d p clientPort
    rw [h]
    exact .of_same rfl rfl rfl rfl (fun h => by cases h) (by simp) fun _ hd => hd
  case finished d db text _ _ =>
    exact .of_exit (fun hpc hw => by cases hpc hw) (fun _ _ _ ho => ho) rfl (.inl rfl)
  all_goals
    exact .of_same rfl rfl rfl rfl (fun h => by first | rfl | cases h) (by simp) fun _ hd => hd

/-- A check that lets a deploy go on has passed. -/
theorem DeployStep.deployable {call : CallId} {id : RowId} {fault : Bool} {next : DeployPc}
    (h : DeployStep s call id fault .check t (.goto next)) :
    fault = false ∧ s.db.deployable id = true := by
  cases h with
  | checked hfault hrow hslots hstatus hnode =>
      exact ⟨hfault, by simp [Database.deployable, hrow, hslots, hstatus, hnode]⟩

theorem stop_drops {call : CallId} {id : RowId} {fault : Bool} {pc : StopPc} {next : StopNext}
    (h : s.StopStep call id fault pc t next) :
    t.log.filterMap Event.checked? = s.log.filterMap Event.checked? ∧
      (∃ name, s.Drops t call name) ∧
      ∀ ch name o, (t.pending ch).lookup name = some o →
        o = call ∨ (s.pending ch).lookup name = some o := by
  cases h
  case insert info nodeUuid ch =>
    exact ⟨insertWaiter_log _ s _ _ _ fun _ => rfl, ⟨_, insertWaiter_drops⟩, fun ch' name o ho =>
      (insertWaiter_pending ho).imp_left And.left⟩
  all_goals exact ⟨rfl, ⟨"", .inl rfl⟩, fun _ _ _ ho => .inr ho⟩

end Shared

theorem DeployPc.deploy_of_inserted {pc : DeployPc} {d : Deploy} (h : pc.inserted? = some d) :
    pc.deploy? = some d := by
  cases pc <;> first | exact h | cases h

theorem DeployPc.ne_check_of_awaits {pc : DeployPc} (h : pc.awaits = true) : pc ≠ .check := by
  rintro rfl
  cases h

namespace Server

variable {ports : FreshPool} {localAddr : LocalAddr} {s s' : Server} {label : Label}

/-! ## Every step -/

/-- A call whose status check is behind it, or that has none. -/
def Old (s : Server) (c : CallId) : Prop := c < s.nextCall ∧ ∀ id, s.deploys c ≠ some (id, .check)

structure ExclusiveInv (s : Server) : Prop where
  fresh : s.Fresh
  belongs : s.Belongs
  waits : ∀ c, s.shared.waiters c = some .waiting →
    (∃ id pc, s.deploys c = some (id, pc) ∧ pc.awaits = true) ∨
      ∃ id pc, s.stopping = some (c, id, pc) ∧ pc.awaits = true
  entries : ∀ ch name o, (s.shared.pending ch).lookup name = some o → o < s.nextCall ∧
    ∀ id pc, s.deploys o = some (id, pc) → ∃ d, pc.inserted? = some d ∧ d.plan.containerName = name
  stop : ∀ c id pc, s.stopping = some (c, id, pc) → c ∉ s.shared.log.filterMap Event.checked?
  checked : ∀ c ∈ s.shared.log.filterMap Event.checked?, s.Old c
  dropped : ∀ o c, (o, c) ∈ s.shared.log.filterMap Event.dropped? → s.Old o ∧ s.Old c
  exclusive : s.Exclusive

theorem exclusiveInv_boot (ports : FreshPool) : (boot .empty ports).ExclusiveInv := by
  refine ⟨fresh_boot _ ports, ?_, ?_, ?_, ?_, ?_, ?_, ?_⟩
  · exact fun _ _ _ h => by cases h
  · exact fun c h => by cases h
  · exact fun ch name o h => by cases h
  · exact fun c id pc h => by cases h
  · exact fun c h => by cases h
  · exact fun o c h => by cases h
  · exact ⟨fun c c' id pc pc' h => (by cases h), fun o c h => (by cases h)⟩

theorem Move.old (h : s.Move ports localAddr label s') {c : CallId} (hc : s.Old c) : s'.Old c := by
  obtain ⟨hlt, hpc⟩ := hc
  cases h with
  | @deploy _ _ call id pc t next _ _ hdeploy _ hdeploys _ _ hcalls =>
      refine ⟨hcalls ▸ hlt, fun i hi => ?_⟩
      rw [hdeploys] at hi
      by_cases heq : c = call
      · subst heq
        obtain ⟨rfl, rfl⟩ := goto_of_update_self hi
        exact hdeploy.own.later rfl
      · rw [Function.update_of_ne heq] at hi
        exact hpc i hi
  | start _ _ hdeploys _ _ hcalls =>
      refine ⟨hcalls ▸ Nat.lt_succ_of_lt hlt, fun i hi => ?_⟩
      rw [hdeploys, Function.update_of_ne (Nat.ne_of_lt hlt)] at hi
      exact hpc i hi
  | startStop _ _ hdeploys _ _ _ hcalls =>
      refine ⟨hcalls ▸ Nat.lt_succ_of_lt hlt, fun i hi => ?_⟩
      rw [hdeploys] at hi
      exact hpc i hi
  | restart => exact ⟨hlt, fun _ hi => by cases hi⟩
  | stop _ _ _ _ _ hdeploys _ _ hcalls | request _ _ hdeploys _ _ _ hcalls
  | handler _ _ hdeploys _ _ _ hcalls | event _ _ hdeploys _ _ hcalls
  | sync _ _ hdeploys _ _ hcalls | surroundings _ _ hdeploys _ _ hcalls =>
      refine ⟨hcalls ▸ hlt, fun i hi => ?_⟩
      rw [hdeploys] at hi
      exact hpc i hi

/-- A step that moves no call. -/
theorem ExclusiveInv.congr (h : s.ExclusiveInv) (hfresh : s'.Fresh)
    (hwaits : ∀ c, s'.shared.waiters c = some .waiting → s.shared.waiters c = some .waiting)
    (hpending : s.shared.PendingShrinks s'.shared)
    (hchecked : s'.shared.log.filterMap Event.checked? = s.shared.log.filterMap Event.checked?)
    (hdropped : s'.shared.log.filterMap Event.dropped? = s.shared.log.filterMap Event.dropped?)
    (hdeploys : s'.deploys = s.deploys) (hstopping : s'.stopping = s.stopping)
    (hcalls : s'.nextCall = s.nextCall) : s'.ExclusiveInv := by
  have hold : ∀ {c}, s.Old c → s'.Old c := by
    rintro c ⟨hlt, hpc⟩
    exact ⟨hcalls ▸ hlt, hdeploys ▸ hpc⟩
  refine ⟨hfresh, ?_, fun c hw => ?_, fun ch name o ho => ?_, fun c id pc hpc => ?_, fun c hc => ?_,
    fun o c hoc => ?_, ?_⟩
  · intro c id pc hpc
    rw [hdeploys] at hpc
    exact h.belongs c id pc hpc
  · rw [hdeploys, hstopping]
    exact h.waits c (hwaits c hw)
  · rw [hdeploys, hcalls]
    exact h.entries ch name o (hpending ch name o ho)
  · rw [hchecked]
    exact h.stop c id pc (hstopping ▸ hpc)
  · rw [hchecked] at hc
    exact hold (h.checked c hc)
  · rw [hdropped] at hoc
    exact (h.dropped o c hoc).imp hold hold
  · unfold Exclusive
    rw [hdeploys, hchecked, hdropped]
    exact h.exclusive

/-- A step that leaves the waiters and the log. -/
theorem ExclusiveInv.of_same (h : s.ExclusiveInv) (hfresh : s'.Fresh)
    (hwaiters : s'.shared.waiters = s.shared.waiters)
    (hpending : s'.shared.pending = s.shared.pending) (hlog : s'.shared.log = s.shared.log)
    (hdeploys : s'.deploys = s.deploys) (hstopping : s'.stopping = s.stopping)
    (hcalls : s'.nextCall = s.nextCall) : s'.ExclusiveInv := by
  have hwaits : ∀ c, s'.shared.waiters c = some .waiting → s.shared.waiters c = some .waiting :=
    fun _ hw => hwaiters ▸ hw
  have hshrinks : s.shared.PendingShrinks s'.shared := fun _ _ _ ho => hpending ▸ ho
  exact h.congr hfresh hwaits hshrinks (by rw [hlog]) (by rw [hlog]) hdeploys hstopping hcalls

/-- A sender that a call drops belongs to itself, to a stop or to a deploy of another
connection. -/
theorem ExclusiveInv.drops (h : s.ExclusiveInv) {ch : ChannelId} {name : String} {o : CallId}
    (hentry : (s.shared.pending ch).lookup name = some o)
    (hw : s.shared.waiters o = some .waiting) :
    s.Old o ∧ (o ∈ s.shared.log.filterMap Event.checked? →
      ∃ (id : RowId) (pc : DeployPc) (d : Deploy), s.deploys o = some (id, pc) ∧ pc ≠ .check ∧
        d.plan.connectionId = id ∧ d.plan.containerName = name) := by
  obtain ⟨hlt, hname⟩ := h.entries ch name o hentry
  rcases h.waits o hw with ⟨id, pc, hpc, hawaits⟩ | ⟨id, pc, hpc, _⟩
  · obtain ⟨d, hd, hdname⟩ := hname id pc hpc
    have hne := DeployPc.ne_check_of_awaits hawaits
    refine ⟨⟨hlt, fun i hi => ?_⟩, fun _ => ⟨id, pc, d, hpc, hne, ?_, hdname⟩⟩
    · rw [hpc] at hi
      exact hne (Prod.mk.inj (Option.some.inj hi)).2
    · exact ((h.belongs o id pc hpc).deploy (DeployPc.deploy_of_inserted hd)).2
  · refine ⟨⟨hlt, fun i hi => ?_⟩, fun hc => absurd hc (h.stop o id pc hpc)⟩
    rw [(h.fresh.stop_lt hpc).2] at hi
    cases hi

theorem ExclusiveInv.deploy (h : s.ExclusiveInv) (hC : s.Excluding label)
    (hmove : s.Move ports localAddr label s') (hfresh : s'.Fresh) {call : CallId} {id : RowId}
    {pc : DeployPc} {t : Shared} {next : DeployNext}
    (hmoves : s.movesDeploy label = some (call, id, pc)) (hpc : s.deploys call = some (id, pc))
    (hstep : s.shared.DeployStep call id label.fault pc t next)
    (hshared : s'.shared = t.endCall call id next)
    (hdeploys : s'.deploys = Function.update s.deploys call (next.pc?.map fun pc => (id, pc)))
    (hstopping : s'.stopping = s.stopping) (hcalls : s'.nextCall = s.nextCall) :
    s'.ExclusiveInv := by
  have hown := hstep.own
  have hbelongs := h.belongs call id pc hpc
  rw [← hshared] at hown
  have hnew : ∀ i p, s'.deploys call = some (i, p) → i = id ∧ next = .goto p := by
    intro i p hp
    rw [hdeploys] at hp
    exact goto_of_update_self hp
  have hkept : ∀ {c}, c ≠ call → s'.deploys c = s.deploys c := by
    intro c hc
    rw [hdeploys, Function.update_of_ne hc]
  have hnostop : ∀ i p, s.stopping ≠ some (call, i, p) := by
    intro i p hstop
    rw [(h.fresh.stop_lt hstop).2] at hpc
    cases hpc
  have hawaits : s.shared.waiters call = some .waiting → pc.awaits = true := by
    intro hw
    rcases h.waits call hw with ⟨i, p, hp, hawaits⟩ | ⟨i, p, hp, _⟩
    · rw [hpc] at hp
      obtain ⟨rfl, rfl⟩ := Prod.mk.inj (Option.some.inj hp)
      exact hawaits
    · exact absurd hp (hnostop i p)
  -- The other deploys of the connection are at their checks, or this one is.
  have hothers : ∀ c p p', c ≠ call → s.deploys c = some (id, p) → next = .goto p' →
      p = .check := by
    rintro c p p' hc hp rfl
    rcases h.exclusive.1 c call id p pc hp hpc hc with hcheck | rfl
    · exact hcheck
    · obtain ⟨hfault, hdeployable⟩ := hstep.deployable
      unfold Excluding at hC
      rw [hmoves] at hC
      exact hC hfault hdeployable c (h.fresh.lt hp) hc _ hp rfl
  have hold : pc ≠ .check → s.Old call := by
    refine fun hne => ⟨h.fresh.lt hpc, fun i hi => ?_⟩
    rw [hpc] at hi
    exact hne (Prod.mk.inj (Option.some.inj hi)).2
  have hnotOld : pc = .check → ¬s.Old call := by
    rintro rfl hcall
    exact hcall.2 id hpc
  refine ⟨hfresh, hmove.belongs h.belongs, fun c hw => ?_, fun ch name o ho => ?_,
    fun c i p hp => ?_,
    fun c hc => ?_, fun o c hoc => ?_, fun c c' i p p' hp hp' hne => ?_, fun o c hoc hne ho => ?_⟩
  · by_cases hc : c = call
    · subst hc
      obtain ⟨pc', rfl, hpc'⟩ := hown.waits hawaits hw
      refine .inl ⟨id, pc', ?_, hpc'⟩
      rw [hdeploys, Function.update_self]
      rfl
    · rw [hshared] at hw
      rw [hkept hc, hstopping]
      exact h.waits c ((hstep.others hbelongs hc).waiting hw)
  · rw [hcalls]
    rcases hown.pending ch name o ho with ho | ⟨rfl, _, hname⟩
    · obtain ⟨hlt, hname⟩ := h.entries ch name o ho
      refine ⟨hlt, fun i p hp => ?_⟩
      by_cases hc : o = call
      · subst hc
        obtain ⟨rfl, hnext⟩ := hnew i p hp
        obtain ⟨d, hd, hdname⟩ := hname i pc hpc
        exact ⟨d, hown.inserted d p hd hnext, hdname⟩
      · rw [hkept hc] at hp
        exact hname i p hp
    · exact ⟨h.fresh.lt hpc, fun i p hp => hname p (hnew i p hp).2⟩
  · rw [hstopping] at hp
    rcases hown.checked with hlog | ⟨_, _, _, hlog⟩
    · rw [hlog]
      exact h.stop c i p hp
    · rw [hlog, List.mem_cons, not_or]
      refine ⟨?_, h.stop c i p hp⟩
      rintro rfl
      exact hnostop i p hp
  · have hcases : c = call ∨ c ∈ s.shared.log.filterMap Event.checked? := by
      rcases hown.checked with hlog | ⟨_, _, _, hlog⟩
      · rw [hlog] at hc
        exact .inr hc
      · rw [hlog] at hc
        exact List.mem_cons.mp hc
    rcases hcases with rfl | hc
    · refine ⟨hcalls ▸ h.fresh.lt hpc, fun i hi => ?_⟩
      exact hown.later (hnew i _ hi).2
    · exact hmove.old (h.checked c hc)
  · rcases hown.dropped with hlog | ⟨hne, d, _, hlog | ⟨ch, o', hentry, hw, hlog⟩⟩
    · rw [hlog] at hoc
      exact (h.dropped o c hoc).imp hmove.old hmove.old
    · rw [hlog] at hoc
      exact (h.dropped o c hoc).imp hmove.old hmove.old
    · rw [hlog] at hoc
      rcases List.mem_cons.mp hoc with heq | hoc
      · obtain ⟨rfl, rfl⟩ := Prod.mk.inj heq
        exact ⟨hmove.old (h.drops hentry hw).1, hmove.old (hold hne)⟩
      · exact (h.dropped o c hoc).imp hmove.old hmove.old
  · by_cases hc : c = call
    · subst hc
      obtain ⟨rfl, hnext⟩ := hnew i p hp
      rw [hkept hne.symm] at hp'
      exact .inr (hothers c' p' p hne.symm hp' hnext)
    · rw [hkept hc] at hp
      by_cases hc' : c' = call
      · subst hc'
        obtain ⟨rfl, hnext⟩ := hnew i p' hp'
        exact .inl (hothers c p p' hc hp hnext)
      · rw [hkept hc'] at hp'
        exact h.exclusive.1 c c' i p p' hp hp' hne
  · rcases hown.checked with hchecked | ⟨hcheck, _, _, hchecked⟩
    · rw [hchecked] at ho ⊢
      rcases hown.dropped with hlog | ⟨hpast, d, hd, hlog | ⟨ch, o', hentry, hw, hlog⟩⟩
      · exact h.exclusive.2 o c (hlog ▸ hoc) hne ho
      · exact h.exclusive.2 o c (hlog ▸ hoc) hne ho
      · rw [hlog] at hoc
        rcases List.mem_cons.mp hoc with heq | hoc
        · obtain ⟨rfl, rfl⟩ := Prod.mk.inj heq
          -- The names agree, so both are deploys of one connection.
          obtain ⟨i, p, d', hp, hp', hi, hname⟩ := (h.drops hentry hw).2 ho
          have hid : i = id := by
            rw [← hi, ← (hbelongs.deploy hd).2]
            exact Plan.connectionId_of_containerName hname
          subst hid
          rcases h.exclusive.1 o c i p pc hp hpc hne with hcheck | hcheck
          · exact absurd hcheck hp'
          · exact absurd hcheck hpast
        · exact h.exclusive.2 o c hoc hne ho
    · have hlog : s'.shared.log.filterMap Event.dropped? =
          s.shared.log.filterMap Event.dropped? := by
        rcases hown.dropped with hlog | ⟨hpast, _⟩
        · exact hlog
        · exact absurd hcheck hpast
      rw [hlog] at hoc
      obtain ⟨holdO, holdC⟩ := h.dropped o c hoc
      rw [hchecked, List.mem_cons] at ho ⊢
      rcases ho with rfl | ho
      · exact absurd holdO (hnotOld hcheck)
      · rintro (rfl | hc)
        · exact hnotOld hcheck holdC
        · exact h.exclusive.2 o c hoc hne ho hc

theorem ExclusiveInv.stopStep (h : s.ExclusiveInv) (hmove : s.Move ports localAddr label s')
    (hfresh : s'.Fresh) {call : CallId} {id : RowId} {fault : Bool} {pc : StopPc} {next : StopNext}
    (hpc : s.stopping = some (call, id, pc))
    (hstep : s.shared.StopStep call id fault pc s'.shared next)
    (hdeploys : s'.deploys = s.deploys)
    (hstopping : s'.stopping = next.map fun pc => (call, id, pc))
    (hcalls : s'.nextCall = s.nextCall) : s'.ExclusiveInv := by
  obtain ⟨hchecked, ⟨name, hdrops⟩, hpending⟩ := Shared.stop_drops hstep
  obtain ⟨hlt, hnone⟩ := h.fresh.stop_lt hpc
  have hcall : s.Old call := ⟨hlt, fun i hi => by rw [hnone] at hi; cases hi⟩
  have hnew : ∀ c i p, s'.stopping = some (c, i, p) → c = call := by
    intro c i p hp
    rw [hstopping] at hp
    obtain ⟨_, _, heq⟩ := Option.map_eq_some_iff.mp hp
    exact (Prod.mk.inj heq).1.symm
  have hawaits : s.shared.waiters call = some .waiting → pc.awaits = true := by
    intro hw
    rcases h.waits call hw with ⟨i, p, hp, _⟩ | ⟨i, p, hp, hawaits⟩
    · rw [hnone] at hp
      cases hp
    · rw [hpc] at hp
      obtain ⟨_, _, rfl⟩ : call = call ∧ id = i ∧ pc = p := by simpa using hp
      exact hawaits
  have hcases : ∀ o c, (o, c) ∈ s'.shared.log.filterMap Event.dropped? →
      (o, c) ∈ s.shared.log.filterMap Event.dropped? ∨ s.Old o ∧ c = call := by
    intro o c hoc
    rcases hdrops with hlog | ⟨ch, o', hentry, hw, hlog⟩
    · exact .inl (hlog ▸ hoc)
    · rw [hlog] at hoc
      rcases List.mem_cons.mp hoc with heq | hoc
      · obtain ⟨rfl, rfl⟩ := Prod.mk.inj heq
        exact .inr ⟨(h.drops hentry hw).1, rfl⟩
      · exact .inl hoc
  refine ⟨hfresh, hmove.belongs h.belongs, fun c hw => ?_, fun ch name o ho => ?_,
    fun c i p hp => ?_,
    fun c hc => ?_, fun o c hoc => ?_, fun c c' i p p' hp hp' hne => ?_, fun o c hoc hne ho => ?_⟩
  · by_cases hc : c = call
    · subst hc
      obtain ⟨pc', rfl, hpc'⟩ := (stop_self hstep hawaits).2 hw
      exact .inr ⟨id, pc', hstopping, hpc'⟩
    · rw [hdeploys]
      rcases h.waits c ((stop_others hstep hc).waiting hw) with hp | ⟨i, p, hp, _⟩
      · exact .inl hp
      · rw [hpc] at hp
        exact absurd (Prod.mk.inj (Option.some.inj hp)).1.symm hc
  · rw [hcalls, hdeploys]
    rcases hpending ch name o ho with rfl | ho
    · exact ⟨hlt, fun i p hp => by rw [hnone] at hp; cases hp⟩
    · exact h.entries ch name o ho
  · rw [hchecked, hnew c i p hp]
    exact h.stop call id pc hpc
  · rw [hchecked] at hc
    exact hmove.old (h.checked c hc)
  · rcases hcases o c hoc with hoc | ⟨ho, rfl⟩
    · exact (h.dropped o c hoc).imp hmove.old hmove.old
    · exact ⟨hmove.old ho, hmove.old hcall⟩
  · rw [hdeploys] at hp hp'
    exact h.exclusive.1 c c' i p p' hp hp' hne
  · rw [hchecked] at ho ⊢
    rcases hcases o c hoc with hoc | ⟨_, rfl⟩
    · exact h.exclusive.2 o c hoc hne ho
    · exact h.stop c id pc hpc

theorem exclusiveInv_step (h : s.ExclusiveInv) (hC : s.Excluding label)
    (hstep : s.step ports localAddr label = some s') : s'.ExclusiveInv := by
  obtain ⟨hmove, hfresh⟩ := step_move h.fresh hstep
  have hlater := hmove
  cases hmove with
  | deploy hmoves hpc hdeploy hshared hdeploys hstopping _ hcalls _ =>
      exact h.deploy hC hlater hfresh hmoves hpc hdeploy hshared hdeploys hstopping hcalls
  | stop _ _ hpc hstop hshared hdeploys hstopping _ hcalls _ _ =>
      rw [← hshared] at hstop
      exact h.stopStep hlater hfresh hpc hstop hdeploys hstopping hcalls
  | @start _ _ id _ hshared hdeploys hstopping _ hcalls _ _ =>
      have hkept : ∀ {c}, c < s.nextCall → s'.deploys c = s.deploys c := by
        intro c hc
        rw [hdeploys, Function.update_of_ne (Nat.ne_of_lt hc)]
      have hcheck : ∀ i p, s'.deploys s.nextCall = some (i, p) → p = .check := by
        intro i p hp
        rw [hdeploys, Function.update_self] at hp
        exact (Prod.mk.inj (Option.some.inj hp)).2.symm
      have hlt : ∀ c q, s'.deploys c = some q → c ≠ s.nextCall → c < s.nextCall := by
        intro c q hq hc
        rw [hdeploys, Function.update_of_ne hc] at hq
        exact h.fresh.lt hq
      refine ⟨hfresh, hlater.belongs h.belongs, fun c hw => ?_, fun ch name o ho => ?_,
        fun c i p hp => ?_, fun c hc => ?_, fun o c hoc => ?_, fun c c' i p p' hp hp' hne => ?_, ?_⟩
      · rw [hshared] at hw
        rw [hstopping]
        rcases h.waits c hw with ⟨i, p, hp, hawaits⟩ | hstop
        · exact .inl ⟨i, p, by rw [hkept (h.fresh.lt hp), hp], hawaits⟩
        · exact .inr hstop
      · rw [hshared] at ho
        obtain ⟨ho, hname⟩ := h.entries ch name o ho
        rw [hkept ho, hcalls]
        exact ⟨Nat.lt_succ_of_lt ho, hname⟩
      · rw [hshared]
        exact h.stop c i p (hstopping ▸ hp)
      · rw [hshared] at hc
        exact hlater.old (h.checked c hc)
      · rw [hshared] at hoc
        exact (h.dropped o c hoc).imp hlater.old hlater.old
      · by_cases hc : c = s.nextCall
        · exact .inl (hcheck i p (hc ▸ hp))
        · by_cases hc' : c' = s.nextCall
          · exact .inr (hcheck i p' (hc' ▸ hp'))
          · rw [hkept (hlt c _ hp hc)] at hp
            rw [hkept (hlt c' _ hp' hc')] at hp'
            exact h.exclusive.1 c c' i p p' hp hp' hne
      · rw [hshared]
        exact h.exclusive.2
  | @startStop _ _ id _ hshared hdeploys hnone hstopping _ hcalls _ _ =>
      refine ⟨hfresh, hlater.belongs h.belongs, fun c hw => ?_, fun ch name o ho => ?_,
        fun c i p hp => ?_, fun c hc => ?_, fun o c hoc => ?_, ?_⟩
      · rw [hshared] at hw
        rw [hdeploys]
        rcases h.waits c hw with hp | ⟨i, p, hp, _⟩
        · exact .inl hp
        · rw [hnone] at hp
          cases hp
      · rw [hshared] at ho
        rw [hdeploys, hcalls]
        exact (h.entries ch name o ho).imp_left Nat.lt_succ_of_lt
      · rw [hstopping] at hp
        obtain ⟨rfl, _⟩ := Prod.mk.inj (Option.some.inj hp)
        rw [hshared]
        exact fun hc => Nat.lt_irrefl _ (h.checked _ hc).1
      · rw [hshared] at hc
        exact hlater.old (h.checked c hc)
      · rw [hshared] at hoc
        exact (h.dropped o c hoc).imp hlater.old hlater.old
      · unfold Exclusive
        rw [hshared, hdeploys]
        exact h.exclusive
  | @request fault r _ _ hshared hdeploys hnone hstopping _ hcalls _ =>
      obtain ⟨db, pool, hframe⟩ := s.shared.request_frame fault r
      rw [hframe] at hshared
      exact h.of_same hfresh (by rw [hshared]) (by rw [hshared]) (by rw [hshared]) hdeploys
        (hstopping.trans hnone.symm) hcalls
  | handler hhandler hshared hdeploys hnone hstopping _ hcalls _ =>
      obtain ⟨db, pool, hframe⟩ := Shared.handlerStep_frame hhandler
      rw [hframe] at hshared
      exact h.of_same hfresh (by rw [hshared]) (by rw [hshared]) (by rw [hshared]) hdeploys
        (hstopping.trans hnone.symm) hcalls
  | @event fault update _ _ hshared hdeploys hstopping _ hcalls _ =>
      obtain ⟨clientNodes, hframe⟩ := s.shared.syncEvent_frame fault update
      rw [hframe] at hshared
      exact h.of_same hfresh (by rw [hshared]) (by rw [hshared]) (by rw [hshared]) hdeploys
        hstopping hcalls
  | sync hsync hshared hdeploys hstopping _ hcalls _ =>
      obtain ⟨_, _, _, _, _, hlog, hwaiters, hpending, _⟩ := hsync.frame
      rw [← hshared] at hlog hwaiters hpending
      exact h.of_same hfresh hwaiters hpending hlog hdeploys hstopping hcalls
  | surroundings _ hsurr hdeploys hstopping _ hcalls _ =>
      exact h.congr hfresh (fun c hw => (Shared.around_nudges hsurr c).waiting hw) hsurr.pending
        (Shared.around_log _ (fun _ _ => rfl) (fun _ _ => rfl) hsurr)
        (Shared.around_log _ (fun _ _ => rfl) (fun _ _ => rfl) hsurr) hdeploys hstopping hcalls
  | restart =>
      refine ⟨hfresh, hlater.belongs h.belongs, fun _ hw => (by cases hw),
        fun _ _ _ ho => (by cases ho),
        fun _ _ _ hp => (by cases hp), fun c hc => hlater.old (h.checked c hc),
        fun o c hoc => (h.dropped o c hoc).imp hlater.old hlater.old,
        fun _ _ _ _ _ hp => (by cases hp), h.exclusive.2⟩

/-- A check that passes is past its check at once. -/
theorem ExclusiveInv.excluding (h : s.ExclusiveInv) (hstep : s.step ports localAddr label = some s')
    (hP : s'.Exclusive) : s.Excluding label := by
  obtain ⟨hmove, _⟩ := step_move h.fresh hstep
  unfold Excluding
  split
  · rename_i call id hmoves
    intro hfault hdeployable c hlt hc q hq hid
    obtain ⟨t, next, hdeploy, hpc, -, -, hdeploys⟩ := hmove.deploy_step hmoves
    obtain ⟨i, p⟩ := q
    subst hid
    cases hdeploy with
    | skip hskip =>
        rw [hskip hfault] at hdeployable
        cases hdeployable
    | checked =>
        have hp : s'.deploys c = some (i, p) := by rw [hdeploys, Function.update_of_ne hc, hq]
        have hcall : s'.deploys call = some (i, .connection) := by
          rw [hdeploys, Function.update_self]
          rfl
        exact (hP.1 c call i p .connection hp hcall hc).resolve_right (by simp)
    | refused hrefuses => cases hrefuses
  · trivial

/-- The deploys of every connection exclude each other exactly in the runs in which
every status check that passes finds no other deploy past its check. -/
theorem exclusive_iff_excluding (ports : FreshPool) (localAddr : LocalAddr)
    (labels : List Label) :
    (kdcts ports localAddr).Always Exclusive (.boot .empty ports) labels ↔
      (kdcts ports localAddr).Meets Excluding (.boot .empty ports) labels :=
  Machine.always_iff_meets (fun _ _ _ hI hC hstep => exclusiveInv_step hI hC hstep)
    (fun _ hI => hI.exclusive) (fun _ _ _ hI hstep hP => hI.excluding hstep hP)
    (exclusiveInv_boot ports)

end Server

/-- The panel asks for an auto-check while the deploy of a new connection waits for
its container, and that deploy removes the second one's waiter on its way out. -/
def autoCheckDuringDeploy : List Label :=
  Label.oneConnection ++ List.replicate 10 (.attempt 0 false) ++ .request false .autoCheck ::
    List.replicate 12 (.api false) ++ List.replicate 2 (.attempt 0 false)

set_option maxRecDepth 4000 in
theorem autoCheckDuringDeploy_clash :
    ¬(kdcts samplePool fun _ => none).Always Server.Exclusive (.boot .empty samplePool)
      autoCheckDuringDeploy := by
  intro h
  obtain ⟨s, hs⟩ : ∃ s, (kdcts samplePool fun _ => none).run (.boot .empty samplePool)
      autoCheckDuringDeploy = some s := Option.isSome_iff_exists.mp (by decide)
  have hfacts : ((kdcts samplePool fun _ => none).run (.boot .empty samplePool)
      autoCheckDuringDeploy).map (fun s => (s.shared.log.filterMap Event.dropped?,
        s.shared.log.filterMap Event.checked?)) = some ([(1, 0), (0, 1)], [1, 0]) := by
    decide
  rw [hs] at hfacts
  obtain ⟨hdropped, hchecked⟩ := Prod.mk.inj (Option.some.inj hfacts)
  refine (h.last hs).2 0 1 ?_ (by decide) ?_ ?_
  · rw [hdropped]
    decide
  · rw [hchecked]
    decide
  · rw [hchecked]
    decide

end Kdct
