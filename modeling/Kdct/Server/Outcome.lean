/-
What a deploy comes to.

The client answers an `ImageStart` with one message, and the message reaches the
deploy through its waiter.  `Trail` collects what the log says about a call, and
`Truthful` says that it only acts on a container that has started and returns the
error it was answered.  The deploy takes any message for a started container, so
this holds exactly in the runs in which no deploy goes on with an error.
-/
import Kdct.Server.Deployed

namespace Kdct

/-! ## The trail of a call -/

def Reply.isOk : Reply → Bool
  | .error _ => false
  | _ => true

/-- What has happened to a call. -/
structure Trail where
  replies : List Reply := []
  sent : Bool := false
  /-- It has put something into the tracker, the routes, the forwards or its row. -/
  acted : Bool := false
  returned : List (Except DeployError String) := []
  deriving DecidableEq

def Event.into (e : Event) (call : CallId) (T : Trail) : Trail :=
  match e with
  | .answered c reply => if c = call then { T with replies := reply :: T.replies } else T
  | .sent d => if d.call = call then { T with sent := true } else T
  | .recorded d | .routed d _ _ | .forwarded d _ | .deployed d =>
      if d.call = call then { T with acted := true } else T
  | .returned c _ result => if c = call then { T with returned := result :: T.returned } else T
  | _ => T

def Shared.trail (s : Shared) (call : CallId) : Trail :=
  s.log.foldr (fun e T => e.into call T) {}

/-- A call acts and returns a success only after a success, and one that was
answered an error after it had sent its command has done nothing and returns that
error. -/
def Trail.Truthful (T : Trail) : Prop :=
  ((T.acted = true ∨ ∃ text, .ok text ∈ T.returned) → ∃ reply ∈ T.replies, reply.isOk = true) ∧
    (T.sent = true → ∀ text, .error text ∈ T.replies →
      T.acted = false ∧ ∀ r ∈ T.returned, ∃ e, r = .error e ∧ e.text = text)

/-- A deploy has gone on after its wait. -/
def DeployPc.pastWait : DeployPc → Bool
  | .record _ | .lock _ | .register .. | .push .. | .finish _ => true
  | _ => false

namespace Server

/-- No failed start is taken for a deployment. -/
def StartsTruthful (s : Server) : Prop :=
  (∀ call, (s.shared.trail call).Truthful) ∧
    ∀ call id pc, s.deploys call = some (id, pc) → pc.pastWait = true →
      ∃ reply ∈ (s.shared.trail call).replies, reply.isOk = true

/-- A deploy does not go on with an error. -/
def Heeding (s : Server) (label : Label) : Prop :=
  match s.movesDeploy label with
  | some (call, _, .wait _) =>
      match s.shared.waiters call with
      | some (.filled reply) => reply.isOk = true
      | _ => True
  | _ => True

instance (s : Server) (label : Label) : Decidable (s.Heeding label) := by
  unfold Heeding
  rcases s.movesDeploy label with _ | ⟨call, id, pc⟩
  · exact .isTrue trivial
  · rcases pc with _ | _
    case wait d =>
      dsimp only
      rcases s.shared.waiters call with _ | _ | _ | _ <;> dsimp only <;> infer_instance
    all_goals exact .isTrue trivial

end Server

/-! ## What other tasks do to a call -/

/-- A waiter is closed or filled, once. -/
inductive Nudge (w : Option Waiter) (T : Trail) : Option Waiter → Trail → Prop
  | same : Nudge w T w T
  | closed (h : w = some .waiting) : Nudge w T (some .closed) T
  | filled (h : w = some .waiting) (reply : Reply) :
      Nudge w T (some (.filled reply)) { T with replies := reply :: T.replies }

theorem Nudge.trans {w w' w'' : Option Waiter} {T T' T'' : Trail} (h : Nudge w T w' T')
    (h' : Nudge w' T' w'' T'') : Nudge w T w'' T'' := by
  cases h with
  | same => exact h'
  | closed h =>
      cases h' with
      | same => exact .closed h
      | closed hw | filled hw => cases hw
  | filled h reply =>
      cases h' with
      | same => exact .filled h reply
      | closed hw | filled hw => cases hw

namespace Shared

variable {s t : Shared}

/-- Every call but `call` is nudged at most. -/
def Nudges (s t : Shared) : Prop :=
  ∀ c, Nudge (s.waiters c) (s.trail c) (t.waiters c) (t.trail c)

theorem nudges_dropSender {call : CallId} {e : Event} (he : ∀ c T, e.into c T = T) :
    s.Nudges (s.dropSender call e) := by
  intro c
  unfold dropSender
  split
  · rename_i hw
    have htrail : Shared.trail ({ s with
        waiters := Function.update s.waiters call (some .closed) }.note e) c = s.trail c := he c _
    rw [htrail]
    show Nudge _ _ (Function.update s.waiters call (some .closed) c) _
    by_cases hc : c = call
    · subst hc
      rw [Function.update_self]
      exact .closed hw
    · rw [Function.update_of_ne hc]
      exact .same
  · exact .same

theorem insertWaiter_nudge (ch : ChannelId) (name : String) {call c : CallId} (hc : c ≠ call) :
    Nudge (s.waiters c) (s.trail c) ((s.insertWaiter ch name call).waiters c)
      ((s.insertWaiter ch name call).trail c) := by
  unfold insertWaiter
  dsimp only
  rw [Function.update_of_ne hc]
  split
  · exact nudges_dropSender (fun _ _ => rfl) c
  · exact .same

theorem insertWaiter_self (ch : ChannelId) (name : String) (call : CallId) :
    (s.insertWaiter ch name call).waiters call = some .waiting ∧
      (s.insertWaiter ch name call).trail call = s.trail call := by
  refine ⟨Function.update_self _ _ _, ?_⟩
  unfold insertWaiter
  split
  · rename_i other _
    show Shared.trail (s.dropSender other (.displaced other call)) call = _
    unfold dropSender
    split <;> rfl
  · rfl

theorem removeWaiter_nudges (ch : ChannelId) (name : String) (call : CallId) :
    s.Nudges (s.removeWaiter ch name call) := by
  intro c
  unfold removeWaiter
  split
  · exact nudges_dropSender (fun _ _ => rfl) c
  · exact .same

theorem answer_nudges (ch : ChannelId) (name : String) (reply : Reply) :
    s.Nudges (s.answer ch name reply) := by
  intro c
  unfold answer
  split
  · rename_i call _
    dsimp only
    split
    · rename_i hw
      by_cases hc : c = call
      · subst hc
        have htrail : Shared.trail (note { s with
            pending := Function.update s.pending ch ((s.pending ch).erase name)
            waiters := Function.update s.waiters c (some (.filled reply)) } (.answered c reply)) c =
              { s.trail c with replies := reply :: (s.trail c).replies } := if_pos rfl
        rw [htrail]
        show Nudge _ _ (Function.update s.waiters c (some (.filled reply)) c) _
        rw [Function.update_self]
        exact .filled hw reply
      · have htrail : Shared.trail (note { s with
            pending := Function.update s.pending ch ((s.pending ch).erase name)
            waiters := Function.update s.waiters call (some (.filled reply)) }
              (.answered call reply)) c = s.trail c := if_neg (Ne.symm hc)
        rw [htrail]
        show Nudge _ _ (Function.update s.waiters call (some (.filled reply)) c) _
        rw [Function.update_of_ne hc]
        exact .same
    · exact .same
  · exact .same

theorem message_nudges (ch : ChannelId) (cmd : ControlChannelCmd) :
    s.Nudges (s.message ch cmd) := by
  cases cmd with
  | reportNodeStatus status =>
      simp only [message]
      generalize status.runningContainers = cs
      induction cs generalizing s with
      | nil => exact fun _ => .same
      | cons c cs ih =>
          intro call
          rw [List.foldl_cons]
          exact (answer_nudges ch c.containerName (.running c.ports) call).trans (ih call)
  | containerStarted name ports => exact answer_nudges ch name _
  | containerStopped name => exact answer_nudges ch name _
  | containerError name text => exact answer_nudges ch name _
  | _ => exact fun _ => .same

theorem around_nudges {localAddr : LocalAddr} (h : s.Around localAddr t) : s.Nudges t := by
  cases h with
  | message ch cmd => exact message_nudges ch cmd
  | _ => exact fun _ => .same

end Shared

/-! ## Where a deploy is and what has happened to it -/

/-- A call that has a waiter and does not know its result. -/
def Trail.Awaiting (T : Trail) (w : Option Waiter) : Prop :=
  (w = some .waiting ∨ w = some .closed) ∧ T.replies = [] ∨
    ∃ reply, w = some (.filled reply) ∧ T.replies = [reply]

def DeployPc.Story (w : Option Waiter) (T : Trail) : DeployPc → Prop
  | .send .. => T.Awaiting w ∧ T.sent = false ∧ T.acted = false ∧ T.returned = []
  | .wait _ => T.Awaiting w ∧ T.acted = false ∧ T.returned = []
  | .giveUp .. => w ≠ some .waiting ∧ T.replies = [] ∧ T.acted = false ∧ T.returned = []
  | .record _ | .lock _ | .register .. | .push .. | .finish _ =>
      w ≠ some .waiting ∧ (∃ reply, reply.isOk = true ∧ T.replies = [reply]) ∧ T.returned = []
  | _ => w = none ∧ T = {}

theorem Trail.truthful_new : ({} : Trail).Truthful :=
  ⟨by simp, by simp⟩

namespace Trail

variable {T : Trail}

theorem truthful_of_ok {reply : Reply} (hok : reply.isOk = true) (hreplies : T.replies = [reply]) :
    T.Truthful := by
  refine ⟨fun _ => ⟨reply, by simp [hreplies], hok⟩, fun _ text htext => ?_⟩
  rw [hreplies, List.mem_singleton] at htext
  rw [← htext] at hok
  cases hok

theorem truthful_of_no_replies (hreplies : T.replies = []) (hacted : T.acted = false)
    (hreturned : ∀ text, .ok text ∉ T.returned) : T.Truthful := by
  refine ⟨?_, fun _ text htext => ?_⟩
  · rintro (h | ⟨text, h⟩)
    · rw [hacted] at h
      cases h
    · exact absurd h (hreturned text)
  · rw [hreplies] at htext
    cases htext

/-- Nothing was sent, so nothing was answered. -/
theorem truthful_of_unsent (hsent : T.sent = false) (hacted : T.acted = false)
    (hreturned : ∀ text, .ok text ∉ T.returned) : T.Truthful := by
  refine ⟨?_, fun h => ?_⟩
  · rintro (h | ⟨text, h⟩)
    · rw [hacted] at h
      cases h
    · exact absurd h (hreturned text)
  · rw [hsent] at h
    cases h

/-- An answer to a call that has done nothing and has not returned. -/
theorem truthful_of_silent (hacted : T.acted = false) (hreturned : T.returned = []) :
    T.Truthful := by
  refine ⟨?_, fun _ _ _ => ⟨hacted, by simp [hreturned]⟩⟩
  rintro (h | ⟨text, h⟩)
  · rw [hacted] at h
    cases h
  · rw [hreturned] at h
    cases h

end Trail

theorem DeployPc.Story.truthful {w : Option Waiter} {T : Trail} {pc : DeployPc}
    (h : pc.Story w T) : T.Truthful := by
  cases pc
  case send => exact Trail.truthful_of_silent h.2.2.1 h.2.2.2
  case wait => exact Trail.truthful_of_silent h.2.1 h.2.2
  case giveUp => exact Trail.truthful_of_silent h.2.2.1 h.2.2.2
  case record | lock | register | push | finish =>
    obtain ⟨_, ⟨reply, hok, hreplies⟩, _⟩ := h
    exact Trail.truthful_of_ok hok hreplies
  all_goals
    rw [h.2]
    exact Trail.truthful_new

theorem DeployPc.Story.pastWait {w : Option Waiter} {T : Trail} {pc : DeployPc}
    (h : pc.Story w T) (hpast : pc.pastWait = true) :
    w ≠ some .waiting ∧ (∃ reply, reply.isOk = true ∧ T.replies = [reply]) ∧ T.returned = [] := by
  cases pc <;> first | exact h | cases hpast

/-- What other tasks do to a call keeps its story. -/
theorem DeployPc.Story.nudge {w w' : Option Waiter} {T T' : Trail} {pc : DeployPc}
    (h : pc.Story w T) (hn : Nudge w T w' T') : pc.Story w' T' := by
  have hawait : ∀ {T : Trail}, w = some .waiting → T.Awaiting w → T.replies = [] := by
    rintro T hw (⟨_, hnone⟩ | ⟨reply, hfilled, _⟩)
    · exact hnone
    · rw [hw] at hfilled
      cases hfilled
  cases hn with
  | same => exact h
  | closed hw =>
      cases pc
      case send => exact ⟨.inl ⟨.inr rfl, hawait hw h.1⟩, h.2⟩
      case wait => exact ⟨.inl ⟨.inr rfl, hawait hw h.1⟩, h.2⟩
      case giveUp | record | lock | register | push | finish => exact absurd hw h.1
      all_goals
        rw [h.1] at hw
        cases hw
  | filled hw reply =>
      cases pc
      case send => exact ⟨.inr ⟨reply, rfl, by rw [hawait hw h.1]⟩, h.2⟩
      case wait => exact ⟨.inr ⟨reply, rfl, by rw [hawait hw h.1]⟩, h.2⟩
      case giveUp | record | lock | register | push | finish => exact absurd hw h.1
      all_goals
        rw [h.1] at hw
        cases hw

namespace Shared

variable {s t : Shared}

theorem trail_note {e : Event} {call : CallId} :
    (s.note e).trail call = e.into call (s.trail call) := rfl

theorem spawnLoops_trail (d : Deploy) (p : BridgePort) (clientPort : Port) (call : CallId) :
    (s.spawnLoops d p clientPort).trail call = s.trail call := by
  rw [trail, spawnLoops_log]
  rfl

theorem spawnLoops_waiters (d : Deploy) (p : BridgePort) (clientPort : Port) :
    (s.spawnLoops d p clientPort).waiters = s.waiters := by
  obtain ⟨_, _, h⟩ := s.spawnLoops_frame d p clientPort
  rw [h]

/-- A deploy's own step continues its story. -/
theorem DeployStep.story {call : CallId} {id : RowId} {fault : Bool} {pc next : DeployPc}
    (h : DeployStep s call id fault pc t (.goto next)) (hpc : pc.Belongs call id)
    (hstory : pc.Story (s.waiters call) (s.trail call))
    (hheed : ∀ d reply, pc = .wait d → s.waiters call = some (.filled reply) → reply.isOk = true) :
    next.Story (t.waiters call) (t.trail call) := by
  cases h
  case insert d env =>
    obtain ⟨hw, htrail⟩ := s.insertWaiter_self d.channel d.plan.containerName call
    rw [hw, htrail, hstory.2]
    exact ⟨.inl ⟨.inl rfl, rfl⟩, rfl, rfl, rfl⟩
  case sent d env =>
    rw [trail_note, Event.into, if_pos hpc.1]
    exact ⟨hstory.1, hstory.2.2⟩
  case answered d reply hreply =>
    obtain ⟨hawait, hacted, hreturned⟩ := hstory
    refine ⟨by rw [hreply]; simp, ?_, hreturned⟩
    rcases hawait with ⟨hw, _⟩ | ⟨reply', hw, hreplies⟩
    · rw [hreply] at hw
      rcases hw with hw | hw <;> cases hw
    · obtain rfl : reply = reply' := by simpa [hreply] using hw
      exact ⟨reply, hheed d reply rfl hreply, hreplies⟩
  case dropped d hclosed =>
    obtain ⟨hawait, hacted, hreturned⟩ := hstory
    refine ⟨by rw [hclosed]; simp, ?_, hacted, hreturned⟩
    rcases hawait with ⟨_, hreplies⟩ | ⟨reply, hw, _⟩
    · exact hreplies
    · rw [hclosed] at hw
      cases hw
  case timedOut d hwaiting =>
    obtain ⟨hawait, hacted, hreturned⟩ := hstory
    refine ⟨?_, ?_, hacted, hreturned⟩
    · show Function.update s.waiters call none call ≠ _
      rw [Function.update_self]
      simp
    · rcases hawait with ⟨_, hreplies⟩ | ⟨reply, hw, _⟩
      · exact hreplies
      · rw [hw] at hwaiting
        rcases hwaiting with hwaiting | hwaiting <;> cases hwaiting
  case recorded d _ =>
    rw [trail_note, Event.into, if_pos hpc.1]
    exact hstory
  case routed d p clientPort rest path routes _ _ =>
    rw [spawnLoops_waiters, spawnLoops_trail, trail_note, Event.into, if_pos hpc.1]
    exact hstory
  case unrouted d p clientPort rest _ =>
    rw [spawnLoops_waiters, spawnLoops_trail]
    exact hstory
  case pushed d p clientPort rest _ =>
    rw [trail_note, Event.into, if_pos hpc.1]
    exact hstory
  all_goals exact hstory

/-- A deploy that ends has been truthful and waits for nothing. -/
theorem DeployStep.ends {call : CallId} {id : RowId} {fault : Bool} {pc : DeployPc}
    {next : DeployNext} (h : DeployStep s call id fault pc t next) (hnext : next.pc? = none)
    (hpc : pc.Belongs call id) (hstory : pc.Story (s.waiters call) (s.trail call)) :
    ((t.endCall call id next).trail call).Truthful ∧
      (t.endCall call id next).waiters call ≠ some .waiting := by
  have hreturn : ∀ (u : Shared) (r : Except DeployError String),
      (u.endCall call id (.exit r)).trail call =
        { u.trail call with returned := r :: (u.trail call).returned } := fun u r => if_pos rfl
  cases h
  case skip =>
    rw [show s.endCall call id .skip = s from rfl, hstory.2, hstory.1]
    exact ⟨Trail.truthful_new, by simp⟩
  case refused e hrefuses =>
    rw [hreturn]
    cases pc
    case finish d =>
      obtain ⟨hw, ⟨reply, hok, hreplies⟩, _⟩ := hstory
      exact ⟨Trail.truthful_of_ok hok hreplies, hw⟩
    case connection | node | image | ports | conflicts | registry =>
      constructor
      · rw [hstory.2]
        exact Trail.truthful_of_unsent rfl rfl (by simp)
      · rw [show (s.endCall call id (.exit (.error e))).waiters = s.waiters from rfl, hstory.1]
        simp
    all_goals cases hrefuses
  case sendFailed d env _ =>
    rw [hreturn]
    refine ⟨Trail.truthful_of_unsent hstory.2.1 hstory.2.2.1 ?_, ?_⟩
    · intro text htext
      rw [show trail { s with waiters := Function.update s.waiters call none } call = s.trail call
        from rfl, hstory.2.2.2] at htext
      simp at htext
    · show Function.update s.waiters call none call ≠ _
      rw [Function.update_self]
      simp
  case gaveUp d e =>
    rw [hreturn]
    have hn := s.removeWaiter_nudges d.channel d.plan.containerName call call
    have hlater := DeployPc.Story.nudge hstory hn
    obtain ⟨hw, hreplies, hacted, hreturned⟩ := hlater
    refine ⟨Trail.truthful_of_no_replies hreplies hacted ?_, hw⟩
    simp [hreturned]
  case routeRejected d p clientPort rest path e _ _ =>
    rw [hreturn]
    obtain ⟨hw, ⟨reply, hok, hreplies⟩, _⟩ := hstory
    exact ⟨Trail.truthful_of_ok hok hreplies, hw⟩
  case finished d db text _ _ =>
    rw [hreturn]
    obtain ⟨hw, ⟨reply, hok, hreplies⟩, _⟩ := hstory
    refine ⟨Trail.truthful_of_ok hok ?_, hw⟩
    rw [trail_note, Event.into, if_pos hpc.1]
    exact hreplies
  all_goals cases hnext

/-- A deploy's step only nudges the other calls. -/
theorem DeployStep.others {call c : CallId} {id : RowId} {fault : Bool} {pc : DeployPc}
    {next : DeployNext} (h : DeployStep s call id fault pc t next) (hpc : pc.Belongs call id)
    (hc : c ≠ call) :
    Nudge (s.waiters c) (s.trail c) ((t.endCall call id next).waiters c)
      ((t.endCall call id next).trail c) := by
  have hend : ∀ (u : Shared), (u.endCall call id next).waiters c = u.waiters c ∧
      (u.endCall call id next).trail c = u.trail c := by
    intro u
    cases next with
    | exit r => exact ⟨rfl, if_neg (Ne.symm hc)⟩
    | _ => exact ⟨rfl, rfl⟩
  rw [(hend t).1, (hend t).2]
  have hother : ∀ {d : Deploy}, d.call = call → ¬d.call = c := by
    rintro d rfl
    exact Ne.symm hc
  cases h
  case insert d env => exact insertWaiter_nudge d.channel d.plan.containerName hc
  case gaveUp d e => exact s.removeWaiter_nudges d.channel d.plan.containerName call c
  case sendFailed d env _ =>
    show Nudge _ _ (Function.update s.waiters call none c) _
    rw [Function.update_of_ne hc]
    exact .same
  case timedOut d _ =>
    show Nudge _ _ (Function.update s.waiters call none c) _
    rw [Function.update_of_ne hc]
    exact .same
  case sent d env =>
    rw [trail_note, Event.into, if_neg (hother hpc.1)]
    exact .same
  case recorded d _ =>
    rw [trail_note, Event.into, if_neg (hother hpc.1)]
    exact .same
  case routed d p clientPort rest path routes _ _ =>
    rw [spawnLoops_waiters, spawnLoops_trail, trail_note, Event.into,
      if_neg (hother hpc.1)]
    exact .same
  case unrouted d p clientPort rest _ =>
    rw [spawnLoops_waiters, spawnLoops_trail]
    exact .same
  case pushed d p clientPort rest _ =>
    rw [trail_note, Event.into, if_neg (hother hpc.1)]
    exact .same
  case finished d db text _ _ =>
    rw [trail_note, Event.into, if_neg (hother hpc.1)]
    exact .same
  all_goals exact .same

end Shared

/-! ## Every call of a server -/

/-- Where a stop may have a waiter without a result. -/
def StopPc.awaits : StopPc → Bool
  | .send .. | .wait .. => true
  | _ => false

namespace Server

variable {ports : FreshPool} {localAddr : LocalAddr} {s s' : Server} {label : Label}

/-- What a waiter and a trail tell about a call, wherever it is. -/
structure Tells (s : Server) (c : CallId) (w : Option Waiter) (T : Trail) : Prop where
  new : s.nextCall ≤ c → w = none ∧ T = {}
  deploy : ∀ id pc, s.deploys c = some (id, pc) → pc.Story w T
  ended : s.deploys c = none → T.Truthful ∧
    (w = some .waiting → ∃ id pc, s.stopping = some (c, id, pc))
  stop : ∀ id pc, s.stopping = some (c, id, pc) →
    T.sent = false ∧ T.acted = false ∧ T.returned = [] ∧ (w = some .waiting → pc.awaits = true)

theorem Tells.nudge {c : CallId} {w w' : Option Waiter} {T T' : Trail} (h : s.Tells c w T)
    (hn : Nudge w T w' T') : s.Tells c w' T' := by
  cases hn with
  | same => exact h
  | closed hw =>
      refine ⟨fun hc => ?_, fun id pc hpc => (h.deploy id pc hpc).nudge (.closed hw),
        fun hnone => ⟨(h.ended hnone).1, by simp⟩, fun id pc hpc => ?_⟩
      · rw [(h.new hc).1] at hw
        cases hw
      · obtain ⟨hsent, hacted, hreturned, _⟩ := h.stop id pc hpc
        exact ⟨hsent, hacted, hreturned, by simp⟩
  | filled hw reply =>
      refine ⟨fun hc => ?_, fun id pc hpc => (h.deploy id pc hpc).nudge (.filled hw reply),
        fun hnone => ⟨?_, by simp⟩, fun id pc hpc => ?_⟩
      · rw [(h.new hc).1] at hw
        cases hw
      · obtain ⟨id, pc, hpc⟩ := (h.ended hnone).2 hw
        obtain ⟨hsent, hacted, hreturned, _⟩ := h.stop id pc hpc
        exact Trail.truthful_of_unsent hsent hacted (by simp [hreturned])
      · obtain ⟨hsent, hacted, hreturned, _⟩ := h.stop id pc hpc
        exact ⟨hsent, hacted, hreturned, by simp⟩

/-- A step that leaves the call where it is. -/
theorem Tells.congr {c : CallId} {w : Option Waiter} {T : Trail} (h : s.Tells c w T)
    (hcalls : s.nextCall ≤ s'.nextCall) (hdeploys : s'.deploys c = s.deploys c)
    (hstopping : ∀ id pc, s'.stopping = some (c, id, pc) ↔ s.stopping = some (c, id, pc)) :
    s'.Tells c w T := by
  refine ⟨fun hc => h.new (hcalls.trans hc), fun id pc hpc => h.deploy id pc (hdeploys ▸ hpc),
    fun hnone => ?_, fun id pc hpc => h.stop id pc ((hstopping id pc).mp hpc)⟩
  obtain ⟨htruth, hwaits⟩ := h.ended (hdeploys ▸ hnone)
  exact ⟨htruth, fun hw => (hwaits hw).imp fun id ⟨pc, hpc⟩ => ⟨pc, (hstopping id pc).mpr hpc⟩⟩

structure CallInv (s : Server) : Prop where
  fresh : s.Fresh
  belongs : s.Belongs
  tells : ∀ c, s.Tells c (s.shared.waiters c) (s.shared.trail c)

theorem callInv_boot (ports : FreshPool) : (boot .empty ports).CallInv := by
  refine ⟨fresh_boot _ ports,
    fun _ _ _ h => (by cases h), fun c => ⟨fun _ => ⟨rfl, rfl⟩, fun _ _ h => (by cases h),
      fun _ => ⟨Trail.truthful_new, fun h => (by cases h)⟩, fun _ _ h => (by cases h)⟩⟩

/-- The stop's own step adds nothing to its trail, and it only waits for a result
where it awaits one. -/
theorem stop_self {call : CallId} {id : RowId} {fault : Bool} {pc : StopPc} {next : StopNext}
    {u t : Shared} (hstep : u.StopStep call id fault pc t next)
    (hawaits : u.waiters call = some .waiting → pc.awaits = true) :
    t.trail call = u.trail call ∧
      (t.waiters call = some .waiting → ∃ pc', next = some pc' ∧ pc'.awaits = true) := by
  cases hstep
  case insert info nodeUuid ch =>
    obtain ⟨_, htrail⟩ := u.insertWaiter_self ch info.containerName call
    exact ⟨htrail, fun _ => ⟨_, rfl, rfl⟩⟩
  case timedOut info nodeUuid =>
    refine ⟨rfl, fun hw => ?_⟩
    have hnone : Function.update u.waiters call none call = none := Function.update_self ..
    cases hnone.symm.trans hw
  case answered info nodeUuid hreply => exact ⟨rfl, fun hw => absurd hw hreply⟩
  case sent => exact ⟨rfl, fun _ => ⟨_, rfl, rfl⟩⟩
  all_goals exact ⟨rfl, fun hw => by cases hawaits hw⟩

/-- The stop's step only nudges the other calls. -/
theorem stop_others {call c : CallId} {id : RowId} {fault : Bool} {pc : StopPc} {next : StopNext}
    {u t : Shared} (hstep : u.StopStep call id fault pc t next) (hc : c ≠ call) :
    Nudge (u.waiters c) (u.trail c) (t.waiters c) (t.trail c) := by
  cases hstep
  case insert info nodeUuid ch => exact Shared.insertWaiter_nudge ch info.containerName hc
  case timedOut info nodeUuid =>
    show Nudge _ _ (Function.update u.waiters call none c) _
    rw [Function.update_of_ne hc]
    exact .same
  all_goals exact .same

theorem callInv_step (h : s.CallInv) (hC : s.Heeding label)
    (hstep : s.step ports localAddr label = some s') : s'.CallInv := by
  obtain ⟨hmove, hfresh⟩ := step_move h.fresh hstep
  refine ⟨hfresh, hmove.belongs h.belongs, fun c => ?_⟩
  have hold := h.tells c
  have hsame : s'.shared.waiters = s.shared.waiters → s'.shared.log = s.shared.log →
      s'.deploys = s.deploys → s'.stopping = s.stopping → s.nextCall ≤ s'.nextCall →
      s'.Tells c (s'.shared.waiters c) (s'.shared.trail c) := by
    intro hwaiters hlog hdeploys hstopping hcalls
    rw [hwaiters, show s'.shared.trail c = s.shared.trail c by rw [Shared.trail, hlog]; rfl]
    exact hold.congr hcalls (by rw [hdeploys]) (by rw [hstopping]; simp)
  cases hmove with
  | @deploy _ _ call id pc t next hmoves hpc hdeploy hshared hdeploys hstopping _ hcalls _ =>
      have hbelongs := h.belongs call id pc hpc
      rw [hshared]
      by_cases hc : c = call
      · subst hc
        have hstory := hold.deploy id pc hpc
        have hlt : ¬s.nextCall ≤ c := Nat.not_le.mpr (h.fresh.lt hpc)
        have hnostop : ∀ i p, s'.stopping ≠ some (c, i, p) := by
          intro i p hstop
          rw [hstopping] at hstop
          rw [(h.fresh.stop_lt hstop).2] at hpc
          cases hpc
        refine ⟨fun hle => absurd (hcalls ▸ hle) hlt, fun i p hp => ?_, fun hnone => ?_,
          fun i p hstop => absurd hstop (hnostop i p)⟩
        · rw [hdeploys] at hp
          obtain ⟨rfl, rfl⟩ := goto_of_update_self hp
          refine hdeploy.story hbelongs hstory fun d reply hwait hfilled => ?_
          unfold Heeding at hC
          rw [hmoves, hwait] at hC
          simpa only [hfilled] using hC
        · rw [hdeploys, Function.update_self, Option.map_eq_none_iff] at hnone
          obtain ⟨htruth, hwaits⟩ := hdeploy.ends hnone hbelongs hstory
          exact ⟨htruth, fun hw => absurd hw hwaits⟩
      · refine Tells.congr (hold.nudge (hdeploy.others hbelongs hc))
          (Nat.le_of_eq hcalls.symm) ?_ ?_
        · rw [hdeploys, Function.update_of_ne hc]
        · rw [hstopping]
          exact fun _ _ => Iff.rfl
  | @stop _ _ call id pc after t next _ _ hpc hstop hshared hdeploys hstopping _ hcalls _ _ =>
      rw [hshared]
      by_cases hc : c = call
      · subst hc
        obtain ⟨hsent, hacted, hreturned, hwaits⟩ := hold.stop id pc hpc
        obtain ⟨htrail, hawaits⟩ := stop_self hstop hwaits
        obtain ⟨hlt, hnone⟩ := h.fresh.stop_lt hpc
        rw [htrail]
        refine ⟨fun hle => absurd (hcalls ▸ hle) (Nat.not_le.mpr hlt), fun i p hp => ?_,
          fun _ => ⟨(hold.ended hnone).1, fun hw => ?_⟩,
          fun i p hp => ⟨hsent, hacted, hreturned, fun hw => ?_⟩⟩
        · rw [hdeploys, hnone] at hp
          cases hp
        · obtain ⟨pc', rfl, _⟩ := hawaits hw
          exact ⟨id, pc', hstopping⟩
        · obtain ⟨pc', rfl, hpc'⟩ := hawaits hw
          rw [hstopping] at hp
          obtain ⟨_, rfl, rfl⟩ : c = c ∧ id = i ∧ pc' = p := by simpa using hp
          exact hpc'
      · refine Tells.congr (hold.nudge (stop_others hstop hc)) (Nat.le_of_eq hcalls.symm)
          (by rw [hdeploys]) fun i p => ?_
        rw [hstopping, hpc]
        constructor
        · intro hp
          obtain ⟨_, _, heq⟩ := Option.map_eq_some_iff.mp hp
          exact absurd (Prod.mk.inj heq).1.symm hc
        · intro hp
          exact absurd (Prod.mk.inj (Option.some.inj hp)).1.symm hc
  | @start _ _ id _ hshared hdeploys hstopping _ hcalls _ _ =>
      rw [hshared]
      have hlt : s.nextCall ≤ s'.nextCall := by
        rw [hcalls]
        exact Nat.le_succ _
      by_cases hc : c = s.nextCall
      · obtain ⟨hw, htrail⟩ := hold.new (Nat.le_of_eq hc.symm)
        refine ⟨fun _ => ⟨hw, htrail⟩, fun i p hp => ?_, fun hnone => ?_, fun i p hp => ?_⟩
        · rw [hdeploys, hc, Function.update_self] at hp
          obtain ⟨rfl, rfl⟩ := Prod.mk.inj (Option.some.inj hp)
          exact ⟨hw, htrail⟩
        · rw [hdeploys, hc, Function.update_self] at hnone
          cases hnone
        · rw [hstopping] at hp
          exact absurd (h.fresh.stop_lt hp).1 (hc ▸ Nat.lt_irrefl _)
      · exact hold.congr hlt (by rw [hdeploys, Function.update_of_ne hc]) (by rw [hstopping]; simp)
  | @startStop _ _ id _ hshared hdeploys hnone hstopping _ hcalls _ _ =>
      rw [hshared]
      have hlt : s.nextCall ≤ s'.nextCall := by
        rw [hcalls]
        exact Nat.le_succ _
      by_cases hc : c = s.nextCall
      · obtain ⟨hw, htrail⟩ := hold.new (Nat.le_of_eq hc.symm)
        have hdep : s.deploys c = none := h.fresh.deploys (Nat.le_of_eq hc.symm)
        rw [hw, htrail]
        refine ⟨fun _ => ⟨rfl, rfl⟩, fun i p hp => ?_, fun _ => ⟨Trail.truthful_new, by simp⟩,
          fun i p hp => ⟨rfl, rfl, rfl, by simp⟩⟩
        rw [hdeploys, hdep] at hp
        cases hp
      · refine hold.congr hlt (by rw [hdeploys]) fun i p => ?_
        rw [hstopping, hnone]
        constructor
        · intro hp
          exact absurd (Prod.mk.inj (Option.some.inj hp)).1.symm hc
        · exact fun hp => by cases hp
  | @request fault r _ _ hshared hdeploys hnone hstopping _ hcalls _ =>
      obtain ⟨db, pool, hframe⟩ := s.shared.request_frame fault r
      rw [hframe] at hshared
      exact hsame (by rw [hshared]) (by rw [hshared]) hdeploys (by rw [hstopping, hnone])
        (Nat.le_of_eq hcalls.symm)
  | handler hhandler hshared hdeploys hnone hstopping _ hcalls _ =>
      obtain ⟨db, pool, hframe⟩ := Shared.handlerStep_frame hhandler
      rw [hframe] at hshared
      exact hsame (by rw [hshared]) (by rw [hshared]) hdeploys (by rw [hstopping, hnone])
        (Nat.le_of_eq hcalls.symm)
  | @event fault update _ _ hshared hdeploys hstopping _ hcalls _ =>
      obtain ⟨clientNodes, hframe⟩ := s.shared.syncEvent_frame fault update
      rw [hframe] at hshared
      exact hsame (by rw [hshared]) (by rw [hshared]) hdeploys hstopping (Nat.le_of_eq hcalls.symm)
  | sync hsync hshared hdeploys hstopping _ hcalls _ =>
      obtain ⟨_, _, _, _, _, hlog, hwaiters, _⟩ := hsync.frame
      rw [← hshared] at hlog hwaiters
      exact hsame hwaiters hlog hdeploys hstopping (Nat.le_of_eq hcalls.symm)
  | surroundings _ hsurr hdeploys hstopping _ hcalls _ =>
      exact Tells.congr (hold.nudge (Shared.around_nudges hsurr c)) (Nat.le_of_eq hcalls.symm)
        (by rw [hdeploys]) (by rw [hstopping]; simp)
  | restart =>
      have htruth : (s.shared.trail c).Truthful := by
        cases hdep : s.deploys c with
        | none => exact (hold.ended hdep).1
        | some q => exact (hold.deploy q.1 q.2 hdep).truthful
      exact ⟨fun hle => ⟨rfl, (hold.new hle).2⟩, fun _ _ hp => (by cases hp),
        fun _ => ⟨htruth, fun hw => (by cases hw)⟩, fun _ _ hp => (by cases hp)⟩

theorem CallInv.startsTruthful (h : s.CallInv) : s.StartsTruthful := by
  refine ⟨fun c => ?_, fun c id pc hpc hpast => ?_⟩
  · cases hdep : s.deploys c with
    | none => exact ((h.tells c).ended hdep).1
    | some q => exact ((h.tells c).deploy q.1 q.2 hdep).truthful
  · obtain ⟨_, ⟨reply, hok, hreplies⟩, _⟩ := ((h.tells c).deploy id pc hpc).pastWait hpast
    exact ⟨reply, by simp [hreplies], hok⟩

/-- A deploy that goes on with an error is past its wait at once, with no other reply. -/
theorem Move.wait_truthful (hmove : s.Move ports localAddr label s') (h : s.CallInv) {call : CallId}
    {id : RowId} {d : Deploy} (hmoves : s.movesDeploy label = some (call, id, .wait d))
    {reply : Reply} (hfilled : s.shared.waiters call = some (.filled reply))
    (hP : s'.StartsTruthful) : reply.isOk = true := by
  obtain ⟨t, next, hdeploy, hpc, hshared, -, hdeploys⟩ := hmove.deploy_step hmoves
  have hreplies : (s.shared.trail call).replies = [reply] := by
    rcases ((h.tells call).deploy id _ hpc).1 with ⟨hw, _⟩ | ⟨reply', hw, hreplies⟩
    · rw [hfilled] at hw
      rcases hw with hw | hw <;> cases hw
    · obtain rfl : reply = reply' := by simpa [hfilled] using hw
      exact hreplies
  cases hdeploy with
  | answered =>
      obtain ⟨reply', hmem, hok⟩ := hP.2 call id (.record d)
        (by rw [hdeploys, Function.update_self]; rfl) rfl
      rw [hshared] at hmem
      obtain rfl := List.mem_singleton.mp (hreplies ▸ hmem)
      exact hok
  | dropped hclosed =>
      rw [hfilled] at hclosed
      cases hclosed
  | timedOut hwaiting =>
      rw [hfilled] at hwaiting
      rcases hwaiting with hwaiting | hwaiting <;> cases hwaiting
  | refused hrefuses => cases hrefuses

theorem CallInv.heeding (h : s.CallInv) (hstep : s.step ports localAddr label = some s')
    (hP : s'.StartsTruthful) : s.Heeding label := by
  obtain ⟨hmove, _⟩ := step_move h.fresh hstep
  unfold Heeding
  split
  · rename_i call id d hmoves
    split
    · rename_i reply hfilled
      exact hmove.wait_truthful h hmoves hfilled hP
    · trivial
  · trivial

end Server

/-- The client cannot start the container and says so. -/
def failedStart : List Label :=
  Label.oneConnection ++ Label.deploys 0 0 (.containerError "kdct-a-1" "no such image")

end Kdct
