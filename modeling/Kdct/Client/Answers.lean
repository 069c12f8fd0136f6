/-
What completes the waiters (`pending_docker` in `ControlChannel::run`, filled by
`deploy_connection` and `stop_connection`).

Whatever a client says about a container comes through one channel, and completes
whoever waits under the container's name.  Letters are tagged with where they come from,
and completions are kept.  A call gets the answer to its own command as long as nothing
about the container is under way when it inserts its waiter, and no report that lists the
container gets ahead of the answer.
-/
import Kdct.Client.Containers

namespace Kdct

/-- A command of the server, and the call that sent it. -/
structure Order where
  call : CallId
  cmd : ControlChannelCmd
  deriving DecidableEq

/-- Where a letter of a client comes from. -/
inductive LetterOrigin
  | answer (order : Order)
  /-- A report, and the starts that clients had executed when it was gathered. -/
  | report (launched : List (CallId × ImageStart))
  deriving DecidableEq

structure Letter where
  cmd : ControlChannelCmd
  origin : LetterOrigin
  deriving DecidableEq

/-- A task a client has spawned for a command of a channel. -/
inductive OrderTask
  | start (ch : ChannelId) (call : CallId) (start : ImageStart) (pc : StartPc)
  | stop (ch : ChannelId) (call : CallId) (containerName : String)
  /-- About to write what came out. -/
  | answer (ch : ChannelId) (order : Order) (cmd : ControlChannelCmd)
  deriving DecidableEq

namespace OrderTask

def channel : OrderTask → ChannelId
  | .start ch _ _ _ | .stop ch _ _ | .answer ch _ _ => ch

def order : OrderTask → Order
  | .start _ call image _ => { call := call, cmd := .imageStart image }
  | .stop _ call name => { call := call, cmd := .imageStop name }
  | .answer _ order _ => order

end OrderTask

/-- What a client spawns for a command. -/
def Order.task (ch : ChannelId) (o : Order) : Option OrderTask :=
  match o.cmd with
  | .imageStart start => some (.start ch o.call start .clean)
  | .imageStop name => some (.stop ch o.call name)
  | _ => none

/-- A container, which may have ended by itself. -/
structure HostContainer where
  node : NodeUuid
  name : String
  running : Bool
  deriving DecidableEq

/-- A waiter that got a result: its call, the command it is for, and the letter. -/
structure Completion where
  call : CallId
  expected : Option ControlChannelCmd
  letter : Letter
  deriving DecidableEq

structure Exchange where
  server : Server
  commands : ChannelId → List Order
  tasks : List OrderTask
  replies : ChannelId → List Letter
  containers : List HostContainer
  /-- The starts that have been executed. -/
  launched : List (CallId × ImageStart)
  /-- The commands that waiters have been inserted for. -/
  expects : CallId → Option ControlChannelCmd
  completed : List Completion

def HostContainer.isAt (k : HostContainer) (uuid : NodeUuid) (name : String) : Bool :=
  k.node = uuid && k.name = name

namespace Exchange

inductive Label
  | server (label : Kdct.Label)
  /-- The client reads a command. -/
  | receive (ch : ChannelId)
  /-- A task moves on, or fails with a message. -/
  | task (i : Nat) (error : Option String)
  /-- The client gathers and writes its status. -/
  | report (ch : ChannelId) (status : NodeStatus)
  /-- A container ends by itself. -/
  | exit (uuid : NodeUuid) (name : String)
  deriving DecidableEq

/-- A server and clients with no containers. -/
def boot (ports : FreshPool) : Exchange where
  server := .boot .empty ports
  commands := fun _ => []
  tasks := []
  replies := fun _ => []
  containers := []
  launched := []
  expects := fun _ => none
  completed := []

/-- A client registers under its own uuid, and the server handles what it gets. -/
def admits (node : ChannelId → NodeUuid) (x : Exchange) : Kdct.Label → Bool
  | .register uuid ch => node ch = uuid
  | .message ch cmd => (x.replies ch).head?.map Letter.cmd = some cmd
  | _ => true

/-- The waiters that a letter completes. -/
def completions (x : Exchange) (ch : ChannelId) (l : Letter) : List Completion :=
  (x.server.shared.completes ch l.cmd).map fun call =>
    { call := call, expected := x.expects call, letter := l }

/-- What is under way after a step of the server. -/
def carry (x : Exchange) (label : Kdct.Label) (t : Server) : Exchange where
  server := t
  commands :=
    -- The connections end with the process.
    if label = .restart then fun _ => []
    else
      match x.server.sends label with
      | some (ch, call, cmd) =>
          Function.update x.commands ch (x.commands ch ++ [{ call := call, cmd := cmd }])
      | none => x.commands
  tasks := x.tasks
  replies :=
    match label with
    | .message ch _ => Function.update x.replies ch (x.replies ch).tail
    | .restart => fun _ => []
    | _ => x.replies
  containers := x.containers
  launched := x.launched
  expects :=
    match x.server.inserts label with
    | some (_, call, cmd) => Function.update x.expects call (some cmd)
    | none => x.expects
  completed :=
    match label with
    | .message ch _ => (x.replies ch).head?.toList.flatMap (x.completions ch) ++ x.completed
    | _ => x.completed

def write (x : Exchange) (ch : ChannelId) (l : Letter) : Exchange :=
  { x with replies := Function.update x.replies ch (x.replies ch ++ [l]) }

def removeContainer (x : Exchange) (uuid : NodeUuid) (name : String) : Exchange :=
  { x with containers := x.containers.filter fun k => !k.isAt uuid name }

/-- A step of a task, and where the task is then. -/
def taskStep (node : ChannelId → NodeUuid) (x : Exchange) (error : Option String) :
    OrderTask → Option (Exchange × Option OrderTask)
  | .start ch call start .clean =>
      -- Nobody looks at the result of `docker stop` and `docker rm`.
      some (if error.isNone then x.removeContainer (node ch) start.containerName else x,
        some (.start ch call start .image))
  | .start ch call start .image =>
      match error with
      | none => some (x, some (.start ch call start .run))
      | some text => some (x, some (.answer ch { call := call, cmd := .imageStart start }
          (.containerError start.containerName text)))
  | .start ch call start .run =>
      let order : Order := { call := call, cmd := .imageStart start }
      match error with
      | none =>
          -- Docker refuses a name that is in use.
          if x.containers.any fun k => k.isAt (node ch) start.containerName then none
          else
            let k : HostContainer :=
              { node := node ch, name := start.containerName, running := true }
            some ({ x with containers := k :: x.containers
                           launched := (call, start) :: x.launched },
              some (.answer ch order (.containerStarted start.containerName (dockerRun start).2)))
      | some text => some (x, some (.answer ch order (.containerError start.containerName text)))
  | .stop ch call name =>
      let order : Order := { call := call, cmd := .imageStop name }
      match error with
      | none =>
          if x.containers.any fun k => k.isAt (node ch) name then
            some (x.removeContainer (node ch) name,
              some (.answer ch order (.containerStopped name)))
          else none
      | some text => some (x, some (.answer ch order (.containerError name text)))
  | .answer ch order cmd =>
      some (if error.isNone then x.write ch { cmd := cmd, origin := .answer order } else x, none)

/-- What `docker ps` lists on a client. -/
def running (x : Exchange) (uuid : NodeUuid) : List String :=
  (x.containers.filter fun k => k.node = uuid && k.running).map HostContainer.name

def step (ports : FreshPool) (localAddr : LocalAddr) (node : ChannelId → NodeUuid)
    (x : Exchange) : Label → Option Exchange
  | .server label =>
      if admits node x label then (x.server.step ports localAddr label).map (x.carry label)
      else none
  | .receive ch =>
      match x.commands ch with
      | [] => none
      | o :: rest => some { x with commands := Function.update x.commands ch rest
                                   tasks := x.tasks ++ (o.task ch).toList }
  | .task i error =>
      x.tasks[i]?.bind fun task => (x.taskStep node error task).map fun (y, next) =>
        { y with tasks := x.tasks.take i ++ next.toList ++ x.tasks.drop (i + 1) }
  | .report ch status =>
      if status.runningContainers.map ContainerInfo.containerName = x.running (node ch) then
        some (x.write ch { cmd := .reportNodeStatus status, origin := .report x.launched })
      else none
  | .exit uuid name =>
      let ended (k : HostContainer) : HostContainer :=
        if k.isAt uuid name then { k with running := false } else k
      some { x with containers := x.containers.map ended }

end Exchange

/-- `kdcts` with its nodes and what they write to each other. -/
def exchange (ports : FreshPool) (localAddr : LocalAddr) (node : ChannelId → NodeUuid) :
    Machine Exchange Exchange.Label where
  init := .boot ports
  step := Exchange.step ports localAddr node

/-! ## What a call waits for -/

/-- What a client says when it is done with a command. -/
def ControlChannelCmd.answers : ControlChannelCmd → ControlChannelCmd → Bool
  | .containerStarted name _, .imageStart start => name = start.containerName
  | .containerStopped name, .imageStop name' => name = name'
  | .containerError name _, cmd => cmd.container? = some name
  | _, _ => false

/-- The letter is the answer to the command that the waiter is for, or a report gathered
after this start was executed. -/
def Completion.Proper (k : Completion) : Prop :=
  match k.letter.origin with
  | .answer order =>
      order.call = k.call ∧ k.expected = some order.cmd ∧ k.letter.cmd.answers order.cmd = true
  | .report launched => ∃ q ∈ launched, q.1 = k.call ∧ k.expected = some (.imageStart q.2)

namespace Exchange

variable (x : Exchange)

/-- Every waiter was completed by what it waits for. -/
def Answered : Prop := ∀ k ∈ x.completed, k.Proper

/-- Nothing about the container is under way on the channel. -/
structure Silent (ch : ChannelId) (name : String) : Prop where
  sending : ∀ call < x.server.nextCall, ∀ w ∈ x.server.sending call, w.1 = ch →
    w.2.container? ≠ some name
  commands : ∀ o ∈ x.commands ch, o.cmd.container? ≠ some name
  tasks : ∀ t ∈ x.tasks, t.channel = ch → t.order.cmd.container? ≠ some name
  replies : ∀ l ∈ x.replies ch, name ∉ l.cmd.resolves

/-- The start of the call has been executed. -/
def HasLaunched (call : CallId) : Prop :=
  ∃ q ∈ x.launched, q.1 = call ∧ x.expects call = some (.imageStart q.2)

/-- A waiter is inserted where nothing about its container is under way, and a report does
not list a container that somebody waits for unless an earlier letter is about it or
the start has been executed. -/
def InOrder : Label → Prop
  | .server label => ∀ w ∈ x.server.inserts label, ∀ name ∈ w.2.2.container?, x.Silent w.1 name
  | .report ch status => ∀ name ∈ status.runningContainers.map ContainerInfo.containerName,
      ∀ call ∈ (x.server.shared.pending ch).lookup name, x.server.shared.Awaits ch name call →
        (∃ l ∈ x.replies ch, name ∈ l.cmd.resolves) ∨ x.HasLaunched call
  | _ => True

instance (k : Completion) : Decidable k.Proper := by
  unfold Completion.Proper
  split <;> infer_instance

instance : Decidable x.Answered := inferInstanceAs (Decidable (∀ k ∈ x.completed, k.Proper))

instance (ch : ChannelId) (name : String) : Decidable (x.Silent ch name) :=
  decidable_of_iff ((∀ call < x.server.nextCall, ∀ w ∈ x.server.sending call, w.1 = ch →
      w.2.container? ≠ some name) ∧ (∀ o ∈ x.commands ch, o.cmd.container? ≠ some name) ∧
      (∀ t ∈ x.tasks, t.channel = ch → t.order.cmd.container? ≠ some name) ∧
      ∀ l ∈ x.replies ch, name ∉ l.cmd.resolves)
    ⟨fun ⟨hs, hc, ht, hr⟩ => ⟨hs, hc, ht, hr⟩, fun ⟨hs, hc, ht, hr⟩ => ⟨hs, hc, ht, hr⟩⟩

instance (call : CallId) : Decidable (x.HasLaunched call) :=
  inferInstanceAs (Decidable (∃ q ∈ x.launched, _))

instance (label : Label) : Decidable (x.InOrder label) := by
  unfold InOrder
  split <;> infer_instance

/-! ## What is under way for a call that waits -/

/-- The command is the one the call waits for the answer to. -/
def Owns (call : CallId) (o : Order) : Prop :=
  o.call = call ∧ x.expects call = some o.cmd

/-- The letter completes the call with what it waits for. -/
def Suits (call : CallId) (l : Letter) : Prop :=
  match l.origin with
  | .answer order => x.Owns call order
  | .report launched => ∃ q ∈ launched, q.1 = call ∧ x.expects call = some (.imageStart q.2)

/-- Everything about the container that is under way on the channel is the call's own, up
to the first letter. -/
structure Own (ch : ChannelId) (name : String) (call : CallId) : Prop where
  sending : ∀ c w, x.server.sending c = some w → w.1 = ch → w.2.container? = some name → c = call
  commands : ∀ o ∈ x.commands ch, o.cmd.container? = some name → x.Owns call o
  tasks : ∀ t ∈ x.tasks, t.channel = ch → t.order.cmd.container? = some name →
    x.Owns call t.order
  replies : ∀ l, (x.replies ch).find? (fun l => name ∈ l.cmd.resolves) = some l → x.Suits call l

/-- The task is not about to write something else than the answer to its command. -/
def OrderTask.Answers : OrderTask → Prop
  | .answer _ order cmd => cmd.answers order.cmd = true
  | _ => True

structure Inv : Prop where
  waits : x.server.Waits
  expects : ∀ call w, x.server.sending call = some w → x.expects call = some w.2
  own : ∀ ch name call, x.server.shared.Awaits ch name call → x.Own ch name call
  tasks : ∀ t ∈ x.tasks, OrderTask.Answers t
  replies : ∀ ch, ∀ l ∈ x.replies ch, ∀ order, l.origin = .answer order →
    l.cmd.answers order.cmd = true
  answered : x.Answered

section

variable {x} {y : Exchange} {ports : FreshPool} {localAddr : LocalAddr}
  {node : ChannelId → NodeUuid} {label : Kdct.Label} {t : Server} {ch : ChannelId}
  {name : String} {call : CallId}

theorem boot_inv (ports : FreshPool) : (boot ports).Inv where
  waits := Server.waits_boot ports
  expects := fun _ _ h => by cases h
  own := fun _ _ _ h => by cases h.1
  tasks := fun _ h => by cases h
  replies := fun _ _ h => by cases h
  answered := fun _ h => by cases h

theorem Silent.own (h : x.Silent ch name) (hf : x.server.Fresh) (call : CallId) :
    x.Own ch name call where
  sending := fun c w hw hch hname => by
    obtain ⟨p, hp, -⟩ := Option.bind_eq_some_iff.mp hw
    exact absurd hname (h.sending c (hf.callAt_lt hp) w hw hch)
  commands := fun o ho hname => absurd hname (h.commands o ho)
  tasks := fun t ht hch hname => absurd hname (h.tasks t ht hch)
  replies := fun l hl => by
    have hname := List.find?_some hl
    exact absurd (of_decide_eq_true hname) (h.replies l (List.mem_of_find?_eq_some hl))

theorem Owns.congr {o : Order} (h : x.Owns call o) (hexpects : y.expects call = x.expects call) :
    y.Owns call o :=
  ⟨h.1, hexpects.trans h.2⟩

theorem Suits.congr {l : Letter} (h : x.Suits call l)
    (hexpects : y.expects call = x.expects call) : y.Suits call l := by
  unfold Suits at h ⊢
  split at h
  · exact h.congr hexpects
  · rwa [hexpects]

/-! ## The clients -/

/-- A step of a client. -/
theorem Inv.client (h : x.Inv) (hserver : y.server = x.server) (hexpects : y.expects = x.expects)
    (hcompleted : y.completed = x.completed)
    (hcommands : ∀ ch, ∀ o ∈ y.commands ch, o ∈ x.commands ch)
    (htasks : ∀ t ∈ y.tasks, OrderTask.Answers t ∧
      (t.order ∈ x.commands t.channel ∨
        ∃ u ∈ x.tasks, u.channel = t.channel ∧ u.order = t.order))
    (hreplies : ∀ ch, y.replies ch = x.replies ch ∨ ∃ l, y.replies ch = x.replies ch ++ [l] ∧
      (∀ order, l.origin = .answer order → l.cmd.answers order.cmd = true) ∧
      ∀ name call, x.server.shared.Awaits ch name call → name ∈ l.cmd.resolves →
        (∃ l' ∈ x.replies ch, name ∈ l'.cmd.resolves) ∨ x.Suits call l) : y.Inv := by
  have hsame : ∀ call, y.expects call = x.expects call := fun call => congrFun hexpects call
  refine ⟨hserver ▸ h.waits, fun call w hw => ?_, fun ch name call hawaits => ?_,
    fun t ht => (htasks t ht).1, fun ch l hl order horder => ?_, ?_⟩
  · rw [hserver] at hw
    rw [hexpects]
    exact h.expects call w hw
  · rw [hserver] at hawaits
    have hown := h.own ch name call hawaits
    refine ⟨fun c w hw => ?_, fun o ho hname => ?_, fun t ht hch hname => ?_, fun l hl => ?_⟩
    · rw [hserver] at hw
      exact hown.sending c w hw
    · exact (hown.commands o (hcommands ch o ho) hname).congr (hsame call)
    · rcases (htasks t ht).2 with hmem | ⟨u, hu, huch, huorder⟩
      · rw [hch] at hmem
        exact (hown.commands t.order hmem hname).congr (hsame call)
      · rw [← huorder] at hname ⊢
        exact (hown.tasks u hu (huch.trans hch) hname).congr (hsame call)
    · rcases hreplies ch with heq | ⟨l', heq, -, hsuits⟩
      · rw [heq] at hl
        exact (hown.replies l hl).congr (hsame call)
      · rw [heq, List.find?_append] at hl
        cases hfirst : (x.replies ch).find? fun l => name ∈ l.cmd.resolves with
        | some l'' =>
            rw [hfirst] at hl
            obtain rfl := Option.some.inj hl
            exact (hown.replies _ hfirst).congr (hsame call)
        | none =>
            rw [hfirst, Option.none_or] at hl
            have hmem := List.mem_of_find?_eq_some hl
            have hfound := List.find?_some hl
            have hname : name ∈ l.cmd.resolves := of_decide_eq_true hfound
            rw [List.mem_singleton.mp hmem] at hname ⊢
            refine Suits.congr ((hsuits name call hawaits hname).resolve_left ?_) (hsame call)
            rintro ⟨l'', hl'', hname'⟩
            exact absurd (decide_eq_true hname') (List.find?_eq_none.mp hfirst l'' hl'')
  · rcases hreplies ch with heq | ⟨l', heq, hanswers, -⟩
    · rw [heq] at hl
      exact h.replies ch l hl order horder
    · rw [heq] at hl
      rcases List.mem_append.mp hl with hl | hl
      · exact h.replies ch l hl order horder
      · rw [List.mem_singleton.mp hl] at horder ⊢
        exact hanswers order horder
  · unfold Answered
    rw [hcompleted]
    exact h.answered

theorem answers_container {reply cmd : ControlChannelCmd} (h : reply.answers cmd = true) :
    ∃ name, cmd.container? = some name ∧ reply.resolves = [name] := by
  unfold ControlChannelCmd.answers at h
  split at h
  · rename_i name _ start
    exact ⟨name, congrArg some (of_decide_eq_true h).symm, rfl⟩
  · rename_i name name'
    exact ⟨name, congrArg some (of_decide_eq_true h).symm, rfl⟩
  · rename_i name _
    exact ⟨name, of_decide_eq_true h, rfl⟩
  · cases h

theorem Inv.receive (h : x.Inv) {o : Order} {rest : List Order} (ho : x.commands ch = o :: rest) :
    Inv { x with commands := Function.update x.commands ch rest
                 tasks := x.tasks ++ (o.task ch).toList } := by
  refine h.client rfl rfl rfl (fun ch' o' ho' => ?_) (fun t ht => ?_) fun _ => .inl rfl
  · by_cases hch : ch' = ch
    · subst hch
      replace ho' : o' ∈ Function.update x.commands ch' rest ch' := ho'
      rw [Function.update_self] at ho'
      rw [ho]
      exact List.mem_cons_of_mem o ho'
    · replace ho' : o' ∈ Function.update x.commands ch rest ch' := ho'
      rwa [Function.update_of_ne hch] at ho'
  · rcases List.mem_append.mp ht with ht | ht
    · exact ⟨h.tasks t ht, .inr ⟨t, ht, rfl, rfl⟩⟩
    · have hmem : o ∈ x.commands ch := by
        rw [ho]
        exact List.mem_cons_self
      rw [Option.mem_toList] at ht
      unfold Order.task at ht
      split at ht
      · rename_i start hcmd
        obtain rfl := Option.some.inj ht
        refine ⟨trivial, .inl ?_⟩
        show { call := o.call, cmd := .imageStart start } ∈ x.commands ch
        rwa [← hcmd]
      · rename_i name hcmd
        obtain rfl := Option.some.inj ht
        refine ⟨trivial, .inl ?_⟩
        show { call := o.call, cmd := .imageStop name } ∈ x.commands ch
        rwa [← hcmd]
      · cases ht

/-- What a task does: it goes on with its command, and it writes nothing but its answer. -/
structure TaskSpec (x y : Exchange) (task : OrderTask) (next : Option OrderTask) : Prop where
  server : y.server = x.server
  expects : y.expects = x.expects
  completed : y.completed = x.completed
  commands : y.commands = x.commands
  goesOn : ∀ t ∈ next, OrderTask.Answers t ∧ t.channel = task.channel ∧ t.order = task.order
  replies : y.replies = x.replies ∨ ∃ ch order cmd, task = .answer ch order cmd ∧
    y.replies = Function.update x.replies ch
      (x.replies ch ++ [{ cmd := cmd, origin := .answer order }])

/-- A step that changes nothing but what Docker has, and goes on with the command. -/
theorem TaskSpec.docker {task u : OrderTask} (containers : List HostContainer)
    (launched : List (CallId × ImageStart)) (hanswers : OrderTask.Answers u)
    (hchannel : u.channel = task.channel) (horder : u.order = task.order) :
    x.TaskSpec { x with containers := containers, launched := launched } task (some u) where
  server := rfl
  expects := rfl
  completed := rfl
  commands := rfl
  goesOn := by
    rintro t ⟨⟩
    exact ⟨hanswers, hchannel, horder⟩
  replies := .inl rfl

theorem taskStep_spec {error : Option String} {task : OrderTask} {next : Option OrderTask}
    (h : x.taskStep node error task = some (y, next)) : x.TaskSpec y task next := by
  cases task with
  | start ch call start pc =>
      have herror : ∀ text, (ControlChannelCmd.containerError start.containerName text).answers
          (.imageStart start) = true := fun _ => decide_eq_true rfl
      cases pc with
      | clean =>
          cases error with
          | none =>
              obtain ⟨rfl, rfl⟩ := Prod.mk.inj (Option.some.inj h)
              exact .docker _ _ trivial rfl rfl
          | some text =>
              obtain ⟨rfl, rfl⟩ := Prod.mk.inj (Option.some.inj h)
              exact .docker _ _ trivial rfl rfl
      | image =>
          cases error with
          | none =>
              obtain ⟨rfl, rfl⟩ := Prod.mk.inj (Option.some.inj h)
              exact .docker _ _ trivial rfl rfl
          | some text =>
              obtain ⟨rfl, rfl⟩ := Prod.mk.inj (Option.some.inj h)
              exact .docker _ _ (herror text) rfl rfl
      | run =>
          cases error with
          | none =>
              simp only [taskStep] at h
              split at h
              · cases h
              · obtain ⟨rfl, rfl⟩ := Prod.mk.inj (Option.some.inj h)
                exact .docker _ _ (decide_eq_true rfl) rfl rfl
          | some text =>
              obtain ⟨rfl, rfl⟩ := Prod.mk.inj (Option.some.inj h)
              exact .docker _ _ (herror text) rfl rfl
  | stop ch call name =>
      cases error with
      | none =>
          simp only [taskStep] at h
          split at h
          · obtain ⟨rfl, rfl⟩ := Prod.mk.inj (Option.some.inj h)
            exact .docker _ _ (decide_eq_true rfl) rfl rfl
          · cases h
      | some text =>
          obtain ⟨rfl, rfl⟩ := Prod.mk.inj (Option.some.inj h)
          exact .docker _ _ (decide_eq_true rfl) rfl rfl
  | answer ch order cmd =>
      cases error with
      | none =>
          obtain ⟨rfl, rfl⟩ := Prod.mk.inj (Option.some.inj h)
          exact ⟨rfl, rfl, rfl, rfl, fun t ht => (by cases ht), .inr ⟨ch, order, cmd, rfl, rfl⟩⟩
      | some text =>
          obtain ⟨rfl, rfl⟩ := Prod.mk.inj (Option.some.inj h)
          exact ⟨rfl, rfl, rfl, rfl, fun t ht => (by cases ht), .inl rfl⟩

theorem Inv.task (h : x.Inv) {i : Nat} {error : Option String} {task : OrderTask}
    {next : Option OrderTask} (htask : x.tasks[i]? = some task)
    (hstep : x.taskStep node error task = some (y, next)) :
    Inv { y with tasks := x.tasks.take i ++ next.toList ++ x.tasks.drop (i + 1) } := by
  have hspec := taskStep_spec hstep
  have hmem : task ∈ x.tasks := List.mem_of_getElem? htask
  refine h.client hspec.server hspec.expects hspec.completed (fun ch o ho => ?_) (fun t ht => ?_)
    fun ch => ?_
  · rwa [← hspec.commands]
  · rcases List.mem_append.mp ht with ht | ht
    · rcases List.mem_append.mp ht with ht | ht
      · have ht' := List.mem_of_mem_take ht
        exact ⟨h.tasks t ht', .inr ⟨t, ht', rfl, rfl⟩⟩
      · obtain ⟨hanswers, hchannel, horder⟩ := hspec.goesOn t (Option.mem_toList.mp ht)
        exact ⟨hanswers, .inr ⟨task, hmem, hchannel.symm, horder.symm⟩⟩
    · have ht' := List.mem_of_mem_drop ht
      exact ⟨h.tasks t ht', .inr ⟨t, ht', rfl, rfl⟩⟩
  · rcases hspec.replies with heq | ⟨ch', order, cmd, rfl, heq⟩
    · exact .inl (congrFun heq ch)
    · have hanswers : cmd.answers order.cmd = true := h.tasks _ hmem
      by_cases hch : ch = ch'
      · subst hch
        refine .inr ⟨_, (congrFun heq ch).trans (Function.update_self ..), ?_, ?_⟩
        · rintro order' ⟨⟩
          exact hanswers
        · intro name call hawaits hname
          obtain ⟨name', hcontainer, hresolves⟩ := answers_container hanswers
          replace hname : name ∈ cmd.resolves := hname
          rw [hresolves, List.mem_singleton] at hname
          rw [← hname] at hcontainer
          exact .inr ((h.own ch name call hawaits).tasks _ hmem rfl hcontainer)
      · exact .inl ((congrFun heq ch).trans (Function.update_of_ne hch ..))

theorem Inv.report (h : x.Inv) {status : NodeStatus} (hC : x.InOrder (.report ch status)) :
    (x.write ch { cmd := .reportNodeStatus status, origin := .report x.launched }).Inv := by
  refine h.client rfl rfl rfl (fun _ _ ho => ho)
    (fun t ht => ⟨h.tasks t ht, .inr ⟨t, ht, rfl, rfl⟩⟩) fun ch' => ?_
  by_cases hch : ch' = ch
  · subst hch
    refine .inr ⟨_, Function.update_self .., fun order horder => (by cases horder), ?_⟩
    intro name call hawaits hname
    exact hC name hname call hawaits.1 hawaits
  · exact .inl (Function.update_of_ne hch ..)

/-! ## The server -/

theorem expects_carry_of_ne (h : ∀ ch cmd, x.server.inserts label ≠ some (ch, call, cmd)) :
    (x.carry label t).expects call = x.expects call := by
  unfold carry
  cases hinserts : x.server.inserts label with
  | none => rfl
  | some w =>
      obtain ⟨ch, call', cmd⟩ := w
      refine Function.update_of_ne ?_ ..
      rintro rfl
      exact h ch cmd hinserts

theorem expects_carry {cmd : ControlChannelCmd}
    (h : x.server.inserts label = some (ch, call, cmd)) :
    (x.carry label t).expects call = some cmd := by
  unfold carry
  rw [h]
  exact Function.update_self ..

theorem mem_commands_carry {o : Order} (h : o ∈ (x.carry label t).commands ch) :
    o ∈ x.commands ch ∨ x.server.sends label = some (ch, o.call, o.cmd) := by
  unfold carry at h
  dsimp only at h
  split at h
  · cases h
  · cases hsends : x.server.sends label with
    | none =>
        rw [hsends] at h
        exact .inl h
    | some w =>
      obtain ⟨ch', call, cmd⟩ := w
      rw [hsends] at h
      dsimp only at h
      by_cases hch : ch = ch'
      · subst hch
        rw [Function.update_self] at h
        rcases List.mem_append.mp h with h | h
        · exact .inl h
        · rw [List.mem_singleton.mp h]
          exact .inr rfl
      · rw [Function.update_of_ne hch] at h
        exact .inl h

theorem replies_carry (x : Exchange) (label : Kdct.Label) (t : Server) (ch : ChannelId) :
    (x.carry label t).replies ch = x.replies ch ∨
    (∃ cmd, label = .message ch cmd) ∧ (x.carry label t).replies ch = (x.replies ch).tail ∨
      (x.carry label t).replies ch = [] := by
  unfold carry
  dsimp only
  split
  · rename_i ch' cmd
    by_cases hch : ch = ch'
    · subst hch
      exact .inr (.inl ⟨⟨cmd, rfl⟩, Function.update_self ..⟩)
    · exact .inl (Function.update_of_ne hch ..)
  · exact .inr (.inr rfl)
  · exact .inl rfl

theorem mem_replies_carry {l : Letter} (h : l ∈ (x.carry label t).replies ch) :
    l ∈ x.replies ch := by
  rcases replies_carry x label t ch with heq | ⟨-, heq⟩ | heq
  · rwa [heq] at h
  · rw [heq] at h
    exact List.mem_of_mem_tail h
  · rw [heq] at h
    cases h

theorem head_of_admits {cmd : ControlChannelCmd}
    (h : admits node x (.message ch cmd) = true) :
    ∃ l rest, x.replies ch = l :: rest ∧ l.cmd = cmd := by
  obtain ⟨l, hl, hcmd⟩ := Option.map_eq_some_iff.mp (of_decide_eq_true h)
  obtain ⟨rest, hrest⟩ := List.head?_eq_some_iff.mp hl
  exact ⟨l, rest, hrest, hcmd⟩

/-- A call that goes on waiting. -/
theorem Own.carry (h : x.Inv) (hown : x.Own ch name call) (hadmits : admits node x label = true)
    (hstep : x.server.step ports localAddr label = some t)
    (hawaits : t.shared.Awaits ch name call)
    (hexpects : (x.carry label t).expects call = x.expects call) :
    (x.carry label t).Own ch name call := by
  refine ⟨fun c w hw hch hname => ?_, fun o ho hname => ?_, fun u hu hch hname => ?_,
    fun l hl => ?_⟩
  · rcases h.waits.sending_step hstep hw with ⟨hw, -⟩ | hinserts
    · exact hown.sending c w hw hch hname
    · -- Who has inserted a waiter under the name is who waits there.
      have hlookup := h.waits.lookup_of_inserts hstep hinserts hname
      rw [hch] at hlookup
      exact Option.some.inj (hlookup.symm.trans hawaits.1)
  · rcases mem_commands_carry ho with ho | hsends
    · exact (hown.commands o ho hname).congr hexpects
    · obtain ⟨hsending, -⟩ := h.waits.sending_of_sends hstep hsends
      obtain rfl := hown.sending o.call _ hsending rfl hname
      exact ⟨rfl, hexpects.trans (h.expects o.call _ hsending)⟩
  · exact (hown.tasks u hu hch hname).congr hexpects
  · rcases replies_carry x label t ch with
      heq | ⟨⟨cmd, rfl⟩, heq⟩ | heq
    · rw [heq] at hl
      exact (hown.replies l hl).congr hexpects
    · obtain ⟨l', rest, hreplies, rfl⟩ := head_of_admits hadmits
      rw [heq, hreplies, List.tail_cons] at hl
      refine (hown.replies l ?_).congr hexpects
      rw [hreplies, List.find?_cons_of_neg, hl]
      rw [decide_eq_true_eq]
      intro hname
      have hnone : ((x.server.shared.message ch l'.cmd).pending ch).lookup name = none :=
        Shared.message_lookup hname
      rw [← Server.shared_of_message hstep, hawaits.1] at hnone
      cases hnone
    · rw [heq] at hl
      cases hl

/-- A call that has just inserted its waiter. -/
theorem Silent.carry (h : x.Inv) (hsilent : x.Silent ch name)
    (hstep : x.server.step ports localAddr label = some t) {cmd : ControlChannelCmd}
    (hinserts : x.server.inserts label = some (ch, call, cmd)) :
    (x.carry label t).Own ch name call := by
  have hown : x.Own ch name call := hsilent.own h.waits.fresh call
  refine ⟨fun c w hw hch hname => ?_, fun o ho hname => ?_,
    fun u hu hch hname => absurd hname (hsilent.tasks u hu hch), fun l hl => ?_⟩
  · rcases h.waits.sending_step hstep hw with ⟨hw, -⟩ | hinserts'
    · exact hown.sending c w hw hch hname
    · rw [hinserts] at hinserts'
      exact (Prod.mk.inj (Prod.mk.inj (Option.some.inj hinserts')).2).1.symm
  · rcases mem_commands_carry ho with ho | hsends
    · exact absurd hname (hsilent.commands o ho)
    · have hnone := (h.waits.sending_of_sends hstep hsends).2
      cases hinserts.symm.trans hnone
  · have hfound := List.find?_some hl
    exact absurd (of_decide_eq_true hfound)
      (hsilent.replies l (mem_replies_carry (List.mem_of_find?_eq_some hl)))

/-- The waiters that the server completes get what they wait for. -/
theorem Inv.completed (h : x.Inv) (hadmits : admits node x label = true) :
    (x.carry label t).Answered := by
  intro k hk
  unfold Exchange.carry at hk
  dsimp only at hk
  split at hk
  · rename_i ch cmd
    obtain ⟨l, rest, hreplies, rfl⟩ := head_of_admits hadmits
    rw [hreplies] at hk
    rcases List.mem_append.mp hk with hk | hk
    · obtain ⟨l', hl', hcompletion⟩ := List.mem_flatMap.mp hk
      obtain rfl : l' = l := List.mem_singleton.mp hl'
      obtain ⟨call, hcall, rfl⟩ := List.mem_map.mp hcompletion
      obtain ⟨name, hname, hawaits⟩ := Shared.mem_completes.mp hcall
      have hsuits := (h.own ch name call hawaits).replies l' (by
        rw [hreplies, List.find?_cons_of_pos]
        exact decide_eq_true hname)
      unfold Suits at hsuits
      unfold Completion.Proper
      dsimp only
      split at hsuits
      · rename_i order horder
        refine ⟨hsuits.1, hsuits.2, h.replies ch l' ?_ order horder⟩
        rw [hreplies]
        exact List.mem_cons_self
      · exact hsuits
    · exact h.answered k hk
  · exact h.answered k hk

theorem Inv.server (h : x.Inv) (hC : x.InOrder (.server label))
    (hadmits : admits node x label = true)
    (hstep : x.server.step ports localAddr label = some t) : (x.carry label t).Inv := by
  refine ⟨Server.waits_step h.waits hstep, fun call w hw => ?_, fun ch name call hawaits => ?_,
    h.tasks, fun ch l hl => h.replies ch l (mem_replies_carry hl), h.completed hadmits⟩
  · rcases h.waits.sending_step hstep hw with ⟨hw, hnone⟩ | hinserts
    · exact (expects_carry_of_ne hnone).trans (h.expects call w hw)
    · exact expects_carry hinserts
  · rcases h.waits.awaits_step hstep hawaits with ⟨hawaits', hnone⟩ | ⟨cmd, hinserts, hname⟩
    · exact (h.own ch name call hawaits').carry h hadmits hstep hawaits (expects_carry_of_ne hnone)
    · exact (hC _ hinserts name hname).carry h hstep hinserts

theorem Inv.step (h : x.Inv) (label : Label) (hC : x.InOrder label)
    (hstep : x.step ports localAddr node label = some y) : y.Inv := by
  cases label with
  | server label =>
      simp only [Exchange.step] at hstep
      split at hstep
      · rename_i hadmits
        obtain ⟨t, ht, rfl⟩ := Option.map_eq_some_iff.mp hstep
        exact h.server hC hadmits ht
      · cases hstep
  | receive ch =>
      simp only [Exchange.step] at hstep
      split at hstep
      · cases hstep
      · rename_i o rest ho
        obtain rfl := Option.some.inj hstep
        exact h.receive ho
  | task i error =>
      obtain ⟨task, htask, hstep⟩ := Option.bind_eq_some_iff.mp hstep
      obtain ⟨⟨z, next⟩, hz, rfl⟩ := Option.map_eq_some_iff.mp hstep
      exact h.task htask hz
  | report ch status =>
      simp only [Exchange.step] at hstep
      split at hstep
      · obtain rfl := Option.some.inj hstep
        exact h.report hC
      · cases hstep
  | exit uuid name =>
      obtain rfl := Option.some.inj hstep
      exact h.client rfl rfl rfl (fun _ _ ho => ho)
        (fun t ht => ⟨h.tasks t ht, .inr ⟨t, ht, rfl, rfl⟩⟩) fun _ => .inl rfl

end

/-- In a run whose steps are in order, every waiter is completed by the answer to its own
command or, for a start, by a report gathered after the start was executed. -/
theorem answered_of_inOrder (ports : FreshPool) (localAddr : LocalAddr)
    (node : ChannelId → NodeUuid) (labels : List Label)
    (h : (exchange ports localAddr node).Meets InOrder (.boot ports) labels) :
    (exchange ports localAddr node).Always Answered (.boot ports) labels := by
  have hinv : (exchange ports localAddr node).Always Inv (.boot ports) labels :=
    Machine.always_of_meets (fun _ label _ hI hC hstep => hI.step label hC hstep)
      (boot_inv ports) h
  exact hinv.mono fun _ hI => hI.answered

/-! ## Parts of runs -/

/-- The status of a client that runs the container. -/
def statusWith (name : String) : NodeStatus :=
  { sampleStatus with runningContainers :=
      [{ containerName := name, image := "nginx", ports := [40000], status := "Up" }] }

def reports (ch : ChannelId) (status : NodeStatus) : List Label :=
  [.report ch status, .server (.message ch (.reportNodeStatus status))]

/-- The client executes a start, and reports before it answers. -/
def starts (ch : ChannelId) (name : String) : List Label :=
  [.receive ch, .task 0 none, .task 0 none, .task 0 none] ++ reports ch (statusWith name) ++
    [.task 0 none, .server (.message ch (.containerStarted name [40000]))]

def stops (ch : ChannelId) (name : String) : List Label :=
  [.receive ch, .task 0 none, .task 0 none, .server (.message ch (.containerStopped name))]

/-- A connection is created and deployed. -/
def deployed : List Label :=
  Kdct.Label.oneConnection.map .server ++ List.replicate 10 (.server (.attempt 0 false)) ++
    starts 0 "kdct-a-1" ++ List.replicate 7 (.server (.attempt 0 false))

/-- It is deleted, up to the wait for its container. -/
def deleting : List Label :=
  deployed ++ .server (.request false (.deleteConnection 1)) ::
    List.replicate 7 (.server (.api false))

end Exchange

set_option maxRecDepth 8000 in
theorem answered_of_inOrder_deleted :
    (exchange samplePool (fun _ => none) fun _ => "u").Always Exchange.Answered (.boot samplePool)
      (Exchange.deleting ++ Exchange.stops 0 "kdct-a-1") :=
  Exchange.answered_of_inOrder samplePool (fun _ => none) (fun _ => "u") _ (by decide)

set_option maxRecDepth 8000 in
/-- A report that the client gathers before it has stopped the container completes the
stop's waiter. -/
theorem reportDuringStop_completesStop :
    ¬(exchange samplePool (fun _ => none) fun _ => "u").Always Exchange.Answered
      (.boot samplePool)
      (Exchange.deleting ++ Exchange.reports 0 (Exchange.statusWith "kdct-a-1")) := by
  decide

end Kdct
