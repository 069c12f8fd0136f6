/-
The server with the containers on its nodes (`ImageStart` and `ImageStop` in
`ControlChannel::run`, `image_start` and `docker_stop` in `crates/tunnel/src/client.rs`).

Rows and containers are tied only by the commands a channel carries.  A client starts
a task for each, and the task reports back through the same channel.  A container may
stay when its connection moves on: a stop says nothing to a node that is away, and does
not look at what comes back.

A client that is away longer than its cache TTL stops its containers; here every
client comes back in time.
-/
import Kdct.Client.Forwarding
import Kdct.Server.Leaks
import Kdct.Server.Waiters

namespace Kdct

/-- A command on its way to a client, and the connection whose deploy or stop sent it. -/
structure Command where
  cmd : ControlChannelCmd
  connectionId : RowId
  deriving DecidableEq

/-- Where `image_start` is. -/
inductive StartPc
  /-- About to remove a container of the same name. -/
  | clean
  /-- About to look for the image, and to pull or build it. -/
  | image
  | run
  deriving DecidableEq

/-- A task a client has spawned for a command of a channel. -/
inductive DockerTask
  | start (ch : ChannelId) (connectionId : RowId) (start : ImageStart) (pc : StartPc)
  | stop (ch : ChannelId) (containerName : String)
  deriving DecidableEq

/-- A running container. -/
structure Container where
  /-- The client it runs on. -/
  node : NodeUuid
  name : String
  /-- The connection whose deploy started it. -/
  connectionId : RowId
  /-- Whether its node has disconnected since. -/
  survived : Bool
  deriving DecidableEq

structure Fleet where
  server : Server
  commands : ChannelId → List Command
  tasks : List DockerTask
  /-- Commands of the clients on their way to the server. -/
  replies : ChannelId → List ControlChannelCmd
  containers : List Container

/-- Docker names are unique on a client. -/
def Container.isAt (k : Container) (uuid : NodeUuid) (name : String) : Bool :=
  k.node = uuid && k.name = name

namespace Fleet

inductive Label
  | server (label : Kdct.Label)
  /-- The client reads a command. -/
  | receive (ch : ChannelId)
  /-- A task moves on, or fails with a message. -/
  | task (i : Nat) (error : Option String)
  /-- The client reports its status. -/
  | report (ch : ChannelId) (status : NodeStatus)
  deriving DecidableEq

/-- A server and clients with no containers. -/
def boot (ports : FreshPool) : Fleet where
  server := .boot .empty ports
  commands := fun _ => []
  tasks := []
  replies := fun _ => []
  containers := []

/-- The command a step of the server sends, if the channel still takes it. -/
def sends (s : Server) (label : Kdct.Label) : Option (ChannelId × Command) :=
  match s.movesDeploy label, s.movesStop label with
  | some (_, id, .send d env), _ =>
      if d.channel ∈ s.shared.closed then none
      else some (d.channel, { cmd := .imageStart (d.plan.imageStart env), connectionId := id })
  | _, some (_, id, .send info _ ch) =>
      if ch ∈ s.shared.closed then none
      else some (ch, { cmd := .imageStop info.containerName, connectionId := id })
  | _, _ => none

/-- A client registers under its own uuid, and the server handles what it gets. -/
def admits (node : ChannelId → NodeUuid) (f : Fleet) : Kdct.Label → Bool
  | .register uuid ch => node ch = uuid
  | .message ch cmd => (f.replies ch).head? = some cmd
  | _ => true

/-- What the channels and the containers are after a step of the server. -/
def carry (f : Fleet) (label : Kdct.Label) (t : Server) : Fleet :=
  let g : Fleet :=
    match sends f.server label with
    | some (ch, c) => { f with server := t,
                               commands := Function.update f.commands ch (f.commands ch ++ [c]) }
    | none => { f with server := t }
  match label with
  | .message ch _ => { g with replies := Function.update g.replies ch (g.replies ch).tail }
  | .event _ ⟨uuid, .disconnected _⟩ => { g with
      containers := g.containers.map fun k =>
        if k.node = uuid then { k with survived := true } else k }
  -- The connections end with the process.
  | .restart => { g with commands := fun _ => [], replies := fun _ => [] }
  | _ => g

def reply (f : Fleet) (ch : ChannelId) (cmd : ControlChannelCmd) : Fleet :=
  { f with replies := Function.update f.replies ch (f.replies ch ++ [cmd]) }

def removeContainer (f : Fleet) (uuid : NodeUuid) (name : String) : Fleet :=
  { f with containers := f.containers.filter fun k => !k.isAt uuid name }

/-- What a client spawns for a command. -/
def Command.task (ch : ChannelId) (c : Command) : Option DockerTask :=
  match c.cmd with
  | .imageStart start => some (.start ch c.connectionId start .clean)
  | .imageStop name => some (.stop ch name)
  | _ => none

/-- A step of a task, and where the task is then. -/
def taskStep (node : ChannelId → NodeUuid) (f : Fleet) (error : Option String) :
    DockerTask → Option (Fleet × Option DockerTask)
  | .start ch id start .clean =>
      -- Nobody looks at the result of `docker stop` and `docker rm`.
      some (if error.isNone then f.removeContainer (node ch) start.containerName else f,
        some (.start ch id start .image))
  | .start ch id start .image =>
      match error with
      | none => some (f, some (.start ch id start .run))
      | some text => some (f.reply ch (.containerError start.containerName text), none)
  | .start ch id start .run =>
      match error with
      | none =>
          -- Docker refuses a name that is in use.
          if f.containers.any fun k => k.isAt (node ch) start.containerName then none
          else
            let k : Container :=
              { node := node ch, name := start.containerName, connectionId := id,
                survived := false }
            some ({ f with containers := k :: f.containers }.reply ch
              (.containerStarted start.containerName (dockerRun start).2), none)
      | some text => some (f.reply ch (.containerError start.containerName text), none)
  | .stop ch name =>
      match error with
      | none =>
          if f.containers.any fun k => k.isAt (node ch) name then
            some ((f.removeContainer (node ch) name).reply ch (.containerStopped name), none)
          else none
      | some text => some (f.reply ch (.containerError name text), none)

def step (ports : FreshPool) (localAddr : LocalAddr) (node : ChannelId → NodeUuid) (f : Fleet) :
    Label → Option Fleet
  | .server label =>
      if admits node f label then (f.server.step ports localAddr label).map (f.carry label)
      else none
  | .receive ch =>
      match f.commands ch with
      | [] => none
      | c :: rest => some { f with commands := Function.update f.commands ch rest
                                   tasks := f.tasks ++ (Command.task ch c).toList }
  | .task i error =>
      f.tasks[i]?.bind fun task => (f.taskStep node error task).map fun (g, next) =>
        { g with tasks := f.tasks.take i ++ next.toList ++ f.tasks.drop (i + 1) }
  | .report ch status => some (f.reply ch (.reportNodeStatus status))

/-- The steps of a fleet. -/
inductive Step (ports : FreshPool) (localAddr : LocalAddr) (node : ChannelId → NodeUuid)
    (f : Fleet) : Label → Fleet → Prop
  | server {label s'} (hs' : f.server.step ports localAddr label = some s') :
      Step ports localAddr node f (.server label) (f.carry label s')
  | receive {ch c rest} (hcommands : f.commands ch = c :: rest) :
      Step ports localAddr node f (.receive ch)
        { f with commands := Function.update f.commands ch rest
                 tasks := f.tasks ++ (Command.task ch c).toList }
  | task {i error task g next} (htask : f.tasks[i]? = some task)
      (htaskStep : f.taskStep node error task = some (g, next)) :
      Step ports localAddr node f (.task i error)
        { g with tasks := f.tasks.take i ++ next.toList ++ f.tasks.drop (i + 1) }
  | report {ch status} :
      Step ports localAddr node f (.report ch status) (f.reply ch (.reportNodeStatus status))

theorem step_cases {ports : FreshPool} {localAddr : LocalAddr} {node : ChannelId → NodeUuid}
    {f g : Fleet} {label : Label} (hstep : f.step ports localAddr node label = some g) :
    f.Step ports localAddr node label g := by
  cases label with
  | server l =>
      simp only [step] at hstep
      split at hstep
      · obtain ⟨s', hs', rfl⟩ := Option.map_eq_some_iff.mp hstep
        exact .server hs'
      · cases hstep
  | receive ch =>
      simp only [step] at hstep
      split at hstep
      · cases hstep
      · rename_i c rest hcommands
        obtain rfl := Option.some.inj hstep
        exact .receive hcommands
  | task i error =>
      obtain ⟨task, htask, hstep⟩ := Option.bind_eq_some_iff.mp hstep
      obtain ⟨⟨g', next⟩, htaskStep, rfl⟩ := Option.map_eq_some_iff.mp hstep
      exact .task htask htaskStep
  | report ch status =>
      obtain rfl := Option.some.inj hstep
      exact .report

end Fleet

/-- `kdcts` with its nodes.  `node` is the client a channel belongs to. -/
def fleet (ports : FreshPool) (localAddr : LocalAddr) (node : ChannelId → NodeUuid) :
    Machine Fleet Fleet.Label where
  init := .boot ports
  step := Fleet.step ports localAddr node

/-! ## Whom a container belongs to -/

namespace Database

/-- The connection of the container has the node, and is deployed unless the container
is from before the node was away. -/
def Places (db : Database) (k : Container) : Prop :=
  ∃ c ∈ db.connections.rows, c.id = k.connectionId ∧ c.nodeId.bind db.nodeUuid? = some k.node ∧
    (c.status = .deployed ∨ k.survived = true)

instance (db : Database) (k : Container) : Decidable (db.Places k) :=
  inferInstanceAs (Decidable (∃ c ∈ db.connections.rows, _))

end Database

/-- Past the command that starts a container. -/
def DeployPc.launches : DeployPc → Bool
  | .wait _ | .giveUp .. => true
  | pc => pc.enters

/-- Where a stop no longer waits for its container. -/
def StopPc.pastWait : StopPc → Bool
  | .find .. => true
  | pc => pc.found

/-- Where a stop goes on without waiting, or from its wait. -/
def StopPc.goesOn (s : Shared) (fault : Bool) : StopPc → Bool
  | .node info => fault || (info.nodeId.bind s.db.getNodeById).isNone
  | .registry _ nodeUuid => (s.registry.lookup nodeUuid).isNone
  | .wait .. => true
  | _ => false

namespace Server

variable (s : Server)

/-- A deploy of the connection may start a container. -/
def Launching (id : RowId) : Prop := s.Running DeployPc.launches id

/-- A stop of the connection no longer waits for its container. -/
def stoppedWaiting (id : RowId) : Bool :=
  s.stopping.any fun q => q.2.1 = id && q.2.2.pastWait

/-- Somebody accounts for the container. -/
def Minds (k : Container) : Prop :=
  s.Launching k.connectionId ∨ s.stoppedWaiting k.connectionId = false ∧ s.shared.db.Places k

instance (id : RowId) : Decidable (s.Launching id) :=
  inferInstanceAs (Decidable (s.Running _ id))

instance (k : Container) : Decidable (s.Minds k) :=
  inferInstanceAs (Decidable (_ ∨ _))

end Server

namespace Fleet

variable (f : Fleet)

/-- No container is an orphan: on a node that is connected, while no deploy and no stop
is in flight, every container belongs to a connection of this node. -/
def NoOrphans : Prop :=
  f.server.Calm → ∀ k ∈ f.containers, k.node ∈ f.server.shared.registry.keys →
    f.server.shared.db.Places k

/-! ## What the steps have to respect -/

/-- The containers of the connection, also those on nodes that are away. -/
def Each (id : RowId) (P : Container → Prop) : Prop :=
  ∀ k ∈ f.containers, k.connectionId = id → P k

/-- When the deploy is over, another deploy or the row accounts for the containers. -/
def Leaves (call : CallId) (id : RowId) (row : Container → Prop) : Prop :=
  f.Each id fun k =>
    (∃ c < f.server.nextCall, c ≠ call ∧ f.server.RunsAt DeployPc.launches c id) ∨
      f.server.stoppedWaiting id = false ∧ row k

/-- A deploy that ends. -/
def MindsDeploy (label : Kdct.Label) : Prop :=
  match f.server.movesDeploy label with
  | some (call, id, .giveUp _ _) => f.Leaves call id f.server.shared.db.Places
  | some (call, id, .register _ ((p, _) :: _)) =>
      f.server.shared.registers p = false → f.Leaves call id f.server.shared.db.Places
  | some (call, id, .finish d) =>
      f.Leaves call id fun k =>
        if label.fault = false ∧ (f.server.shared.db.getNodeById d.plan.node.id).isSome = true then
          f.server.shared.db.HasRow id ∧ f.server.shared.db.nodeUuid? d.plan.node.id = some k.node
        else f.server.shared.db.Places k
  | _ => True

/-- A stop that goes on finds the container gone. -/
def MindsStop (label : Kdct.Label) : Prop :=
  match f.server.movesStop label with
  | some (_, id, pc) =>
      pc.goesOn f.server.shared label.fault = true → f.Each id fun _ => f.server.Launching id
  | none => True

/-- A row that is written. -/
def MindsRow (label : Kdct.Label) : Prop :=
  match label with
  | .sync false =>
      match f.server.sync with
      | .pend _ nodeId (cid :: _) => f.Each cid fun k =>
          f.server.Launching cid ∨
            f.server.shared.db.nodeUuid? nodeId = some k.node ∧ k.survived = true
      | _ => True
  | .api false =>
      match f.server.api with
      | .newSlots id slots | .patch id slots => ∀ node ∈ slots.nodeId,
          (f.server.shared.db.updateConnection id slots.bridgeId slots.imageId
            slots.nodeId).isSome = true → f.Each id fun k =>
              f.server.Launching id ∨ node.bind f.server.shared.db.nodeUuid? = some k.node
      | .delete id => f.Each id fun _ => f.server.Launching id
      | _ => True
  | _ => True

/-- A container that starts, and a server that does. -/
def MindsStart (node : ChannelId → NodeUuid) : Label → Prop
  | .task i none =>
      match f.tasks[i]? with
      | some (.start ch id start .run) => f.server.Minds
          { node := node ch, name := start.containerName, connectionId := id, survived := false }
      | _ => True
  | .server .restart => ∀ k ∈ f.containers, f.server.shared.db.Places k
  | _ => True

/-- The step of the server. -/
def Label.server? : Label → Option Kdct.Label
  | .server label => some label
  | _ => none

structure Mindful (node : ChannelId → NodeUuid) (label : Label) : Prop where
  deploy : ∀ l ∈ label.server?, f.MindsDeploy l
  stop : ∀ l ∈ label.server?, f.MindsStop l
  row : ∀ l ∈ label.server?, f.MindsRow l
  start : f.MindsStart node label

section

variable {f : Fleet} {id : RowId}

instance {P : Container → Prop} [∀ k, Decidable (P k)] :
    Decidable (f.Each id P) := by
  unfold Each
  infer_instance

instance {call : CallId} {row : Container → Prop} [∀ k, Decidable (row k)] :
    Decidable (f.Leaves call id row) := by
  unfold Leaves
  infer_instance

instance {label : Kdct.Label} : Decidable (f.MindsDeploy label) := by
  unfold MindsDeploy
  split <;> infer_instance

instance {label : Kdct.Label} : Decidable (f.MindsStop label) := by
  unfold MindsStop
  split <;> infer_instance

instance {label : Kdct.Label} : Decidable (f.MindsRow label) := by
  unfold MindsRow
  rcases label with _ | _
  case sync fault =>
    rcases fault with _ | _
    · dsimp only
      rcases f.server.sync with _ | _
      case pend uuid nodeId rest => rcases rest with _ | _ <;> dsimp only <;> infer_instance
      all_goals exact .isTrue trivial
    · exact .isTrue trivial
  case api fault =>
    rcases fault with _ | _
    · dsimp only
      rcases f.server.api with _ | _
      case newSlots | patch | delete => dsimp only; infer_instance
      all_goals exact .isTrue trivial
    · exact .isTrue trivial
  all_goals exact .isTrue trivial

instance {node : ChannelId → NodeUuid} {label : Label} : Decidable (f.MindsStart node label) := by
  unfold MindsStart
  repeat' split
  all_goals infer_instance

instance {node : ChannelId → NodeUuid} {label : Label} : Decidable (f.Mindful node label) :=
  decidable_of_iff ((∀ l ∈ label.server?, f.MindsDeploy l) ∧ (∀ l ∈ label.server?, f.MindsStop l) ∧
      (∀ l ∈ label.server?, f.MindsRow l) ∧ f.MindsStart node label)
    ⟨fun ⟨hd, hs, hr, hn⟩ => ⟨hd, hs, hr, hn⟩, fun ⟨hd, hs, hr, hn⟩ => ⟨hd, hs, hr, hn⟩⟩

end

end Fleet

/-! ## What a step of the server keeps -/

namespace Database

variable {db db' : Database} {k : Container}

/-- A row that stays keeps its containers. -/
theorem Places.stays {id : Option RowId} (h : db.Places k) (hrows : db.Stays db' id)
    (hnodes : db.KeepsNodes db') (hid : some k.connectionId ≠ id) : db'.Places k := by
  obtain ⟨c, hc, hkc, hnode, hstatus⟩ := h
  obtain ⟨c', hc', hid', hnode', hstatus'⟩ := hrows c hc (hkc ▸ hid)
  obtain ⟨n, hn, huuid⟩ := Option.bind_eq_some_iff.mp hnode
  refine ⟨c', hc', hid'.trans hkc, ?_, hstatus'.symm ▸ hstatus⟩
  rw [hnode', hn]
  exact hnodes n _ huuid

/-- A container that has survived is where it was. -/
theorem Places.survives (h : db.Places k) : db.Places { k with survived := true } := by
  obtain ⟨c, hc, hkc, hnode, -⟩ := h
  exact ⟨c, hc, hkc, hnode, .inr rfl⟩

/-- A row that a disconnect takes back. -/
theorem Places.pended {id nodeId : RowId} (h : db.Places k) (hk : k.connectionId = id)
    (hdb : db.updateConnectionNode id (some nodeId) .pending none = some db')
    (hnode : db'.nodeUuid? nodeId = some k.node) (hsurvived : k.survived = true) :
    db'.Places k := by
  obtain ⟨c, hc, hkc, -, -⟩ := h
  refine ⟨{ c with nodeId := some nodeId, status := .pending, containerName := none }, ?_, hkc,
    hnode, .inr hsurvived⟩
  rw [updateConnectionNode_eq hdb]
  exact List.mem_map.mpr ⟨c, hc, if_pos (beq_iff_eq.mpr (hkc.trans hk))⟩

/-- A row whose node slot is set to the node of the container. -/
theorem Places.updateConnection {id : RowId} {bridgeId imageId nodeId : Slot}
    (h : db.Places k) (hk : k.connectionId = id)
    (hdb : db.updateConnection id bridgeId imageId nodeId = some db')
    (hnode : ∀ node ∈ nodeId, node.bind db.nodeUuid? = some k.node) : db'.Places k := by
  obtain ⟨c, hc, hkc, hold, hstatus⟩ := h
  unfold Database.updateConnection at hdb
  have hfind : db.connections.find? id = some c :=
    Table.find?_eq_some.mpr ⟨hc, hkc.trans hk⟩
  simp only [hfind] at hdb
  split at hdb
  · obtain rfl := Option.some.inj hdb
    refine ⟨_, List.mem_map_of_mem hc, ?_⟩
    rw [if_pos (beq_iff_eq.mpr (hkc.trans hk))]
    refine ⟨hkc, ?_, hstatus⟩
    cases nodeId with
    | none => exact hold
    | some node => exact hnode node rfl
  · cases hdb

end Database

namespace Shared

variable {s t : Shared} {call : CallId} {id : RowId} {fault : Bool}

/-- A stop only leaves its wait, or the part before it, where `goesOn` says so. -/
theorem stopStep_goesOn {pc pc' : StopPc} (h : s.stopStep call id fault pc = some (t, some pc'))
    (hpc : pc.pastWait = false) (hpc' : pc'.pastWait = true) : pc.goesOn s fault = true := by
  cases pc with
  | start =>
      simp only [stopStep] at h
      repeat' split at h
      all_goals first
        | cases h
          done
        | obtain ⟨rfl, hnext⟩ := Prod.mk.inj (Option.some.inj h)
          obtain rfl := Option.some.inj hnext
          cases hpc'
  | node info =>
      simp only [stopStep] at h
      split at h
      · rename_i hnone
        cases fault with
        | true => rfl
        | false =>
            show Option.isNone _ = true
            simpa using hnone
      · obtain ⟨rfl, hnext⟩ := Prod.mk.inj (Option.some.inj h)
        obtain rfl := Option.some.inj hnext
        cases hpc'
  | registry info nodeUuid =>
      simp only [stopStep] at h
      split at h
      · rename_i hnone
        simp [StopPc.goesOn, hnone]
      · obtain ⟨rfl, hnext⟩ := Prod.mk.inj (Option.some.inj h)
        obtain rfl := Option.some.inj hnext
        cases hpc'
  | insert info nodeUuid ch | send info nodeUuid ch =>
      obtain ⟨rfl, hnext⟩ := Prod.mk.inj (Option.some.inj h)
      obtain rfl := Option.some.inj hnext
      cases hpc'
  | wait info nodeUuid => rfl
  | _ => cases hpc

/-- A deploy that may start a container does so until it gives up, cannot register a
route or is through. -/
theorem DeployStep.launches {pc : DeployPc} {next : DeployNext}
    (h : DeployStep s call id fault pc t next) (hpc : pc.launches = true) :
    (∃ pc', next = .goto pc' ∧ pc'.launches = true) ∨ (∃ d e, pc = .giveUp d e) ∨
      (∃ d p clientPort rest, pc = .register d ((p, clientPort) :: rest) ∧ s.registers p = false) ∨
        ∃ d, pc = .finish d := by
  by_cases henters : pc.enters = true
  · rcases h.enters henters with ⟨pc', rfl, hpc'⟩ | hregister | hfinish
    · refine .inl ⟨pc', rfl, ?_⟩
      cases pc' <;> first | rfl | cases hpc'
    · exact .inr (.inr (.inl hregister))
    · exact .inr (.inr (.inr hfinish))
  · cases h
    case answered d reply hreply => exact .inl ⟨_, rfl, rfl⟩
    case dropped d hclosed => exact .inl ⟨_, rfl, rfl⟩
    case timedOut d hwaiting => exact .inl ⟨_, rfl, rfl⟩
    case gaveUp d e => exact .inr (.inl ⟨d, e, rfl⟩)
    case refused e hrefuses =>
      cases pc <;> first
        | exact Bool.noConfusion hrefuses
        | exact absurd rfl henters
        | cases hpc
    all_goals first
      | exact absurd rfl henters
      | cases hpc

end Shared

/-! ## Every step -/

namespace Server

variable {ports : FreshPool} {localAddr : LocalAddr} {s s' : Server} {label : Kdct.Label}
  {k : Container}

/-- A step that moves neither a deploy that may start the container nor a stop. -/
theorem Minds.congr (h : s.Minds k) (hcalls : s.nextCall ≤ s'.nextCall)
    (hdeploys : ∀ call < s.nextCall, s'.deploys call = s.deploys call)
    (hstop : s.stoppedWaiting k.connectionId = false → s'.stoppedWaiting k.connectionId = false)
    (hdb : s.shared.db.Places k → s'.shared.db.Places k) : s'.Minds k := by
  rcases h with hlaunching | ⟨hwaits, hplaces⟩
  · exact .inl (hlaunching.congr hcalls hdeploys)
  · exact .inr ⟨hstop hwaits, hdb hplaces⟩

theorem stoppedWaiting_congr (h : s'.stopping = s.stopping) (id : RowId) :
    s'.stoppedWaiting id = s.stoppedWaiting id := by
  rw [stoppedWaiting, h, stoppedWaiting]

theorem stoppedWaiting_none (h : s.stopping = none) (id : RowId) : s.stoppedWaiting id = false := by
  rw [stoppedWaiting, h]
  rfl

theorem Minds.survives (h : s.Minds k) : s.Minds { k with survived := true } :=
  h.imp_right fun ⟨hwaits, hplaces⟩ => ⟨hwaits, hplaces.survives⟩

end Server

namespace Fleet

variable {ports : FreshPool} {localAddr : LocalAddr} {f : Fleet} {s' : Server} {label : Kdct.Label}
  {k : Container}

theorem Leaves.row {call : CallId} {id : RowId} {row : Container → Prop}
    (h : f.Leaves call id row) (hk : k ∈ f.containers) (hid : k.connectionId = id) {p : Prop}
    (hp : row k → p) :
    (∃ c < f.server.nextCall, c ≠ call ∧ f.server.RunsAt DeployPc.launches c id) ∨
      f.server.stoppedWaiting id = false ∧ p :=
  (h k hk hid).imp_right fun ⟨hwaits, hrow⟩ => ⟨hwaits, hp hrow⟩

/-- A deploy that may have started a container and ends. -/
theorem leaves_of_minds (hC : f.MindsDeploy label)
    (hstep : f.server.step ports localAddr label = some s')
    {call : CallId} {id : RowId} {pc : DeployPc} {t : Shared} {next : DeployNext}
    (hmoves : f.server.movesDeploy label = some (call, id, pc))
    (hdeploy : f.server.shared.DeployStep call id label.fault pc t next)
    (hshared : s'.shared = t.endCall call id next) (hlaunches : pc.launches = true)
    (hends : ∀ pc', next = .goto pc' → pc'.launches = false)
    (hnodes : f.server.shared.db.KeepsNodes s'.shared.db)
    (hk : k ∈ f.containers)
    (hid : k.connectionId = id) :
    (∃ c < f.server.nextCall, c ≠ call ∧ f.server.RunsAt DeployPc.launches c id) ∨
      f.server.stoppedWaiting id = false ∧ s'.shared.db.Places k := by
  have hkeep : ∀ (_ : ∀ d, pc ≠ .finish d), f.server.shared.db.Places k →
      s'.shared.db.Places k := by
    intro hne hplaces
    rcases hdeploy.stays with hstays | ⟨d, -, hpc, -⟩
    · exact hplaces.stays (hshared ▸ hstays) hnodes (Option.some_ne_none _)
    · exact absurd hpc (hne d)
  rcases hdeploy.launches hlaunches with
    ⟨pc', rfl, hpc'⟩ | ⟨d, e, rfl⟩ | ⟨d, p, clientPort, rest, rfl, hregisters⟩ | ⟨d, rfl⟩
  · rw [hends pc' rfl] at hpc'
    cases hpc'
  · simp only [MindsDeploy, hmoves] at hC
    exact hC.row hk hid (hkeep (by simp))
  · simp only [MindsDeploy, hmoves] at hC
    exact (hC hregisters).row hk hid (hkeep (by simp))
  · simp only [MindsDeploy, hmoves] at hC
    refine hC.row hk hid fun hrow => ?_
    split at hrow
    · rename_i hgood
      obtain ⟨hfault, hnode⟩ := hgood
      obtain ⟨hhas, huuid⟩ := hrow
      obtain ⟨u, next', hstep', hshared'⟩ := Server.deployStep_of_step hstep hmoves
      rw [hfault] at hstep'
      have hdb := Shared.deployStep_finish hstep' hnode
      obtain ⟨log, hlog⟩ := u.endCall_frame call id next'
      obtain ⟨c, hc, hcid⟩ := hhas
      have hrows : s'.shared.db = u.db := by rw [hshared', hlog]
      refine ⟨{ c with nodeId := some d.plan.node.id, status := .deployed,
                       containerName := some d.plan.containerName },
        ?_, hcid.trans hid.symm, hnodes _ _ huuid, .inl rfl⟩
      rw [hrows, Database.updateConnectionNode_eq hdb]
      exact List.mem_map.mpr ⟨c, hc, if_pos (beq_iff_eq.mpr hcid)⟩
    · rename_i hbad
      rcases hdeploy.stays with hstays | ⟨d', hfault, hpc, hset⟩
      · exact hrow.stays (hshared ▸ hstays) hnodes (Option.some_ne_none _)
      · -- The node is gone, so there was no row to write.
        obtain rfl := DeployPc.finish.inj hpc
        obtain ⟨c, hc, hcid, -⟩ := hrow
        have hfind : f.server.shared.db.connections.find? id = some c :=
          Table.find?_eq_some.mpr ⟨hc, hcid.trans hid⟩
        unfold Database.updateConnectionNode at hset
        rw [hfind] at hset
        split at hset
        · rename_i hnode
          exact absurd ⟨hfault, by simpa [Database.getNodeById] using hnode⟩ hbad
        · cases hset

/-- A step of a deploy. -/
theorem minds_deploy (hC : f.MindsDeploy label)
    (hstep : f.server.step ports localAddr label = some s')
    {call : CallId} {id : RowId} {pc : DeployPc} {t : Shared} {next : DeployNext}
    (hmoves : f.server.movesDeploy label = some (call, id, pc))
    (hpc : f.server.deploys call = some (id, pc))
    (hdeploy : f.server.shared.DeployStep call id label.fault pc t next)
    (hshared : s'.shared = t.endCall call id next)
    (hdeploys : s'.deploys =
      Function.update f.server.deploys call (next.pc?.map fun pc => (id, pc)))
    (hstopping : s'.stopping = f.server.stopping) (hcalls : s'.nextCall = f.server.nextCall)
    (hnodes : f.server.shared.db.KeepsNodes s'.shared.db)
    (hk : k ∈ f.containers)
    (h : f.server.Minds k) : s'.Minds k := by
  have hstops := Server.stoppedWaiting_congr hstopping k.connectionId
  have hends : k.connectionId = id → pc.launches = true →
      (∀ pc', next = .goto pc' → pc'.launches = false) → s'.Minds k := by
    intro hid hlaunches hnext
    rcases leaves_of_minds hC hstep hmoves hdeploy hshared hlaunches hnext hnodes hk hid with
      ⟨c, hlt, hne, p, hp, hat⟩ | ⟨hwaits, hplaces⟩
    · refine .inl ⟨c, hcalls ▸ hlt, p, ?_, hid ▸ hat⟩
      rw [hdeploys, Function.update_of_ne hne]
      exact hp
    · exact .inr ⟨hstops.trans (hid ▸ hwaits), hplaces⟩
  rcases h with hlaunching | ⟨hwaits, hplaces⟩
  · rcases hlaunching.deploy hpc hcalls hdeploys with hlaunching | ⟨hid, hlaunches, hnext⟩
    · exact .inl hlaunching
    · exact hends hid hlaunches hnext
  · have hkept : ∀ i, f.server.shared.db.Stays s'.shared.db i → some k.connectionId ≠ i →
        s'.Minds k := fun i hstays hi =>
      .inr ⟨hstops.trans hwaits, hplaces.stays hstays hnodes hi⟩
    rcases hdeploy.stays with hstays | ⟨d, -, rfl, hset⟩
    · exact hkept none (hshared ▸ hstays) (Option.some_ne_none _)
    · by_cases hid : k.connectionId = id
      · refine hends hid rfl ?_
        rintro pc' rfl
        cases hdeploy
      · exact hkept (some id) (hshared ▸ .updateConnectionNode hset) fun heq =>
          hid (Option.some.inj heq)

/-- A step of a stop. -/
theorem minds_stop (hC : f.MindsStop label)
    (hstep : f.server.step ports localAddr label = some s')
    {call : CallId} {id : RowId} {pc : StopPc} {next : StopNext}
    (hmoves : f.server.movesStop label = some (call, id, pc))
    (hpc : f.server.stopping = some (call, id, pc))
    (hstop : f.server.shared.StopStep call id label.fault pc s'.shared next)
    (hdeploys : s'.deploys = f.server.deploys) (hcalls : s'.nextCall = f.server.nextCall)
    (hnodes : f.server.shared.db.KeepsNodes s'.shared.db)
    (hk : k ∈ f.containers)
    (h : f.server.Minds k) : s'.Minds k := by
  obtain ⟨t, next', hstopStep, hshared', hstopping, -⟩ :=
    Server.stopStep_of_step hstep hmoves
  have hkept : f.server.Launching k.connectionId → s'.Minds k := fun hlaunching =>
    .inl (hlaunching.congr (Nat.le_of_eq hcalls.symm) fun c _ => by rw [hdeploys])
  rcases h with hlaunching | ⟨hwaits, hplaces⟩
  · exact hkept hlaunching
  by_cases hid : k.connectionId = id
  · have hbefore : pc.pastWait = false := by
      rw [Server.stoppedWaiting, hpc] at hwaits
      simpa [hid] using hwaits
    have hfound : pc.found = false := by
      cases pc <;> first | rfl | cases hbefore
    by_cases hpast : ∃ pc', next' = some pc' ∧ pc'.pastWait = true
    · obtain ⟨pc', rfl, hpc'⟩ := hpast
      simp only [MindsStop, hmoves] at hC
      exact hkept (hid ▸ hC (Shared.stopStep_goesOn hstopStep hbefore hpc') k hk hid)
    · refine .inr ⟨?_, ?_⟩
      · rw [Server.stoppedWaiting, hstopping]
        cases next' with
        | none => rfl
        | some pc' =>
            have hno : pc'.pastWait = false :=
              Bool.eq_false_iff.mpr fun hpc' => hpast ⟨pc', rfl, hpc'⟩
            simp [hno]
      · rw [hstop.stays.2 hfound]
        exact hplaces
  · refine .inr ⟨?_, hplaces.stays hstop.stays.1 hnodes fun heq => hid (Option.some.inj heq)⟩
    rw [Server.stoppedWaiting, hstopping]
    cases next' <;> simp [Ne.symm hid]

/-- A step of the server that is not a restart. -/
theorem minds_step (hdeployC : f.MindsDeploy label) (hstopC : f.MindsStop label)
    (hrowC : f.MindsRow label) (hfresh : f.server.Fresh)
    (hstep : f.server.step ports localAddr label = some s') (hne : label ≠ .restart)
    (hk : k ∈ f.containers)
    (h : f.server.Minds k) : s'.Minds k := by
  obtain ⟨hmove, -⟩ := Server.step_move hfresh hstep
  have hnodes := hmove.keepsNodes
  cases hmove with
  | deploy hmoves hpc hdeploy hshared hdeploys hstopping _ hcalls =>
      exact minds_deploy hdeployC hstep hmoves hpc hdeploy hshared hdeploys hstopping hcalls hnodes
        hk h
  | stop _ hmoves hpc hstop hshared hdeploys _ _ hcalls =>
      exact minds_stop hstopC hstep hmoves hpc (hshared ▸ hstop) hdeploys hcalls hnodes hk h
  | start _ hshared hdeploys hstopping _ hcalls =>
      refine h.congr (hcalls ▸ Nat.le_succ _) (fun c hc => ?_)
        (by rw [Server.stoppedWaiting_congr hstopping]; exact id) (hshared ▸ id)
      rw [hdeploys, Function.update_of_ne (Nat.ne_of_lt hc)]
  | startStop _ hshared hdeploys hnone hstopping _ hcalls =>
      refine h.congr (hcalls ▸ Nat.le_succ _) (fun c _ => by rw [hdeploys]) (fun _ => ?_)
        (hshared ▸ id)
      rw [Server.stoppedWaiting, hstopping]
      simp [StopPc.pastWait, StopPc.found]
  | @request fault r _ _ hshared hdeploys hnone hstopping _ hcalls =>
      refine h.congr (Nat.le_of_eq hcalls.symm) (fun c _ => by rw [hdeploys])
        (fun _ => Server.stoppedWaiting_none hstopping _) fun hplaces => ?_
      have hstays : f.server.shared.db.Stays s'.shared.db none := by
        rw [hshared]
        exact (f.server.shared.request_write fault r).stays
      exact hplaces.stays hstays hnodes (Option.some_ne_none _)
  | @handler fault _ t pc hhandler hshared hdeploys hnone hstopping _ hcalls =>
      have hdeploysCongr : ∀ c < f.server.nextCall, s'.deploys c = f.server.deploys c :=
        fun c _ => by rw [hdeploys]
      have hkept : (f.server.shared.db.Places k → s'.shared.db.Places k) →
          s'.Minds k :=
        h.congr (Nat.le_of_eq hcalls.symm) hdeploysCongr fun _ =>
          Server.stoppedWaiting_none hstopping _
      have hlaunches : f.server.Launching k.connectionId → s'.Minds k := fun hlaunching =>
        .inl (hlaunching.congr (Nat.le_of_eq hcalls.symm) hdeploysCongr)
      have hwrite := (Shared.handlerStep_write hhandler).stays
      rw [← hshared] at hwrite
      rcases hwrite with hstays | ⟨id, slots, rfl, hapi, hset⟩ | ⟨id, rfl, hapi, hdb⟩
      · exact hkept fun hplaces => hplaces.stays hstays hnodes (Option.some_ne_none _)
      · by_cases hid : k.connectionId = id
        · have hslots : ∀ node ∈ slots.nodeId, f.server.Launching id ∨
              node.bind f.server.shared.db.nodeUuid? = some k.node := by
            intro node hnode
            have hsome := Option.isSome_iff_exists.mpr ⟨_, hset⟩
            rcases hapi with hapi | hapi <;>
              · simp only [MindsRow, hapi] at hrowC
                exact hrowC node hnode hsome k hk hid
          by_cases hlaunching : f.server.Launching id
          · exact hlaunches (hid ▸ hlaunching)
          · exact hkept fun hplaces => hplaces.updateConnection hid hset fun node hnode =>
              (hslots node hnode).resolve_left hlaunching
        · exact hkept fun hplaces => hplaces.stays (.updateConnection hset) hnodes fun heq =>
            hid (Option.some.inj heq)
      · by_cases hid : k.connectionId = id
        · simp only [MindsRow, hapi] at hrowC
          exact hlaunches (hid ▸ hrowC k hk hid)
        · exact hkept fun hplaces => hplaces.stays (hdb ▸ .deleteConnection id) hnodes fun heq =>
            hid (Option.some.inj heq)
  | @event fault update _ _ hshared hdeploys hstopping _ hcalls =>
      refine h.congr (Nat.le_of_eq hcalls.symm) (fun c _ => by rw [hdeploys])
        (by rw [Server.stoppedWaiting_congr hstopping]; exact id) fun hplaces => ?_
      obtain ⟨clientNodes, hframe⟩ := f.server.shared.syncEvent_frame fault update
      refine hplaces.stays (.of_eq ?_) hnodes (Option.some_ne_none _)
      rw [hshared, hframe]
  | @sync fault _ t pc hsync hshared hdeploys hstopping _ hcalls =>
      have hkept : (f.server.shared.db.Places k → s'.shared.db.Places k) →
          s'.Minds k :=
        h.congr (Nat.le_of_eq hcalls.symm) (fun c _ => by rw [hdeploys])
          (by rw [Server.stoppedWaiting_congr hstopping]; exact id)
      have hstays := hsync.stays
      rw [← hshared] at hstays
      rcases hstays with hstays | ⟨uuid', nodeId, cid, rest, rfl, hpc, hset⟩
      · exact hkept fun hplaces => hplaces.stays hstays hnodes (Option.some_ne_none _)
      · by_cases hid : k.connectionId = cid
        · simp only [MindsRow, hpc] at hrowC
          rcases hrowC k hk hid with hlaunching | ⟨huuid, hsurvived⟩
          · exact .inl ((hid ▸ hlaunching).congr (Nat.le_of_eq hcalls.symm)
              fun c _ => by rw [hdeploys])
          · exact hkept fun hplaces => hplaces.pended hid hset (hnodes _ _ huuid) hsurvived
        · exact hkept fun hplaces => hplaces.stays (.updateConnectionNode hset) hnodes fun heq =>
            hid (Option.some.inj heq)
  | surroundings _ hsurr hdeploys hstopping _ hcalls =>
      refine h.congr (Nat.le_of_eq hcalls.symm) (fun c _ => by rw [hdeploys])
        (by rw [Server.stoppedWaiting_congr hstopping]; exact id) fun hplaces => ?_
      exact hplaces.stays hsurr.stays hnodes (Option.some_ne_none _)
  | restart => exact absurd rfl hne

/-! ## The clients -/

variable {node : ChannelId → NodeUuid}

@[simp] theorem carry_server (t : Server) : (f.carry label t).server = t := by
  unfold carry
  generalize sends f.server label = sent
  cases sent
  all_goals
    dsimp only
    split <;> rfl

/-- A step of the server leaves the containers, but a disconnect marks them. -/
theorem mem_carry {t : Server} (h : k ∈ (f.carry label t).containers) :
    ∃ k₀ ∈ f.containers, k = k₀ ∨ k = { k₀ with survived := true } := by
  unfold carry at h
  generalize sends f.server label = sent at h
  cases sent
  all_goals
    dsimp only at h
    split at h
    case h_2 fault uuid host =>
      obtain ⟨k₀, hk₀, rfl⟩ := List.mem_map.mp h
      refine ⟨k₀, hk₀, ?_⟩
      split
      · exact .inr rfl
      · exact .inl rfl
    all_goals exact ⟨k, h, .inl rfl⟩

/-- A task only starts the container of its command. -/
theorem mem_taskStep {error : Option String} {task : DockerTask} {g : Fleet}
    {next : Option DockerTask} (h : f.taskStep node error task = some (g, next)) :
    g.server = f.server ∧ g.commands = f.commands ∧ ∀ k ∈ g.containers, k ∈ f.containers ∨
      ∃ ch id start, task = .start ch id start .run ∧ error = none ∧
        k = { node := node ch, name := start.containerName, connectionId := id,
              survived := false } := by
  have hremove : ∀ uuid name, ∀ k ∈ (f.removeContainer uuid name).containers, k ∈ f.containers :=
    fun _ _ _ hk => (List.mem_filter.mp hk).1
  cases task with
  | start ch id start pc =>
      cases pc with
      | clean =>
          obtain ⟨rfl, -⟩ := Prod.mk.inj (Option.some.inj h)
          split
          · exact ⟨rfl, rfl, fun k hk => .inl (hremove _ _ k hk)⟩
          · exact ⟨rfl, rfl, fun k hk => .inl hk⟩
      | image =>
          simp only [taskStep] at h
          split at h
          all_goals
            obtain ⟨rfl, -⟩ := Prod.mk.inj (Option.some.inj h)
            exact ⟨rfl, rfl, fun _ hk => .inl hk⟩
      | run =>
          simp only [taskStep] at h
          repeat' split at h
          · cases h
          · obtain ⟨rfl, -⟩ := Prod.mk.inj (Option.some.inj h)
            refine ⟨rfl, rfl, fun k hk => ?_⟩
            rcases List.mem_cons.mp hk with rfl | hk
            · exact .inr ⟨ch, id, start, rfl, rfl, rfl⟩
            · exact .inl hk
          · obtain ⟨rfl, -⟩ := Prod.mk.inj (Option.some.inj h)
            exact ⟨rfl, rfl, fun _ hk => .inl hk⟩
  | stop ch name =>
      simp only [taskStep] at h
      repeat' split at h
      · obtain ⟨rfl, -⟩ := Prod.mk.inj (Option.some.inj h)
        exact ⟨rfl, rfl, fun k hk => .inl (hremove _ _ k hk)⟩
      · cases h
      · obtain ⟨rfl, -⟩ := Prod.mk.inj (Option.some.inj h)
        exact ⟨rfl, rfl, fun _ hk => .inl hk⟩

structure Minded (f : Fleet) : Prop where
  fresh : f.server.Fresh
  minds : ∀ k ∈ f.containers, f.server.Minds k

/-- A step of the server. -/
theorem minded_server {l : Kdct.Label} (h : f.Minded) (hC : f.Mindful node (.server l))
    (hstep : f.server.step ports localAddr l = some s') : (f.carry l s').Minded := by
  obtain ⟨hmove, hfresh⟩ := Server.step_move h.fresh hstep
  refine ⟨by rw [carry_server]; exact hfresh, fun k hk => ?_⟩
  rw [carry_server]
  obtain ⟨k₀, hk₀, hold⟩ := mem_carry hk
  have hminds : s'.Minds k₀ := by
    by_cases hrestart : l = .restart
    · subst hrestart
      obtain rfl := Option.some.inj hstep
      exact .inr ⟨rfl, (hC.start k₀ hk₀).stays (.of_eq rfl) hmove.keepsNodes
        (Option.some_ne_none k₀.connectionId)⟩
    · exact minds_step (hC.deploy l rfl) (hC.stop l rfl) (hC.row l rfl) h.fresh hstep hrestart
        hk₀ (h.minds k₀ hk₀)
  rcases hold with rfl | rfl
  · exact hminds
  · exact hminds.survives

theorem minded_step {label : Label} {g : Fleet} (h : f.Minded) (hC : f.Mindful node label)
    (hstep : f.step ports localAddr node label = some g) : g.Minded := by
  cases step_cases hstep with
  | server hs' => exact minded_server h hC hs'
  | receive | report => exact ⟨h.fresh, h.minds⟩
  | task htask htaskStep =>
      obtain ⟨hserver, -, hmem⟩ := mem_taskStep htaskStep
      refine ⟨by rw [hserver]; exact h.fresh, fun k hk => ?_⟩
      rw [hserver]
      rcases hmem k hk with hk | ⟨ch, id, start, rfl, rfl, rfl⟩
      · exact h.minds k hk
      · have hstart := hC.start
        simp only [MindsStart, htask] at hstart
        exact hstart

theorem minded_boot (ports : FreshPool) : (boot ports).Minded :=
  ⟨(Server.tidyInv_boot ports).fresh, fun _ hk => absurd hk List.not_mem_nil⟩

/-- With nothing in flight only the rows account for the containers. -/
theorem Minded.noOrphans (h : f.Minded) : f.NoOrphans := by
  intro hcalm k hk _
  rcases h.minds k hk with ⟨call, hlt, q, hq, -⟩ | ⟨-, hplaces⟩
  · rw [hcalm.1 call hlt] at hq
    cases hq
  · exact hplaces

end Fleet

namespace Fleet

/-! ## Parts of runs -/

/-- The container of a deploy starts on the client of the channel. -/
def starts (ch : ChannelId) (name : String) : List Label :=
  [.receive ch, .task 0 none, .task 0 none, .task 0 none,
    .server (.message ch (.containerStarted name [40000]))]

def stops (ch : ChannelId) (name : String) : List Label :=
  [.receive ch, .task 0 none, .server (.message ch (.containerStopped name))]

/-- A node disconnects, and the sync task handles it. -/
def leaves (uuid : NodeUuid) (ch : ChannelId) (steps : Nat) : List Label :=
  .server (.unregister uuid) :: .server (.closeChannel ch) ::
    .server (.event false ⟨uuid, .disconnected "h"⟩) :: List.replicate steps (.server (.sync false))

/-- A connection is created and deployed. -/
def deployed : List Label :=
  Kdct.Label.oneConnection.map .server ++ List.replicate 10 (.server (.attempt 0 false)) ++
    starts 0 "kdct-a-1" ++ List.replicate 7 (.server (.attempt 0 false))

/-- Its node is away for a while, it is deployed again, and it is deleted. -/
def awayAndDeleted : List Label :=
  deployed ++ leaves "u" 0 12 ++ (Kdct.Label.connects "u" 1).map .server ++
    .server (.request false .autoCheck) :: List.replicate 12 (.server (.api false)) ++
      starts 1 "kdct-a-1" ++ List.replicate 8 (.server (.api false)) ++
        .server (.request false (.deleteConnection 1)) ::
          List.replicate 7 (.server (.api false)) ++ stops 1 "kdct-a-1" ++
            List.replicate 9 (.server (.api false))

/-- A connection loses its node while the node is away. -/
def movedWhileAway : List Label :=
  deployed ++ leaves "u" 0 12 ++
    [.server (.request false (.patchConnection 1
      { bridgeId := none, imageId := none, nodeId := some none })), .server (.api false),
      .server (.api false), .server (.api false), .server (.attempt 1 false)] ++
        (Kdct.Label.connects "u" 1).map .server

end Fleet

end Kdct
