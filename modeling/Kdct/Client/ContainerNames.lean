/-
The containers that a client removes (`image_start` and `docker_container_exists` in
`crates/tunnel/src/client.rs`).

A task that is to start a container first removes the one that has its name.  The name is
the one in the task's command, and the deploy that sent the command built it.  So the
container that is removed is one that an earlier deploy of the same connection started,
and no waiter, of this node or of another, is ever under a name of two connections.
-/
import Kdct.Server.ContainerNames
import Kdct.Client.Containers

namespace Kdct

namespace Fleet

/-! ## Removing what is there -/

section

variable (lists : String → String → Bool) (f : Fleet) (uuid : NodeUuid) (name : String)

/-- `lists` is the name filter of `docker ps`. -/
def dockerContainerExists : Bool :=
  f.containers.any fun k => k.node = uuid && lists ("name=^" ++ name ++ "$") k.name

/-- What the first part of `image_start` leaves of the containers.  `removed` is whether
Docker has done what it was asked for. -/
def cleanDeploy (removed : Bool) : Fleet :=
  if f.dockerContainerExists lists uuid name && removed then f.removeContainer uuid name else f

end

section

variable {f : Fleet} {uuid : NodeUuid} {name : String} {k : Container}

theorem removeContainer_of_not_isAt (h : ∀ k ∈ f.containers, k.isAt uuid name = false) :
    f.removeContainer uuid name = f := by
  have hcontainers : f.containers.filter (fun k => !k.isAt uuid name) = f.containers :=
    List.filter_eq_self.mpr fun k hk => by rw [h k hk, Bool.not_false]
  rw [removeContainer, hcontainers]

/-- Only a container of the name is removed, whatever the filter lists. -/
theorem mem_cleanDeploy (hk : k ∈ f.containers) (hname : k.name ≠ name)
    (lists : String → String → Bool) (removed : Bool) :
    k ∈ (f.cleanDeploy lists uuid name removed).containers := by
  unfold cleanDeploy
  split
  · have hat : k.isAt uuid name = false := by simp [Container.isAt, hname]
    exact List.mem_filter.mpr ⟨hk, by rw [hat, Bool.not_false]⟩
  · exact hk

/-- The first step of a task does what `image_start` does. -/
theorem taskStep_clean_iff {node : ChannelId → NodeUuid} {ch : ChannelId} {id : RowId}
    {start : ImageStart} {g : Fleet} {next : Option DockerTask} :
    (∃ error, f.taskStep node error (.start ch id start .clean) = some (g, next)) ↔
      next = some (.start ch id start .image) ∧
        ∃ lists removed, g = f.cleanDeploy lists (node ch) start.containerName removed := by
  constructor
  · rintro ⟨error, h⟩
    obtain ⟨rfl, rfl⟩ := Prod.mk.inj (Option.some.inj h)
    refine ⟨rfl, fun _ found => found = start.containerName, error.isNone, ?_⟩
    unfold cleanDeploy
    by_cases hexists : f.containers.any fun k => k.isAt (node ch) start.containerName
    · have hfound : f.dockerContainerExists (fun _ found => found = start.containerName)
          (node ch) start.containerName = true := hexists
      rw [hfound, Bool.true_and]
    · have hnone : ∀ k ∈ f.containers, k.isAt (node ch) start.containerName = false :=
        fun k hk => Bool.eq_false_iff.mpr fun hat => hexists (List.any_eq_true.mpr ⟨k, hk, hat⟩)
      rw [removeContainer_of_not_isAt hnone, ite_self, ite_self]
  · rintro ⟨rfl, lists, removed, rfl⟩
    unfold cleanDeploy
    cases f.dockerContainerExists lists (node ch) start.containerName && removed with
    | true => exact ⟨none, rfl⟩
    | false => exact ⟨some "", rfl⟩

end

/-! ## What a run uses names for -/

/-- A container that a task is about to remove, and the connection the task is for. -/
structure Removal where
  node : NodeUuid
  containerName : String
  connectionId : RowId
  deriving DecidableEq

def pendingKey (f : Fleet) (label : Label) : Option PendingKey :=
  label.server?.bind f.server.pendingKey

variable (node : ChannelId → NodeUuid)

/-- The container that a step removes if it is there. -/
def removal (f : Fleet) : Label → Option Removal
  | .task i _ =>
      match f.tasks[i]? with
      | some (.start ch id start .clean) =>
          some { node := node ch, containerName := start.containerName, connectionId := id }
      | _ => none
  | _ => none

/-- The container that a step starts. -/
def started (f : Fleet) : Label → Option Container
  | .task i none =>
      match f.tasks[i]? with
      | some (.start ch id start .run) =>
          some { node := node ch, name := start.containerName, connectionId := id,
                 survived := false }
      | _ => none
  | _ => none

/-- The tasks that are about to remove a container leave those of other connections. -/
def KeepsOthers (f : Fleet) : Prop :=
  ∀ ch id start, .start ch id start .clean ∈ f.tasks → ∀ lists removed, ∀ k ∈ f.containers,
    k.connectionId ≠ id →
      k ∈ (f.cleanDeploy lists (node ch) start.containerName removed).containers

/-! ## Names on their way -/

/-- Commands, tasks and containers have names of their own connections. -/
structure OwnNames (f : Fleet) : Prop where
  server : f.server.OwnNames
  commands : ∀ ch, ∀ c ∈ f.commands ch, ∀ start, c.cmd = .imageStart start →
    BuiltFor c.connectionId start.containerName
  tasks : ∀ ch id start pc, .start ch id start pc ∈ f.tasks → BuiltFor id start.containerName
  containers : ∀ k ∈ f.containers, BuiltFor k.connectionId k.name

variable {ports : FreshPool} {localAddr : LocalAddr} {node} {f g : Fleet} {t : Server}
  {l : Kdct.Label} {label : Label}

@[simp] theorem carry_tasks : (f.carry l t).tasks = f.tasks := by
  unfold carry
  generalize sends f.server l = sent
  cases sent
  all_goals
    dsimp only
    split <;> rfl

/-- A command was on its way, or the step sends it. -/
theorem mem_commands_carry {ch : ChannelId} {c : Command} (h : c ∈ (f.carry l t).commands ch) :
    c ∈ f.commands ch ∨ sends f.server l = some (ch, c) := by
  unfold carry at h
  cases hsent : sends f.server l with
  | none =>
      rw [hsent] at h
      dsimp only at h
      split at h
      case h_3 => cases h
      all_goals exact .inl h
  | some q =>
      obtain ⟨ch', c'⟩ := q
      rw [hsent] at h
      dsimp only at h
      split at h
      case h_3 => cases h
      all_goals
        replace h : c ∈ Function.update f.commands ch' (f.commands ch' ++ [c']) ch := h
        by_cases hch : ch = ch'
        · subst hch
          rw [Function.update_self, List.mem_append, List.mem_singleton] at h
          exact h.imp_right fun heq => by rw [heq]
        · rw [Function.update_of_ne hch] at h
          exact .inl h

/-- A deploy sends the name of its own connection. -/
theorem builtFor_of_sends {s : Server} (h : s.OwnNames) {ch : ChannelId} {c : Command}
    {start : ImageStart} (hsends : sends s l = some (ch, c)) (hcmd : c.cmd = .imageStart start) :
    BuiltFor c.connectionId start.containerName := by
  unfold sends at hsends
  split at hsends
  · rename_i call id d env hmoves
    split at hsends
    · cases hsends
    · obtain ⟨rfl, rfl⟩ := Prod.mk.inj (Option.some.inj hsends)
      obtain rfl := ControlChannelCmd.imageStart.inj hcmd
      have hb := h.belongs call id _ (Server.deploys_of_movesDeploy h.fresh hmoves)
      exact ⟨d.plan, hb.2, rfl⟩
  · split at hsends
    · cases hsends
    · obtain ⟨rfl, rfl⟩ := Prod.mk.inj (Option.some.inj hsends)
      cases hcmd
  · cases hsends

/-- A task stays the task of its command. -/
theorem taskStep_next {error : Option String} {task : DockerTask} {ch : ChannelId} {id : RowId}
    {start : ImageStart} {pc : StartPc}
    (h : f.taskStep node error task = some (g, some (.start ch id start pc))) :
    ∃ pc₀, task = .start ch id start pc₀ := by
  cases task with
  | start ch₀ id₀ start₀ pc₀ =>
      refine ⟨pc₀, ?_⟩
      cases pc₀ with
      | clean =>
          obtain ⟨-, hnext⟩ := Prod.mk.inj (Option.some.inj h)
          obtain ⟨rfl, rfl, rfl, -⟩ := DockerTask.start.inj (Option.some.inj hnext)
          rfl
      | image =>
          simp only [taskStep] at h
          split at h
          · obtain ⟨-, hnext⟩ := Prod.mk.inj (Option.some.inj h)
            obtain ⟨rfl, rfl, rfl, -⟩ := DockerTask.start.inj (Option.some.inj hnext)
            rfl
          · cases h
      | run =>
          simp only [taskStep] at h
          repeat' split at h
          all_goals cases h
  | stop ch₀ name₀ =>
      simp only [taskStep] at h
      repeat' split at h
      all_goals cases h

theorem Command.task_start {ch ch' : ChannelId} {c : Command} {id : RowId} {start : ImageStart}
    {pc : StartPc} (h : Command.task ch c = some (.start ch' id start pc)) :
    c.cmd = .imageStart start ∧ c.connectionId = id := by
  unfold Command.task at h
  split at h
  · rename_i start₀ hcmd
    obtain ⟨-, rfl, rfl, -⟩ := DockerTask.start.inj (Option.some.inj h)
    exact ⟨hcmd, rfl⟩
  all_goals cases h

theorem ownNames_step (h : f.OwnNames) (hstep : f.step ports localAddr node label = some g) :
    g.OwnNames := by
  cases step_cases hstep with
  | server hs' =>
      refine ⟨by rw [carry_server]; exact Server.ownNames_step h.server hs', ?_,
        fun ch id start pc htask => ?_, fun k hk => ?_⟩
      · intro ch c hc start hcmd
        rcases mem_commands_carry hc with hold | hsends
        · exact h.commands ch c hold start hcmd
        · exact builtFor_of_sends h.server hsends hcmd
      · rw [carry_tasks] at htask
        exact h.tasks ch id start pc htask
      · obtain ⟨k₀, hk₀, rfl | rfl⟩ := mem_carry hk
        · exact h.containers _ hk₀
        · exact h.containers k₀ hk₀
  | @receive ch c rest hcommands =>
      have hmem : ∀ ch', ∀ c' ∈ Function.update f.commands ch rest ch', c' ∈ f.commands ch' := by
        intro ch' c' hc'
        by_cases hch : ch' = ch
        · subst hch
          rw [Function.update_self] at hc'
          rw [hcommands]
          exact List.mem_cons_of_mem c hc'
        · rwa [Function.update_of_ne hch] at hc'
      refine ⟨h.server, fun ch' c' hc' => h.commands ch' c' (hmem ch' c' hc'),
        fun ch' id start pc htask => ?_, h.containers⟩
      rcases List.mem_append.mp htask with hold | hnew
      · exact h.tasks ch' id start pc hold
      · obtain ⟨hcmd, rfl⟩ := Command.task_start (Option.mem_toList.mp hnew)
        exact h.commands ch c (hcommands ▸ List.mem_cons_self) start hcmd
  | @task i error task g next htask htaskStep =>
      obtain ⟨hserver, hcommands, hmem⟩ := mem_taskStep htaskStep
      have hof : task ∈ f.tasks := List.mem_of_getElem? htask
      refine ⟨by rw [hserver]; exact h.server, by rw [hcommands]; exact h.commands,
        fun ch id start pc hin => ?_, fun k hk => ?_⟩
      · rcases List.mem_append.mp hin with hin | hafter
        · rcases List.mem_append.mp hin with hbefore | hnext
          · exact h.tasks ch id start pc (List.mem_of_mem_take hbefore)
          · obtain rfl := Option.mem_toList.mp hnext
            obtain ⟨pc₀, rfl⟩ := taskStep_next htaskStep
            exact h.tasks ch id start pc₀ hof
        · exact h.tasks ch id start pc (List.mem_of_mem_drop hafter)
      · rcases hmem k hk with hk | ⟨ch, id, start, rfl, -, rfl⟩
        · exact h.containers k hk
        · exact h.tasks ch id start .run hof
  | report => exact ⟨h.server, h.commands, h.tasks, h.containers⟩

theorem ownNames_boot (ports : FreshPool) : (boot ports).OwnNames where
  server := Server.ownNames_boot ports
  commands := fun _ _ hc => absurd hc List.not_mem_nil
  tasks := fun _ _ _ _ htask => absurd htask List.not_mem_nil
  containers := fun _ hk => absurd hk List.not_mem_nil

theorem ownNames_always (ports : FreshPool) (localAddr : LocalAddr) (node : ChannelId → NodeUuid)
    (labels : List Label) : (fleet ports localAddr node).Always OwnNames (.boot ports) labels :=
  Machine.always_of_step (fun _ _ _ h hstep => ownNames_step h hstep) labels (ownNames_boot ports)

/-! ## What the names say -/

theorem OwnNames.keepsOthers (h : f.OwnNames) : f.KeepsOthers node := by
  intro ch id start htask lists removed k hk hother
  refine mem_cleanDeploy hk (fun hname => hother ?_) lists removed
  have hbuilt := h.tasks ch id start .clean htask
  exact (h.containers k hk).unique (hname ▸ hbuilt)

theorem OwnNames.pendingKey (h : f.OwnNames) {x : PendingKey} (hx : f.pendingKey label = some x) :
    BuiltFor x.connectionId x.containerName := by
  obtain ⟨l, -, hkey⟩ := Option.bind_eq_some_iff.mp hx
  exact h.server.pendingKey hkey

theorem OwnNames.removal (h : f.OwnNames) {x : Removal} (hx : f.removal node label = some x) :
    BuiltFor x.connectionId x.containerName := by
  unfold Fleet.removal at hx
  repeat' split at hx
  · rename_i ch id start htask
    obtain rfl := Option.some.inj hx
    exact h.tasks ch id start .clean (List.mem_of_getElem? htask)
  all_goals cases hx

theorem OwnNames.started (h : f.OwnNames) {k : Container} (hk : f.started node label = some k) :
    BuiltFor k.connectionId k.name := by
  unfold Fleet.started at hk
  repeat' split at hk
  · rename_i ch id start htask
    obtain rfl := Option.some.inj hk
    exact h.tasks ch id start .run (List.mem_of_getElem? htask)
  all_goals cases hk

/-- A waiter is where it was, or the step has put it there. -/
theorem pending_step (h : f.OwnNames) (hstep : f.step ports localAddr node label = some g)
    {ch : ChannelId} {name : String} {o : CallId}
    (ho : (g.server.shared.pending ch).lookup name = some o) :
    (f.server.shared.pending ch).lookup name = some o ∨ ∃ id,
      f.pendingKey label =
        some { channel := ch, containerName := name, call := o, connectionId := id } := by
  cases step_cases hstep with
  | server hs' =>
      rw [carry_server] at ho
      exact Server.pending_step h.server.fresh hs' ho
  | task _ htaskStep =>
      obtain ⟨hserver, -⟩ := mem_taskStep htaskStep
      have hsame := ho
      rw [hserver] at hsame
      exact .inl hsame
  | receive | report => exact .inl ho

/-- A waiter that is there after a run was there before it, or the run has put it there. -/
theorem pending_run (labels : List Label) (h : f.OwnNames)
    (hrun : (fleet ports localAddr node).run f labels = some g)
    {ch : ChannelId} {name : String} {o : CallId}
    (ho : (g.server.shared.pending ch).lookup name = some o) :
    (f.server.shared.pending ch).lookup name = some o ∨ ∃ id,
      { channel := ch, containerName := name, call := o, connectionId := id } ∈
        (fleet ports localAddr node).records pendingKey f labels := by
  induction labels generalizing f with
  | nil =>
      obtain rfl := Option.some.inj hrun
      exact .inl ho
  | cons label labels ih =>
      obtain ⟨u, hstep, hrest⟩ := Machine.run_cons_eq_some _ hrun
      rcases ih (ownNames_step h hstep) hrest with hu | ⟨id, hkey⟩
      · rcases pending_step h hstep hu with hf | ⟨id, hkey⟩
        · exact .inl hf
        · exact .inr ⟨id, (Machine.mem_records_cons hstep labels).mpr (.inl hkey)⟩
      · exact .inr ⟨id, (Machine.mem_records_cons hstep labels).mpr (.inr hkey)⟩

-- Two deploys of a connection, and a stop.
set_option maxRecDepth 8000 in
example : (fleet samplePool (fun _ => none) fun _ => "u").records pendingKey (.boot samplePool)
    awayAndDeleted =
    [{ channel := 0, containerName := "kdct-a-1", call := 0, connectionId := 1 },
      { channel := 1, containerName := "kdct-a-1", call := 1, connectionId := 1 },
      { channel := 1, containerName := "kdct-a-1", call := 2, connectionId := 1 }] := by
  decide

/-- Container names identify connections: no two connections share a key of a
`pending_docker`, and no container is removed for another connection. -/
theorem containerNames_identify (ports : FreshPool) (localAddr : LocalAddr)
    (node : ChannelId → NodeUuid) (labels : List Label) :
    let F := fleet ports localAddr node
    let keys := F.records pendingKey (.boot ports) labels
    (∀ p q : Plan, p.containerName = q.containerName → p.connectionId = q.connectionId) ∧
      (∀ x ∈ keys, ∀ y ∈ keys, x.containerName = y.containerName →
        x.connectionId = y.connectionId) ∧
      (∀ f, F.run (.boot ports) labels = some f → ∀ ch name call,
        (f.server.shared.pending ch).lookup name = some call → ∃ x ∈ keys,
          x.channel = ch ∧ x.containerName = name ∧ x.call = call) ∧
      F.Always (KeepsOthers node) (.boot ports) labels ∧
      ∀ x ∈ F.records (removal node) (.boot ports) labels,
        ∀ k ∈ F.records (started node) (.boot ports) labels,
          k.isAt x.node x.containerName = true → k.connectionId = x.connectionId := by
  intro F keys
  have hown : F.Always OwnNames (.boot ports) labels := ownNames_always ports localAddr node labels
  have hkeys : ∀ x ∈ keys, BuiltFor x.connectionId x.containerName := by
    intro x hx
    obtain ⟨f, label, hf, hkey⟩ := hown.of_mem_records hx
    exact hf.pendingKey hkey
  refine ⟨fun _ _ => Plan.connectionId_of_containerName, fun x hx y hy hname => ?_,
    fun f hrun ch name call hcall => ?_, hown.mono fun _ hf => hf.keepsOthers,
    fun x hx k hk hat => ?_⟩
  · exact (hkeys x hx).unique (hname ▸ hkeys y hy)
  · rcases pending_run labels (ownNames_boot ports) hrun hcall with hboot | ⟨id, hkey⟩
    · cases hboot
    · exact ⟨_, hkey, rfl, rfl, rfl⟩
  · obtain ⟨f, label, hf, hremoval⟩ := hown.of_mem_records hx
    obtain ⟨f', label', hf', hstarted⟩ := hown.of_mem_records hk
    have hname : k.name = x.containerName := by
      simp only [Container.isAt, Bool.and_eq_true, decide_eq_true_eq] at hat
      exact hat.2
    exact (hf'.started hstarted).unique (hname ▸ hf.removal hremoval)

end Fleet

end Kdct
