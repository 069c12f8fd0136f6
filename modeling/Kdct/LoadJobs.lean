/-
Loading images in the background (`POST /api/image/load` and the progress of a load in
`crates/kdcts/src/api.rs`, `load_image` in `crates/kdcts/src/image.rs`).

A post puts a job into the registry, under the clock's nanoseconds, and spawns a task that
loads the image and writes to the job as it goes.  Any number of tasks run at once, each
taking the lock of the registry for one entry at a time, and the panel asks for its job
until that is over.  The registry forgets nothing before the next start.

A clock that is set back may give a number out twice, and then the later job takes the
place of the earlier one and both tasks write to it.
-/
import Kdct.ImageLoad
import Kdct.Migration
import Kdct.Server.HubQueries

namespace Kdct

inductive JobStatus
  | running
  | done
  | error
  deriving DecidableEq

def JobStatus.text : JobStatus → String
  | .running => "running"
  | .done => "done"
  | .error => "error"

structure LoadJob where
  logs : List String
  status : JobStatus
  result : String
  deriving DecidableEq

namespace LoadJob

def start : LoadJob where
  logs := ["Starting image load..."]
  status := .running
  result := ""

/-- `log_line`. -/
def log (job : LoadJob) (line : String) : LoadJob := { job with logs := job.logs ++ [line] }

def finish (job : LoadJob) (status : JobStatus) (result : String) : LoadJob :=
  { job with status := status, result := result }

/-- Lines are added until the job is over, and then it stays as it is. -/
structure Extends (job later : LoadJob) : Prop where
  logs : job.logs <+: later.logs
  ended : job.status ≠ .running → later = job

end LoadJob

namespace Jobs

/-! ## Tasks -/

/-- Where the task of a load is. -/
inductive Pc
  /-- About to log what it loads. -/
  | loading
  /-- About to log that it clones. -/
  | cloning
  | gitClone
  | dockerfile
  | insert
  | finish
  /-- About to log its error. -/
  | logError (text : String)
  | fail (text : String)
  | loaded
  | failed (text : String)
  deriving DecidableEq

structure Task where
  jobId : String
  source : String
  customName : Option String
  pc : Pc
  deriving DecidableEq

/-- What comes of `git clone`. -/
inductive Clone
  /-- Git cannot be started. -/
  | missing (osError : String)
  | failed
  | cloned
  deriving DecidableEq

namespace Task

def name (task : Task) : String := imageName task.source task.customName

def isGit (task : Task) : Bool := sourceTypeOf task.source = "git"

def loadingLine (task : Task) : String := "Loading: " ++ task.source

def cloningLine : String := "Cloning git repository..."

def doneText (task : Task) : String := "Image " ++ task.name ++ " loaded successfully"

def goto (task : Task) (pc : Pc) : Task := { task with pc := pc }

/-- The next entry that the task makes in its job. -/
def entry (task : Task) : Option ((LoadJob → LoadJob) × Pc) :=
  match task.pc with
  | .loading =>
      some (fun job => job.log task.loadingLine, if task.isGit then .cloning else .insert)
  | .cloning => some (fun job => job.log cloningLine, .gitClone)
  | .finish => some (fun job => job.finish .done task.doneText, .loaded)
  | .logError text => some (fun job => job.log text, .fail text)
  | .fail text => some (fun job => job.finish .error text, .failed text)
  | .gitClone | .dockerfile | .insert | .loaded | .failed _ => none

def afterClone (task : Task) : Clone → Pc
  | .missing osError => .logError ("Failed to clone git repository: " ++ osError)
  | .failed => .logError (cloneFailedText task.source)
  | .cloned => .dockerfile

def afterLook (task : Task) (found : Bool) : Pc :=
  if found then .insert else .logError (noDockerfileText task.source)

end Task

/-! ## The registry -/

/-- `format!("{:x}", nanos)`. -/
def jobId (nanos : Nat) : String := String.ofList (Nat.toDigits 16 nanos)

structure State where
  jobs : HashMap String LoadJob
  /-- Every task since the start, in the order of the posts. -/
  tasks : List Task
  db : Database

inductive Label
  /-- The clock shows the nanoseconds. -/
  | post (nanos : Nat) (source : String) (customName : Option String)
  /-- A task makes its next entry. -/
  | entry (i : Nat)
  | clone (i : Nat) (clone : Clone)
  /-- Whether there is a Dockerfile in the clone. -/
  | look (i : Nat) (found : Bool)
  /-- The row is written, or the database fails. -/
  | insert (i : Nat) (dbError : Option String)
  /-- Another task writes to the database. -/
  | database (op : DatabaseOp)
  | restart

namespace State

def boot (db : Database) : State := { jobs := ∅, tasks := [], db := db }

/-- `get_mut`, where there is something to change. -/
def update (s : State) (id : String) (f : LoadJob → LoadJob) : HashMap String LoadJob :=
  match s.jobs.lookup id with
  | some job => s.jobs.insert id (f job)
  | none => s.jobs

def setTask (s : State) (i : Nat) (task : Task) : State :=
  { s with tasks := s.tasks.set i task }

def post (s : State) (nanos : Nat) (source : String) (customName : Option String) : State :=
  { s with
    jobs := s.jobs.insert (jobId nanos) .start
    tasks := s.tasks ++ [⟨jobId nanos, source, customName.filter (· ≠ ""), .loading⟩] }

def stepEntry (s : State) (i : Nat) (task : Task) : Option State :=
  task.entry.map fun (f, pc) =>
    { s.setTask i (task.goto pc) with jobs := s.update task.jobId f }

def stepInsert (s : State) (i : Nat) (task : Task) : Option String → State
  | some dbError => s.setTask i (task.goto (.logError dbError))
  | none =>
      { s.setTask i (task.goto .finish) with
        db := s.db.insertImage task.name task.source (sourceTypeOf task.source) }

/-- Lets the task go on where it is at a point. -/
def at? (s : State) (i : Nat) (pc : Pc) : Option Task :=
  (s.tasks[i]?).filter fun task => task.pc = pc

def step (s : State) : Label → Option State
  | .post nanos source customName =>
      if source = "" then none else some (s.post nanos source customName)
  | .entry i => s.tasks[i]?.bind (s.stepEntry i)
  | .clone i clone =>
      (s.at? i .gitClone).map fun task => s.setTask i (task.goto (task.afterClone clone))
  | .look i found =>
      (s.at? i .dockerfile).map fun task => s.setTask i (task.goto (task.afterLook found))
  | .insert i dbError => (s.at? i .insert).map fun task => s.stepInsert i task dbError
  | .database op => (op.onTables s.db).map fun db => { s with db := db }
  | .restart => some (boot s.db)

/-- The job under the parameter `job` of a raw path. -/
def progress (s : State) (rawPath : List Char) : Option LoadJob :=
  s.jobs.lookup (String.ofList
    (((HubQueries.queryPairs rawPath).findSome? fun kv =>
      if kv.1 = "job".toList then kv.2 else none).getD []))

end State

end Jobs

def loadJobs (db : Database) : Machine Jobs.State Jobs.Label where
  init := .boot db
  step := Jobs.State.step

namespace Jobs

/-! ## What the panel is told -/

/-- What the panel fetches to see how its job is going. -/
def pollPath (id : String) : List Char :=
  "/admin/api/image/load/progress".toList ++ '?' :: ("job".toList ++ '=' :: id.toList)

namespace Task

/-- The job before the load itself. -/
def begun (task : Task) : LoadJob :=
  let job := LoadJob.start.log task.loadingLine
  if task.isGit then job.log cloningLine else job

/-- The job, by where its task is. -/
def job (task : Task) : LoadJob :=
  match task.pc with
  | .loading => .start
  | .cloning => LoadJob.start.log task.loadingLine
  | .gitClone | .dockerfile | .insert | .finish | .logError _ => task.begun
  | .fail text => task.begun.log text
  | .loaded => task.begun.finish .done task.doneText
  | .failed text => (task.begun.log text).finish .error text

end Task

namespace State

/-- No other post has got the id of the task. -/
def Sole (s : State) (i : Nat) (task : Task) : Prop :=
  ∀ j other, s.tasks[j]? = some other → other.jobId = task.jobId → j = i

structure Reports (s : State) : Prop where
  progress : ∀ i task, s.tasks[i]? = some task → s.Sole i task →
    s.progress (pollPath task.jobId) = some task.job
  unknown : ∀ nanos, (∀ task ∈ s.tasks, task.jobId ≠ jobId nanos) →
    s.progress (pollPath (jobId nanos)) = none
  /-- A job that is done has its image. -/
  loaded : ∀ task ∈ s.tasks, task.pc = .loaded → (s.db.getImageByName task.name).isSome
  /-- Until the next start a job goes on from where it is, and is over once. -/
  forward : ∀ labels t, Label.restart ∉ labels → (loadJobs s.db).run s labels = some t →
    ∀ (i : Nat) (task : Task), s.tasks[i]? = some task →
      ∃ later : Task, t.tasks[i]? = some later ∧ later.jobId = task.jobId ∧
        task.job.Extends later.job

end State

/-! ## Ids -/

def hexDigits : List Char := "0123456789abcdef".toList

theorem toDigits_hex {n : Nat} {c : Char} (h : c ∈ Nat.toDigits 16 n) : c ∈ hexDigits := by
  have hdigit : ∀ d, d < 16 → Nat.digitChar d ∈ hexDigits := by decide +kernel
  induction n using Nat.strong_induction_on with
  | _ n ih =>
      rw [Nat.toDigits_eq_if (by decide)] at h
      split at h
      · rename_i hlt
        rw [List.mem_singleton.mp h]
        exact hdigit n hlt
      · rename_i hge
        rcases List.mem_append.mp h with h | h
        · exact ih (n / 16) (by omega) h
        · rw [List.mem_singleton.mp h]
          exact hdigit (n % 16) (Nat.mod_lt n (by decide))

theorem not_mem_jobId {c : Char} (h : c ∉ hexDigits) (nanos : Nat) :
    c ∉ (jobId nanos).toList := by
  rw [jobId, String.toList_ofList]
  exact fun hmem => h (toDigits_hex hmem)

theorem progress_of_not_mem (s : State) {id : String} (hmark : '?' ∉ id.toList)
    (hand : '&' ∉ id.toList) : s.progress (pollPath id) = s.jobs.lookup id := by
  have hpath : '?' ∉ "/admin/api/image/load/progress".toList := by decide +kernel
  have hquery : '?' ∉ "job".toList ++ '=' :: id.toList :=
    HubQueries.not_mem_append_cons (by decide) (by decide) hmark
  have hpair : '&' ∉ "job".toList ++ '=' :: id.toList :=
    HubQueries.not_mem_append_cons (by decide) (by decide) hand
  have hpairs : HubQueries.queryPairs (pollPath id) =
      (("job".toList ++ '=' :: id.toList).splitOn '&').map HubQueries.splitEq :=
    HubQueries.queryPairs_eq hpath hquery
  rw [List.splitOn_eq_singleton hpair, List.map_singleton,
    HubQueries.splitEq_append (by decide)] at hpairs
  rw [State.progress, hpairs, List.findSome?_singleton]
  dsimp only
  rw [if_pos rfl, Option.getD_some, String.ofList_toList]

/-- What the panel asks for is what the server looks up. -/
theorem progress_pollPath (s : State) (nanos : Nat) :
    s.progress (pollPath (jobId nanos)) = s.jobs.lookup (jobId nanos) :=
  progress_of_not_mem s (not_mem_jobId (by decide +kernel) nanos)
    (not_mem_jobId (by decide +kernel) nanos)

/-! ## What an entry does -/

theorem extends_self (job : LoadJob) : job.Extends job := ⟨List.prefix_rfl, fun _ => rfl⟩

theorem extends_trans {job mid later : LoadJob} (h : job.Extends mid) (h' : mid.Extends later) :
    job.Extends later where
  logs := h.logs.trans h'.logs
  ended := by
    intro hover
    obtain rfl := h.ended hover
    exact h'.ended hover

namespace Task

/-- Only a git source is cloned. -/
def Proper (task : Task) : Prop :=
  task.pc = .cloning ∨ task.pc = .gitClone ∨ task.pc = .dockerfile → task.isGit = true

theorem begun_running (task : Task) : task.begun.status = .running := by
  unfold begun
  split <;> rfl

theorem extends_log {job : LoadJob} (h : job.status = .running) (line : String) :
    job.Extends (job.log line) :=
  ⟨List.prefix_append _ _, fun hover => absurd h hover⟩

theorem extends_finish {job : LoadJob} (h : job.status = .running) (status : JobStatus)
    (result : String) : job.Extends (job.finish status result) :=
  ⟨List.prefix_rfl, fun hover => absurd h hover⟩

/-- An entry makes the job of a task that of the task behind it. -/
theorem job_entry {task : Task} {f : LoadJob → LoadJob} {pc : Pc} (hproper : task.Proper)
    (h : task.entry = some (f, pc)) :
    (task.goto pc).job = f task.job ∧ task.job.Extends (f task.job) := by
  have hrunning := task.begun_running
  unfold entry at h
  split at h
  · rename_i hpc
    obtain ⟨rfl, rfl⟩ := Prod.mk.inj (Option.some.inj h)
    have hjob : task.job = .start := by rw [job, hpc]
    rw [hjob]
    refine ⟨?_, extends_log rfl _⟩
    split
    · rfl
    · rename_i hgit
      show task.begun = _
      rw [begun, if_neg hgit]
  · rename_i hpc
    obtain ⟨rfl, rfl⟩ := Prod.mk.inj (Option.some.inj h)
    have hjob : task.job = LoadJob.start.log task.loadingLine := by rw [job, hpc]
    rw [hjob]
    refine ⟨?_, extends_log rfl _⟩
    show task.begun = _
    rw [begun, if_pos (hproper (.inl hpc))]
  · rename_i hpc
    obtain ⟨rfl, rfl⟩ := Prod.mk.inj (Option.some.inj h)
    have hjob : task.job = task.begun := by rw [job, hpc]
    rw [hjob]
    exact ⟨rfl, extends_finish hrunning _ _⟩
  · rename_i text hpc
    obtain ⟨rfl, rfl⟩ := Prod.mk.inj (Option.some.inj h)
    have hjob : task.job = task.begun := by rw [job, hpc]
    rw [hjob]
    exact ⟨rfl, extends_log hrunning _⟩
  · rename_i text hpc
    obtain ⟨rfl, rfl⟩ := Prod.mk.inj (Option.some.inj h)
    have hjob : task.job = task.begun.log text := by rw [job, hpc]
    rw [hjob]
    exact ⟨rfl, @extends_finish (task.begun.log text) hrunning _ _⟩
  · cases h
  · cases h
  · cases h
  · cases h
  · cases h

/-- Where an entry leads to. -/
theorem pc_entry {task : Task} {f : LoadJob → LoadJob} {pc : Pc} (hproper : task.Proper)
    (h : task.entry = some (f, pc)) :
    (task.goto pc).Proper ∧ (pc = .finish ∨ pc = .loaded → task.pc = .finish) := by
  unfold entry at h
  split at h
  · obtain ⟨-, rfl⟩ := Prod.mk.inj (Option.some.inj h)
    split
    · rename_i hgit
      exact ⟨fun _ => hgit, by simp⟩
    · exact ⟨by simp [Proper, goto], by simp⟩
  · rename_i hpc
    obtain ⟨-, rfl⟩ := Prod.mk.inj (Option.some.inj h)
    exact ⟨fun _ => hproper (.inl hpc), by simp⟩
  · rename_i hpc
    obtain ⟨-, rfl⟩ := Prod.mk.inj (Option.some.inj h)
    exact ⟨by simp [Proper, goto], fun _ => hpc⟩
  · obtain ⟨-, rfl⟩ := Prod.mk.inj (Option.some.inj h)
    exact ⟨by simp [Proper, goto], by simp⟩
  · obtain ⟨-, rfl⟩ := Prod.mk.inj (Option.some.inj h)
    exact ⟨by simp [Proper, goto], by simp⟩
  · cases h
  · cases h
  · cases h
  · cases h
  · cases h

theorem afterClone_cases (task : Task) (clone : Clone) :
    (task.goto (task.afterClone clone)).job = task.begun ∧
      ¬(task.afterClone clone = .finish ∨ task.afterClone clone = .loaded) := by
  cases clone <;> exact ⟨rfl, by simp [afterClone]⟩

theorem afterLook_cases (task : Task) (found : Bool) :
    (task.goto (task.afterLook found)).job = task.begun ∧
      ¬(task.afterLook found = .finish ∨ task.afterLook found = .loaded) := by
  cases found <;> exact ⟨rfl, by simp [afterLook]⟩

end Task

/-! ## Images stay -/

/-- No image goes without another of its name. -/
def KeepsImages (db db' : Database) : Prop :=
  ∀ name, (db.getImageByName name).isSome → (db'.getImageByName name).isSome

theorem keepsImages_of_eq {db db' : Database} (h : db'.images = db.images) :
    KeepsImages db db' := by
  intro name hname
  rw [Database.getImageByName, h]
  exact hname

theorem getImageByName_isSome {db : Database} {name : String} :
    (db.getImageByName name).isSome ↔ ∃ image ∈ db.images.rows, image.name = name := by
  rw [Database.getImageByName, List.find?_isSome]
  simp only [beq_iff_eq]

theorem insertImage_isSome (db : Database) (name source sourceType : String) :
    ((db.insertImage name source sourceType).getImageByName name).isSome := by
  rw [getImageByName_isSome]
  exact ⟨_, List.mem_append_right _ List.mem_cons_self, rfl⟩

theorem keepsImages_insertImage (db : Database) (name source sourceType : String) :
    KeepsImages db (db.insertImage name source sourceType) := by
  intro other hother
  by_cases heq : other = name
  · rw [heq]
    exact insertImage_isSome db name source sourceType
  · rw [getImageByName_isSome] at hother ⊢
    obtain ⟨image, himage, rfl⟩ := hother
    have hkept : image ∈ (db.images.deleteWhere fun r => r.name == name).rows :=
      Table.mem_deleteWhere.mpr ⟨himage, by simpa using heq⟩
    exact ⟨image, List.mem_append_left _ hkept, rfl⟩

theorem keepsImages_onTables {db db' : Database} {op : DatabaseOp}
    (h : op.onTables db = some db') : KeepsImages db db' := by
  cases op with
  | insertImage name source sourceType =>
      obtain rfl := Option.some.inj h
      exact keepsImages_insertImage db name source sourceType
  | insertBridge name =>
      rw [Database.insertBridge_eq h]
      exact keepsImages_of_eq rfl
  | insertBridgePort bridgeId containerPort mode routePath protocols poolPort =>
      rw [Database.insertBridgePort_eq h]
      exact keepsImages_of_eq rfl
  | setBridgeEnvs bridgeId envs good =>
      obtain rfl := Option.some.inj h
      obtain ⟨bridgeEnvs, heq⟩ := Database.setBridgeEnvs_eq db bridgeId envs good
      rw [heq]
      exact keepsImages_of_eq rfl
  | updateConnection id bridgeId imageId nodeId =>
      rw [Database.updateConnection_eq h]
      exact keepsImages_of_eq rfl
  | updateConnectionNode id nodeId status containerName =>
      rw [Database.updateConnectionNode_eq h]
      exact keepsImages_of_eq rfl
  | deleteBridge bridgeId | deleteBridgePort bridgeId containerPort | insertConnection name
  | deleteConnection id =>
      obtain rfl := Option.some.inj h
      exact keepsImages_of_eq rfl
  | upsertNode | setNodeOffline | markAllOffline => cases h

/-! ## Steps -/

namespace State

variable {s t : State} {i : Nat} {task later : Task} {label : Label}

theorem lookup_update (s : State) (id other : String) (f : LoadJob → LoadJob) :
    (s.update id f).lookup other =
      if other = id then (s.jobs.lookup other).map f else s.jobs.lookup other := by
  unfold update
  split
  · rename_i job hjob
    rw [HashMap.lookup_insert_eq]
    split
    · rename_i heq
      rw [heq, hjob, Option.map_some]
    · rfl
  · rename_i hnone
    split
    · rename_i heq
      rw [heq, hnone, Option.map_none]
    · rfl

/-- What holds of the registry and the tasks. -/
structure Inv (s : State) : Prop where
  ids : ∀ task ∈ s.tasks, ∃ nanos, task.jobId = jobId nanos
  proper : ∀ task ∈ s.tasks, task.Proper
  jobs : ∀ i task, s.tasks[i]? = some task → s.Sole i task →
    s.jobs.lookup task.jobId = some task.job
  unknown : ∀ id, (∀ task ∈ s.tasks, task.jobId ≠ id) → s.jobs.lookup id = none
  loaded : ∀ task ∈ s.tasks, task.pc = .finish ∨ task.pc = .loaded →
    (s.db.getImageByName task.name).isSome

/-- A task goes on, and its job with it. -/
structure Goes (s t : State) (i : Nat) (task later : Task) (f : LoadJob → LoadJob) : Prop where
  found : s.tasks[i]? = some task
  tasks : t.tasks = s.tasks.set i later
  jobId : later.jobId = task.jobId
  job : later.job = f task.job
  extended : task.job.Extends (f task.job)
  proper : later.Proper
  jobs : ∀ id, t.jobs.lookup id =
    if id = task.jobId then (s.jobs.lookup id).map f else s.jobs.lookup id
  keeps : KeepsImages s.db t.db
  loaded : later.pc = .finish ∨ later.pc = .loaded → (t.db.getImageByName later.name).isSome

/-- What a step other than a restart does. -/
inductive Step (s t : State) : Prop
  | post (nanos : Nat) (source : String) (customName : Option String)
      (h : t = s.post nanos source customName)
  | goes {i : Nat} {task later : Task} {f : LoadJob → LoadJob} (h : s.Goes t i task later f)
  | database (htasks : t.tasks = s.tasks) (hjobs : t.jobs = s.jobs) (h : KeepsImages s.db t.db)

theorem at?_eq_some {pc : Pc} (h : s.at? i pc = some task) :
    s.tasks[i]? = some task ∧ task.pc = pc := by
  obtain ⟨htask, hpc⟩ := Option.filter_eq_some_iff.mp h
  exact ⟨htask, of_decide_eq_true hpc⟩

/-- A task that makes no entry. -/
theorem goes_quietly {pc : Pc} (hi : s.tasks[i]? = some task)
    (hjob : (task.goto pc).job = task.job) (hproper : (task.goto pc).Proper)
    (htasks : t.tasks = s.tasks.set i (task.goto pc)) (hjobs : t.jobs = s.jobs)
    (hkeeps : KeepsImages s.db t.db)
    (hloaded : pc = .finish ∨ pc = .loaded → (t.db.getImageByName task.name).isSome) :
    s.Goes t i task (task.goto pc) id where
  found := hi
  tasks := htasks
  jobId := rfl
  job := hjob
  extended := extends_self task.job
  proper := hproper
  jobs := by
    intro other
    rw [hjobs, Option.map_id_fun, id_eq, ite_self]
  keeps := hkeeps
  loaded := hloaded

theorem step_cases (h : s.Inv) (hstep : s.step label = some t) (hlabel : label ≠ .restart) :
    Step s t := by
  cases label with
  | restart => exact absurd rfl hlabel
  | post nanos source customName =>
      simp only [State.step] at hstep
      split at hstep
      · cases hstep
      · obtain rfl := Option.some.inj hstep
        exact .post nanos source customName rfl
  | entry i =>
      obtain ⟨task, htask, hentry⟩ := Option.bind_eq_some_iff.mp hstep
      obtain ⟨⟨f, pc⟩, hf, rfl⟩ := Option.map_eq_some_iff.mp hentry
      have hmem : task ∈ s.tasks := List.mem_of_getElem? htask
      obtain ⟨hjob, hextends⟩ := Task.job_entry (h.proper task hmem) hf
      obtain ⟨hproper, hpc⟩ := Task.pc_entry (h.proper task hmem) hf
      refine .goes ⟨htask, rfl, rfl, hjob, hextends, hproper, fun id => ?_, fun _ => id,
        fun hloaded => h.loaded task hmem (.inl (hpc hloaded))⟩
      exact lookup_update s task.jobId id f
  | clone i clone =>
      obtain ⟨task, htask, rfl⟩ := Option.map_eq_some_iff.mp hstep
      obtain ⟨htask, hpc⟩ := at?_eq_some htask
      have hgit := h.proper task (List.mem_of_getElem? htask) (.inr (.inl hpc))
      have hjob : task.job = task.begun := by rw [Task.job, hpc]
      obtain ⟨hlater, hquiet⟩ := task.afterClone_cases clone
      exact .goes (goes_quietly htask (hlater.trans hjob.symm) (fun _ => hgit) rfl rfl
        (fun _ => id) fun hloaded => absurd hloaded hquiet)
  | look i found =>
      obtain ⟨task, htask, rfl⟩ := Option.map_eq_some_iff.mp hstep
      obtain ⟨htask, hpc⟩ := at?_eq_some htask
      have hgit := h.proper task (List.mem_of_getElem? htask) (.inr (.inr hpc))
      have hjob : task.job = task.begun := by rw [Task.job, hpc]
      obtain ⟨hlater, hquiet⟩ := task.afterLook_cases found
      exact .goes (goes_quietly htask (hlater.trans hjob.symm) (fun _ => hgit) rfl rfl
        (fun _ => id) fun hloaded => absurd hloaded hquiet)
  | insert i dbError =>
      obtain ⟨task, htask, rfl⟩ := Option.map_eq_some_iff.mp hstep
      obtain ⟨htask, hpc⟩ := at?_eq_some htask
      have hjob : task.job = task.begun := by rw [Task.job, hpc]
      cases dbError with
      | some text =>
          have hlater : (task.goto (.logError text)).job = task.begun := rfl
          exact .goes (goes_quietly htask (hlater.trans hjob.symm)
            (by simp [Task.Proper, Task.goto]) rfl rfl (fun _ => id) (by simp))
      | none =>
          have hlater : (task.goto .finish).job = task.begun := rfl
          exact .goes (goes_quietly htask (hlater.trans hjob.symm)
            (by simp [Task.Proper, Task.goto]) rfl rfl
            (keepsImages_insertImage s.db task.name task.source _)
            fun _ => insertImage_isSome s.db task.name task.source _)
  | database op =>
      obtain ⟨db, hdb, rfl⟩ := Option.map_eq_some_iff.mp hstep
      exact .database rfl rfl (keepsImages_onTables hdb)

namespace Goes

variable {f : LoadJob → LoadJob}

theorem getElem? (h : s.Goes t i task later f) (j : Nat) :
    t.tasks[j]? = if j = i then some later else s.tasks[j]? := by
  have hlt : i < s.tasks.length := (List.getElem?_eq_some_iff.mp h.found).1
  rw [h.tasks]
  by_cases heq : j = i
  · rw [heq, if_pos rfl, List.getElem?_set_self hlt]
  · rw [if_neg heq, List.getElem?_set_ne (Ne.symm heq)]

theorem mem_tasks (h : s.Goes t i task later f) {other : Task} (hother : other ∈ t.tasks) :
    other = later ∨ other ∈ s.tasks := by
  rw [h.tasks] at hother
  exact (List.mem_or_eq_of_mem_set hother).symm

/-- The ids stay where they are. -/
theorem jobId_getElem? (h : s.Goes t i task later f) (j : Nat) :
    (t.tasks[j]?).map Task.jobId = (s.tasks[j]?).map Task.jobId := by
  rw [h.getElem?]
  split
  · rename_i heq
    rw [heq, h.found, Option.map_some, Option.map_some, h.jobId]
  · rfl

theorem sole (h : s.Goes t i task later f) {j : Nat} {old new : Task}
    (hid : new.jobId = old.jobId) (hsole : t.Sole j new) : s.Sole j old := by
  intro k other hother heq
  have hk := h.jobId_getElem? k
  rw [hother, Option.map_some] at hk
  obtain ⟨other', hother', hid'⟩ := Option.map_eq_some_iff.mp hk
  exact hsole k other' hother' ((hid'.trans heq).trans hid.symm)

theorem inv (h : s.Goes t i task later f) (hs : s.Inv) : t.Inv := by
  have hmem : task ∈ s.tasks := List.mem_of_getElem? h.found
  constructor
  · intro other hother
    rcases h.mem_tasks hother with rfl | hother
    · rw [h.jobId]
      exact hs.ids task hmem
    · exact hs.ids other hother
  · intro other hother
    rcases h.mem_tasks hother with rfl | hother
    · exact h.proper
    · exact hs.proper other hother
  · intro j other hother hsole
    rw [h.getElem?] at hother
    rw [h.jobs]
    split at hother
    · rename_i heq
      obtain rfl := Option.some.inj hother
      have hsole' : s.Sole i task := h.sole h.jobId (heq ▸ hsole)
      rw [if_pos h.jobId, h.jobId, hs.jobs i task h.found hsole', Option.map_some, h.job]
    · rename_i hne
      have hsole' : s.Sole j other := h.sole rfl hsole
      have hid : other.jobId ≠ task.jobId :=
        fun heq => hne (hsole' i task h.found heq.symm).symm
      rw [if_neg hid]
      exact hs.jobs j other hother hsole'
  · intro id hid
    have hnone : s.jobs.lookup id = none := by
      refine hs.unknown id fun other hother => ?_
      obtain ⟨k, hk⟩ := List.mem_iff_getElem?.mp hother
      have hk' := h.jobId_getElem? k
      rw [hk, Option.map_some] at hk'
      obtain ⟨other', hother', hid'⟩ := Option.map_eq_some_iff.mp hk'
      rw [← hid']
      exact hid other' (List.mem_of_getElem? hother')
    rw [h.jobs, hnone, Option.map_none, ite_self]
  · intro other hother hpc
    rcases h.mem_tasks hother with rfl | hother
    · exact h.loaded hpc
    · exact h.keeps _ (hs.loaded other hother hpc)

end Goes

theorem post_inv (h : s.Inv) (nanos : Nat) (source : String) (customName : Option String) :
    (s.post nanos source customName).Inv := by
  constructor
  · intro task htask
    rcases List.mem_append.mp htask with htask | htask
    · exact h.ids task htask
    · rw [List.mem_singleton.mp htask]
      exact ⟨nanos, rfl⟩
  · intro task htask
    rcases List.mem_append.mp htask with htask | htask
    · exact h.proper task htask
    · rw [List.mem_singleton.mp htask]
      simp [Task.Proper]
  · intro i task htask hsole
    have htasks : (s.post nanos source customName).tasks[i]? = some task := htask
    rw [post] at htasks
    rcases Nat.lt_or_ge i s.tasks.length with hlt | hge
    · rw [List.getElem?_append_left hlt] at htasks
      have hid : task.jobId ≠ jobId nanos := by
        intro heq
        have hlast := hsole s.tasks.length _ List.getElem?_concat_length heq.symm
        omega
      have hsole' : s.Sole i task := by
        intro j other hother heq
        have hj : j < s.tasks.length := (List.getElem?_eq_some_iff.mp hother).1
        exact hsole j other ((List.getElem?_append_left hj).trans hother) heq
      refine (HashMap.lookup_insert_eq _ _ _ _).trans ?_
      rw [if_neg hid]
      exact h.jobs i task htasks hsole'
    · rw [List.getElem?_append_right hge] at htasks
      obtain rfl := List.mem_singleton.mp (List.mem_of_getElem? htasks)
      exact (HashMap.lookup_insert_eq _ _ _ _).trans (if_pos rfl)
  · intro id hid
    have hne : id ≠ jobId nanos := fun heq => hid _ List.mem_concat_self heq.symm
    have hold : ∀ task ∈ s.tasks, task.jobId ≠ id :=
      fun task htask => hid task (List.mem_append_left _ htask)
    refine (HashMap.lookup_insert_eq _ _ _ _).trans ?_
    rw [if_neg hne]
    exact h.unknown id hold
  · intro task htask hpc
    rcases List.mem_append.mp htask with htask | htask
    · exact h.loaded task htask hpc
    · rw [List.mem_singleton.mp htask] at hpc
      simp at hpc

theorem boot_inv (db : Database) : (boot db).Inv where
  ids := fun _ h => absurd h List.not_mem_nil
  proper := fun _ h => absurd h List.not_mem_nil
  jobs := by
    intro i task h
    cases h
  unknown := fun _ _ => rfl
  loaded := fun _ h => absurd h List.not_mem_nil

theorem step_inv (h : s.Inv) (hstep : s.step label = some t) : t.Inv := by
  by_cases hlabel : label = .restart
  · rw [hlabel] at hstep
    obtain rfl := Option.some.inj hstep
    exact boot_inv s.db
  · cases step_cases h hstep hlabel with
    | post nanos source customName heq =>
        rw [heq]
        exact post_inv h nanos source customName
    | goes hgoes => exact hgoes.inv h
    | database htasks hjobs hkeeps =>
        constructor
        · rw [htasks]
          exact h.ids
        · rw [htasks]
          exact h.proper
        · unfold Sole
          rw [htasks, hjobs]
          exact h.jobs
        · rw [htasks, hjobs]
          exact h.unknown
        · rw [htasks]
          exact fun task htask hpc => hkeeps _ (h.loaded task htask hpc)

/-- A step carries every task on. -/
theorem step_forward (h : s.Inv) (hstep : s.step label = some t) (hlabel : label ≠ .restart)
    (hi : s.tasks[i]? = some task) :
    ∃ later : Task, t.tasks[i]? = some later ∧ later.jobId = task.jobId ∧
      task.job.Extends later.job := by
  cases step_cases h hstep hlabel with
  | post nanos source customName heq =>
      have hlt : i < s.tasks.length := (List.getElem?_eq_some_iff.mp hi).1
      rw [heq]
      exact ⟨task, (List.getElem?_append_left hlt).trans hi, rfl, extends_self task.job⟩
  | @goes k at' later f hgoes =>
      rw [hgoes.getElem?]
      by_cases heq : i = k
      · obtain rfl : task = at' := Option.some.inj (hi.symm.trans (heq ▸ hgoes.found))
        exact ⟨later, if_pos heq, hgoes.jobId, hgoes.job ▸ hgoes.extended⟩
      · exact ⟨task, (if_neg heq).trans hi, rfl, extends_self task.job⟩
  | database htasks hjobs hkeeps =>
      rw [htasks]
      exact ⟨task, hi, rfl, extends_self task.job⟩

/-- A run carries every task on. -/
theorem run_forward (db : Database) {labels : List Label} (h : s.Inv)
    (hlabels : .restart ∉ labels) (hrun : (loadJobs db).run s labels = some t)
    (hi : s.tasks[i]? = some task) :
    ∃ later : Task, t.tasks[i]? = some later ∧ later.jobId = task.jobId ∧
      task.job.Extends later.job := by
  induction labels generalizing s task with
  | nil =>
      obtain rfl := Option.some.inj hrun
      exact ⟨task, hi, rfl, extends_self task.job⟩
  | cons label labels ih =>
      obtain ⟨u, hstep, hrest⟩ := Machine.run_cons_eq_some _ hrun
      have hlabel : label ≠ .restart := fun heq => hlabels (heq ▸ List.mem_cons_self)
      obtain ⟨mid, hmid, hid, hextends⟩ := step_forward h hstep hlabel hi
      obtain ⟨later, hlater, hid', hextends'⟩ :=
        ih (step_inv h hstep) (fun hmem => hlabels (List.mem_cons_of_mem _ hmem)) hrest hmid
      exact ⟨later, hlater, hid'.trans hid, extends_trans hextends hextends'⟩

theorem Inv.reports (h : s.Inv) : s.Reports where
  progress := by
    intro i task hi hsole
    obtain ⟨nanos, hid⟩ := h.ids task (List.mem_of_getElem? hi)
    rw [hid, progress_pollPath, ← hid]
    exact h.jobs i task hi hsole
  unknown := by
    intro nanos hnone
    rw [progress_pollPath]
    exact h.unknown (jobId nanos) hnone
  loaded := fun task htask hpc => h.loaded task htask (.inr hpc)
  forward := fun _ _ hlabels hrun _ _ hi => run_forward s.db h hlabels hrun hi

/-- The panel is told of each job what its task has done so far. -/
theorem jobs_reported (db : Database) (labels : List Label) :
    (loadJobs db).Always Reports (loadJobs db).init labels := by
  have hinv : (loadJobs db).Always Inv (loadJobs db).init labels :=
    Machine.always_of_step (fun _ _ _ h hstep => step_inv h hstep) labels (boot_inv db)
  exact hinv.mono fun _ h => h.reports

end State

end Jobs

end Kdct
