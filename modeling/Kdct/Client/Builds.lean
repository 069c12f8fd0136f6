/-
The images on a node, over the deploys that reach it (`image_start` and
`docker_build_from_git` in `crates/tunnel/src/client.rs`).

A client tells only by the tag whether it has an image.  Slashes and dashes of a name
are one character in a tag, so a node runs what it is asked for as long as the git
images of its deploys differ in other characters too, and no two of them are built in
one directory at a time.
-/
import Kdct.Client.Images
import Kdct.Lib.HashMap

namespace Kdct

/-! ## Names that share a tag -/

def SameInTag (c d : Char) : Prop := c = d ∨ c ∈ ['/', '-'] ∧ d ∈ ['/', '-']

instance : DecidableRel SameInTag := fun _ _ => inferInstanceAs (Decidable (_ ∨ _))

/-- Names that differ in slashes and dashes only. -/
def Alike (a b : String) : Prop := List.Forall₂ SameInTag a.toList b.toList

instance : DecidableRel Alike := fun _ _ => inferInstanceAs (Decidable (List.Forall₂ _ _ _))

def ImageNode.imageTag (i : ImageNode) : String :=
  if i.sourceType = "git" then "kdct:" ++ dashed ['/'] i.name else i.source

theorem Plan.imageTag_eq (plan : Plan) : plan.imageTag = plan.image.imageTag := rfl

theorem sameInTag_iff {c d : Char} :
    (if c ∈ ['/'] then '-' else c) = (if d ∈ ['/'] then '-' else d) ↔ SameInTag c d := by
  unfold SameInTag
  simp only [List.mem_cons, List.not_mem_nil, or_false]
  by_cases hc : c = '/' <;> by_cases hd : d = '/'
  · simp [hc, hd]
  · simp only [hc, hd, if_true, if_false, true_or, false_or, true_and]
    exact ⟨fun h => .inr h.symm, fun h => (h.resolve_left fun h' => hd h'.symm).symm⟩
  · simp only [hc, hd, if_true, if_false, true_or, false_or, and_true]
  · simp only [hc, hd, if_false, false_or]
    exact ⟨.inl, fun h => h.elim id fun ⟨h, h'⟩ => h.trans h'.symm⟩

theorem dashed_eq_iff {a b : String} : dashed ['/'] a = dashed ['/'] b ↔ Alike a b := by
  unfold dashed Alike
  rw [String.ofList_inj, ← List.forall₂_eq_eq_eq, List.forall₂_map_left_iff,
    List.forall₂_map_right_iff]
  simp only [sameInTag_iff]

theorem Alike.symm {a b : String} (h : Alike a b) : Alike b a :=
  dashed_eq_iff.mp (dashed_eq_iff.mpr h).symm

theorem ImageNode.imageTag_eq_iff {i j : ImageNode} (hi : i.sourceType = "git")
    (hj : j.sourceType = "git") : i.imageTag = j.imageTag ↔ Alike i.name j.name := by
  rw [imageTag, imageTag, if_pos hi, if_pos hj, String.append_right_inj, dashed_eq_iff]

/-! ## The tasks of a client -/

/-- Where `image_start` is. -/
inductive ImagePc
  /-- About to look for the image. -/
  | look
  | clone
  | build
  | pull
  | run
  deriving DecidableEq

namespace ImagePc

def afterLook (isThere : Bool) (sourceType : String) : ImagePc :=
  if isThere then .run else if sourceType = "git" then .clone else .pull

/-- Where a task goes on when its command is done. -/
def next (succeeds : Bool) : ImagePc → Option ImagePc
  | .clone => if succeeds then some .build else none
  | .build | .pull => if succeeds then some .run else none
  | .look | .run => none

/-- A directory is in use for a build. -/
def builds (pc : ImagePc) : Bool := pc = .clone || pc = .build

theorem afterLook_cases (isThere : Bool) (sourceType : String) :
    afterLook isThere sourceType = .clone ∧ sourceType = "git" ∨
      (afterLook isThere sourceType).builds = false := by
  unfold afterLook
  split
  · exact .inr rfl
  · split
    · exact .inl ⟨rfl, by assumption⟩
    · exact .inr rfl

theorem builds_of_next {succeeds : Bool} {pc pc' : ImagePc} (h : pc.next succeeds = some pc')
    (hbuilds : pc'.builds) : pc.builds := by
  cases pc with
  | clone | build => rfl
  | pull =>
    cases succeeds with
    | true =>
      obtain rfl := Option.some.inj h
      cases hbuilds
    | false => cases h
  | look | run => cases h

end ImagePc

/-- A task of a client for a deploy. -/
structure ImageTask where
  plan : Plan
  env : List (String × String)
  pc : ImagePc
  deriving DecidableEq

namespace ImageTask

def start (t : ImageTask) : ImageStart := t.plan.imageStart t.env

def tag (t : ImageTask) : String := t.start.imageTag

def dir (t : ImageTask) : String := clientBuildDir t.tag

/-- The name of the image that the deploy is of. -/
def name (t : ImageTask) : String := t.plan.image.name

theorem dir_congr {t u : ImageTask} (h : t.plan = u.plan) : t.dir = u.dir := by
  have htag : t.tag = u.tag := congrArg Plan.imageTag h
  rw [dir, dir, htag]

theorem name_congr {t u : ImageTask} (h : t.plan = u.plan) : t.name = u.name := by
  rw [name, name, h]

def command (t : ImageTask) : Option DockerCommand :=
  match t.pc with
  | .look => none
  | .clone => some (.gitClone t.start.source "main" t.dir)
  | .build => some (.build t.tag t.dir)
  | .pull => some (.pull t.start.source)
  | .run => some (.run (dockerRun t.start).1)

/-- The next `n` commands of a task that nothing gets in the way of. -/
def commands (succeeds : DockerCommand → Bool) : Nat → ImageTask → List DockerCommand
  | 0, _ => []
  | n + 1, t =>
      match t.command with
      | none => []
      | some c => c :: ((t.pc.next (succeeds c)).map fun pc =>
          commands succeeds n { t with pc := pc }).getD []

/-- A task runs the commands of `image_start`, which are three at most after the
container of the same name is gone. -/
theorem imageStart_eq (containerExists imageExists : String → Bool)
    (succeeds : DockerCommand → Bool) (t : ImageTask) :
    imageStart containerExists imageExists succeeds t.start =
      (if containerExists t.start.containerName then
        [.stop t.start.containerName, .rm t.start.containerName] else []) ++
      commands succeeds 3
        { t with pc := .afterLook (imageExists t.tag) t.start.sourceType } := by
  unfold imageStart
  refine congrArg _ ?_
  show (if imageExists t.tag then _ else _) = _
  by_cases hexists : imageExists t.tag = true
  · rw [if_pos hexists, hexists]
    rfl
  · rw [if_neg hexists, Bool.not_eq_true] at *
    rw [hexists]
    by_cases hgit : t.start.sourceType = "git"
    · rw [if_pos hgit, ImagePc.afterLook, if_neg Bool.false_ne_true, if_pos hgit]
      show (if (!succeeds (.gitClone t.start.source "main" t.dir)) = true then _ else
        if (!succeeds (.build t.tag t.dir)) = true then _ else _) = _ :: Option.getD
          (Option.map _ (ImagePc.next (succeeds (.gitClone t.start.source "main" t.dir)) .clone)) []
      cases succeeds (.gitClone t.start.source "main" t.dir)
      · rfl
      · show (if (!succeeds (.build t.tag t.dir)) = true then _ else _) = _ :: _ ::
          Option.getD (Option.map _ (ImagePc.next (succeeds (.build t.tag t.dir)) .build)) []
        cases succeeds (.build t.tag t.dir)
        · rfl
        · rfl
    · rw [if_neg hgit, ImagePc.afterLook, if_neg Bool.false_ne_true, if_neg hgit]
      show (if succeeds (.pull t.start.source) = true then _ else _) = _ :: Option.getD
        (Option.map _ (ImagePc.next (succeeds (.pull t.start.source)) .pull)) []
      cases succeeds (.pull t.start.source)
      · rfl
      · rfl

end ImageTask

/-! ## A client and its Docker -/

/-- Where an image comes from. -/
inductive ImageOrigin
  /-- Built from the repository of the git image of this name. -/
  | built (name : String)
  | pulled (source : String)
  deriving DecidableEq

structure ImageHost where
  /-- The images that Docker has, by their tags. -/
  images : HashMap String ImageOrigin
  /-- The directories of builds, and the images whose repositories they hold. -/
  dirs : HashMap String String
  tasks : List ImageTask
  /-- The images of all deploys so far. -/
  asked : List ImageNode
  /-- What the deploys have run; nothing is known of an image that is gone by then. -/
  ran : List (ImageNode × Option ImageOrigin)
  deriving DecidableEq

namespace ImageHost

inductive Label
  | deploy (plan : Plan) (env : List (String × String))
  /-- A task looks for its image. -/
  | look (i : Nat)
  /-- The command of a task is done. -/
  | done (i : Nat) (succeeds : Bool)
  /-- Somebody removes an image. -/
  | rmi (tag : String)
  deriving DecidableEq

def boot : ImageHost where
  images := ∅
  dirs := ∅
  tasks := []
  asked := []
  ran := []

/-- What the command of a task has done to the client. -/
def effect (s : ImageHost) (t : ImageTask) (succeeds : Bool) : Option ImageHost :=
  match t.pc, succeeds with
  | .clone, true => some { s with dirs := s.dirs.insert t.dir t.name }
  | .build, true => (s.dirs.lookup t.dir).map fun name =>
      { s with images := s.images.insert t.tag (.built name), dirs := s.dirs.erase t.dir }
  | .build, false => some { s with dirs := s.dirs.erase t.dir }
  | .pull, true => some { s with
      images := s.images.insert t.start.source (.pulled t.start.source) }
  | .run, true => some { s with ran := (t.plan.image, s.images.lookup t.tag) :: s.ran }
  | .clone, false | .pull, false | .run, false => some s
  | .look, _ => none

/-- A task goes on, or ends. -/
def replaceTask (s : ImageHost) (i : Nat) (t : Option ImageTask) : ImageHost :=
  { s with tasks := s.tasks.take i ++ t.toList ++ s.tasks.drop (i + 1) }

/-- Where a task goes on that looks for its image now. -/
def afterLook (s : ImageHost) (t : ImageTask) : ImagePc :=
  .afterLook (s.images.lookup t.tag).isSome t.start.sourceType

def step (s : ImageHost) : Label → Option ImageHost
  | .deploy plan env =>
      some { s with asked := plan.image :: s.asked,
                    tasks := s.tasks ++ [{ plan := plan, env := env, pc := .look }] }
  | .look i => s.tasks[i]?.bind fun t =>
      if t.pc = .look then
        let g := s.replaceTask i (some { t with pc := s.afterLook t })
        -- A build first removes what is in its directory.
        some (if s.afterLook t = .clone then { g with dirs := s.dirs.erase t.dir } else g)
      else none
  | .done i succeeds => s.tasks[i]?.bind fun t =>
      (s.effect t succeeds).map fun g =>
        g.replaceTask i ((t.pc.next succeeds).map fun pc => { t with pc := pc })
  | .rmi tag => some { s with images := s.images.erase tag }

end ImageHost

/-- The images of a client. -/
def imageHost : Machine ImageHost ImageHost.Label where
  init := .boot
  step := ImageHost.step

namespace ImageHost

variable (s : ImageHost)

/-- No git image runs in place of another. -/
def RunsOwn : Prop :=
  ∀ r ∈ s.ran, r.1.sourceType = "git" → ∀ name, r.2 = some (.built name) → name = r.1.name

/-- A git image is not asked for after one of another name that gets the same tag, and
is not built where another one is being built. -/
def TellsApart : Label → Prop
  | .deploy plan _ => plan.image.sourceType = "git" →
      ∀ i ∈ s.asked, i.sourceType = "git" → Alike i.name plan.image.name →
        i.name = plan.image.name
  | .look i => ∀ t ∈ s.tasks[i]?, s.afterLook t = .clone →
      ∀ t' ∈ s.tasks, t'.pc.builds → t'.dir = t.dir → t'.name = t.name
  | _ => True

instance : DecidablePred s.TellsApart := fun label => by
  unfold TellsApart
  split <;> infer_instance

/-! ## What the tags tell -/

/-- What a client keeps while its deploys are told apart. -/
structure Inv : Prop where
  asked : ∀ t ∈ s.tasks, t.plan.image ∈ s.asked
  distinct : ∀ i ∈ s.asked, i.sourceType = "git" → ∀ j ∈ s.asked, j.sourceType = "git" →
    Alike i.name j.name → i.name = j.name
  git : ∀ t ∈ s.tasks, t.pc.builds → t.plan.image.sourceType = "git"
  alone : ∀ t ∈ s.tasks, t.pc.builds → ∀ t' ∈ s.tasks, t'.pc.builds → t'.dir = t.dir →
    t'.name = t.name
  cloned : ∀ t ∈ s.tasks, t.pc.builds → ∀ name ∈ s.dirs.lookup t.dir, name = t.name
  images : ∀ tag name, s.images.lookup tag = some (.built name) →
    ∃ i ∈ s.asked, i.sourceType = "git" ∧ i.name = name ∧ i.imageTag = tag
  ran : s.RunsOwn

variable {s} {g : ImageHost} {t : ImageTask}

theorem mem_replaceTask {i : Nat} {next : Option ImageTask} {t' : ImageTask}
    (h : t' ∈ (s.replaceTask i next).tasks) : t' ∈ next ∨ t' ∈ s.tasks := by
  rcases List.mem_append.mp h with h | h
  · rcases List.mem_append.mp h with h | h
    · exact .inr (List.mem_of_mem_take h)
    · exact .inl (Option.mem_toList.mp h)
  · exact .inr (List.mem_of_mem_drop h)

theorem mem_replaceTask_some {i : Nat} {u t' : ImageTask}
    (h : t' ∈ (s.replaceTask i (some u)).tasks) : t' = u ∨ t' ∈ s.tasks :=
  (mem_replaceTask h).imp_left fun h => (Option.some.inj h).symm

theorem boot_inv : boot.Inv where
  asked := fun _ h => by cases h
  distinct := fun _ h => by cases h
  git := fun _ h => by cases h
  alone := fun _ h => by cases h
  cloned := fun _ h => by cases h
  images := fun _ _ h => by cases h
  ran := fun _ h => by cases h

/-- A step that starts no build. -/
theorem Inv.of_le (h : s.Inv) (hasked : g.asked = s.asked)
    (htasks : ∀ t ∈ g.tasks, ∃ u ∈ s.tasks, u.plan = t.plan ∧ (t.pc.builds → u.pc.builds))
    (hdirs : ∀ t ∈ g.tasks, t.pc.builds → ∀ name ∈ g.dirs.lookup t.dir,
      name ∈ s.dirs.lookup t.dir ∨ name = t.name)
    (himages : ∀ tag name, g.images.lookup tag = some (.built name) →
      s.images.lookup tag = some (.built name) ∨
        ∃ i ∈ s.asked, i.sourceType = "git" ∧ i.name = name ∧ i.imageTag = tag)
    (hran : g.RunsOwn) : g.Inv where
  asked := by
    intro t ht
    obtain ⟨u, hu, hplan, -⟩ := htasks t ht
    rw [hasked, ← hplan]
    exact h.asked u hu
  distinct := by
    rw [hasked]
    exact h.distinct
  git := by
    intro t ht hbuilds
    obtain ⟨u, hu, hplan, hbuilds'⟩ := htasks t ht
    rw [← hplan]
    exact h.git u hu (hbuilds' hbuilds)
  alone := by
    intro t ht hbuilds t' ht' hbuilds' hdir
    obtain ⟨u, hu, hplan, hub⟩ := htasks t ht
    obtain ⟨u', hu', hplan', hub'⟩ := htasks t' ht'
    have hdiru : u'.dir = u.dir :=
      (ImageTask.dir_congr hplan').trans (hdir.trans (ImageTask.dir_congr hplan).symm)
    have hname := h.alone u hu (hub hbuilds) u' hu' (hub' hbuilds') hdiru
    rwa [ImageTask.name_congr hplan, ImageTask.name_congr hplan'] at hname
  cloned := by
    intro t ht hbuilds name hname
    rcases hdirs t ht hbuilds name hname with hname | hname
    · obtain ⟨u, hu, hplan, hub⟩ := htasks t ht
      rw [← ImageTask.dir_congr hplan] at hname
      rw [h.cloned u hu (hub hbuilds) name hname, ImageTask.name_congr hplan]
    · exact hname
  images := by
    intro tag name hname
    rw [hasked]
    exact (himages tag name hname).elim (h.images tag name) id
  ran := hran

theorem Inv.deploy (h : s.Inv) {plan : Plan} {env : List (String × String)}
    (hC : s.TellsApart (.deploy plan env)) :
    Inv { s with asked := plan.image :: s.asked,
                 tasks := s.tasks ++ [{ plan := plan, env := env, pc := .look }] } := by
  have htasks : ∀ {t}, t ∈ s.tasks ++ [{ plan := plan, env := env, pc := ImagePc.look }] →
      t.pc.builds → t ∈ s.tasks := by
    intro t ht hbuilds
    rcases List.mem_append.mp ht with ht | ht
    · exact ht
    · rw [List.mem_singleton.mp ht] at hbuilds
      cases hbuilds
  refine ⟨fun t ht => ?_, fun i hi higit j hj hjgit halike => ?_,
    fun t ht hbuilds => h.git t (htasks ht hbuilds) hbuilds,
    fun t ht hbuilds t' ht' hbuilds' =>
      h.alone t (htasks ht hbuilds) hbuilds t' (htasks ht' hbuilds') hbuilds',
    fun t ht hbuilds => h.cloned t (htasks ht hbuilds) hbuilds,
    fun tag name hname => ?_, h.ran⟩
  · rcases List.mem_append.mp ht with ht | ht
    · exact List.mem_cons_of_mem _ (h.asked t ht)
    · rw [List.mem_singleton.mp ht]
      exact List.mem_cons_self
  · rcases List.mem_cons.mp hi with rfl | hi <;> rcases List.mem_cons.mp hj with rfl | hj
    · rfl
    · exact (hC higit j hj hjgit halike.symm).symm
    · exact hC hjgit i hi higit halike
    · exact h.distinct i hi higit j hj hjgit halike
  · obtain ⟨i, hi, hgit⟩ := h.images tag name hname
    exact ⟨i, List.mem_cons_of_mem _ hi, hgit⟩

/-- A task whose image is there, or is pulled. -/
theorem Inv.look (h : s.Inv) {i : Nat} (ht : s.tasks[i]? = some t) {pc : ImagePc}
    (hpc : pc.builds = false) : (s.replaceTask i (some { t with pc := pc })).Inv := by
  refine h.of_le rfl (fun t' ht' => ?_) (fun _ _ _ _ => .inl) (fun _ _ => .inl) h.ran
  rcases mem_replaceTask_some ht' with rfl | ht'
  · exact ⟨t, List.mem_of_getElem? ht, rfl, fun h => absurd h (by simp [hpc])⟩
  · exact ⟨t', ht', rfl, id⟩

/-- A task that starts a build, in a directory that no other image is built in. -/
theorem Inv.lookBuild (h : s.Inv) {i : Nat} (ht : s.tasks[i]? = some t)
    (hgit : t.plan.image.sourceType = "git")
    (hC : ∀ t' ∈ s.tasks, t'.pc.builds → t'.dir = t.dir → t'.name = t.name) :
    Inv { s.replaceTask i (some { t with pc := .clone }) with dirs := s.dirs.erase t.dir } := by
  refine ⟨fun t' ht' => ?_, h.distinct, fun t' ht' hbuilds => ?_,
    fun t₁ ht₁ hb₁ t₂ ht₂ hb₂ hdir => ?_, fun t' ht' hbuilds name hname => ?_, h.images, h.ran⟩
  · rcases mem_replaceTask_some ht' with rfl | ht'
    · exact h.asked t (List.mem_of_getElem? ht)
    · exact h.asked t' ht'
  · rcases mem_replaceTask_some ht' with rfl | ht'
    · exact hgit
    · exact h.git t' ht' hbuilds
  · rcases mem_replaceTask_some ht₁ with rfl | ht₁ <;>
      rcases mem_replaceTask_some ht₂ with rfl | ht₂
    · rfl
    · exact hC t₂ ht₂ hb₂ hdir
    · exact (hC t₁ ht₁ hb₁ hdir.symm).symm
    · exact h.alone t₁ ht₁ hb₁ t₂ ht₂ hb₂ hdir
  · replace hname : (s.dirs.erase t.dir).lookup t'.dir = some name := hname
    obtain ⟨hne, hname⟩ := HashMap.lookup_erase_eq_some.mp hname
    rcases mem_replaceTask_some ht' with rfl | ht'
    · exact absurd rfl hne
    · exact h.cloned t' ht' hbuilds name hname

theorem tasks_of_effect {succeeds : Bool} (hg : s.effect t succeeds = some g) :
    g.tasks = s.tasks ∧ g.asked = s.asked := by
  unfold effect at hg
  split at hg
  case h_2 =>
    obtain ⟨name, -, rfl⟩ := Option.map_eq_some_iff.mp hg
    exact ⟨rfl, rfl⟩
  case h_9 => cases hg
  all_goals
    obtain rfl := Option.some.inj hg
    exact ⟨rfl, rfl⟩

/-- The images a command leaves are those that were there, and its own. -/
theorem images_of_effect (h : s.Inv) {succeeds : Bool} (ht : t ∈ s.tasks)
    (hg : s.effect t succeeds = some g) (tag name : String)
    (hname : g.images.lookup tag = some (.built name)) :
    s.images.lookup tag = some (.built name) ∨
      ∃ i ∈ s.asked, i.sourceType = "git" ∧ i.name = name ∧ i.imageTag = tag := by
  unfold effect at hg
  split at hg
  case h_2 pc _ hpc =>
    obtain ⟨name', hdir, rfl⟩ := Option.map_eq_some_iff.mp hg
    have hbuilds : t.pc.builds := by
      rw [hpc]
      rfl
    replace hname : (s.images.insert t.tag (.built name')).lookup tag = some (.built name) := hname
    rw [HashMap.lookup_insert_eq] at hname
    split at hname
    · rename_i htag
      cases hname
      exact .inr ⟨t.plan.image, h.asked t ht, h.git t ht hbuilds,
        (h.cloned t ht hbuilds name hdir).symm, htag.symm⟩
    · exact .inl hname
  case h_4 =>
    obtain rfl := Option.some.inj hg
    replace hname : (s.images.insert _ (.pulled t.start.source)).lookup tag =
      some (.built name) := hname
    rw [HashMap.lookup_insert_eq] at hname
    split at hname
    · cases hname
    · exact .inl hname
  case h_9 => cases hg
  all_goals
    obtain rfl := Option.some.inj hg
    exact .inl hname

/-- A directory holds what it held, or the repository of the task's image. -/
theorem dirs_of_effect {succeeds : Bool} (hg : s.effect t succeeds = some g) (dir name : String)
    (hname : g.dirs.lookup dir = some name) :
    s.dirs.lookup dir = some name ∨ t.pc.builds ∧ dir = t.dir ∧ name = t.name := by
  have herase : (s.dirs.erase t.dir).lookup dir = some name → s.dirs.lookup dir = some name :=
    fun h => (HashMap.lookup_erase_eq_some.mp h).2
  unfold effect at hg
  split at hg
  case h_1 pc _ hpc =>
    obtain rfl := Option.some.inj hg
    replace hname : (s.dirs.insert t.dir t.name).lookup dir = some name := hname
    rw [HashMap.lookup_insert_eq] at hname
    split at hname
    · rename_i hdir
      refine .inr ⟨?_, hdir, (Option.some.inj hname).symm⟩
      rw [hpc]
      rfl
    · exact .inl hname
  case h_2 =>
    obtain ⟨name', -, rfl⟩ := Option.map_eq_some_iff.mp hg
    exact .inl (herase hname)
  case h_3 =>
    obtain rfl := Option.some.inj hg
    exact .inl (herase hname)
  case h_9 => cases hg
  all_goals
    obtain rfl := Option.some.inj hg
    exact .inl hname

/-- What is under the tag of a git image is this image. -/
theorem ran_of_effect (h : s.Inv) {succeeds : Bool} (ht : t ∈ s.tasks)
    (hg : s.effect t succeeds = some g) : g.RunsOwn := by
  unfold effect at hg
  split at hg
  case h_2 =>
    obtain ⟨name', -, rfl⟩ := Option.map_eq_some_iff.mp hg
    exact h.ran
  case h_5 =>
    obtain rfl := Option.some.inj hg
    intro r hr hgit name hname
    rcases List.mem_cons.mp hr with rfl | hr
    · obtain ⟨i, hi, higit, rfl, htag⟩ := h.images t.tag name hname
      have halike : Alike i.name t.plan.image.name :=
        (ImageNode.imageTag_eq_iff higit hgit).mp htag
      exact h.distinct i hi higit t.plan.image (h.asked t ht) hgit halike
    · exact h.ran r hr hgit name hname
  case h_9 => cases hg
  all_goals
    obtain rfl := Option.some.inj hg
    exact h.ran

theorem Inv.done (h : s.Inv) {i : Nat} {succeeds : Bool} (ht : s.tasks[i]? = some t)
    (hg : s.effect t succeeds = some g) :
    (g.replaceTask i ((t.pc.next succeeds).map fun pc => { t with pc := pc })).Inv := by
  have htmem : t ∈ s.tasks := List.mem_of_getElem? ht
  obtain ⟨htasks, hasked⟩ := tasks_of_effect hg
  have hmem : ∀ t' ∈ (g.replaceTask i ((t.pc.next succeeds).map fun pc =>
      { t with pc := pc })).tasks,
      ∃ u ∈ s.tasks, u.plan = t'.plan ∧ (t'.pc.builds → u.pc.builds) := by
    intro t' ht'
    rcases mem_replaceTask ht' with ht' | ht'
    · obtain ⟨pc, hpc, rfl⟩ := Option.map_eq_some_iff.mp ht'
      exact ⟨t, htmem, rfl, ImagePc.builds_of_next hpc⟩
    · rw [htasks] at ht'
      exact ⟨t', ht', rfl, id⟩
  have hran : g.RunsOwn := ran_of_effect h htmem hg
  refine h.of_le hasked hmem (fun t' ht' hbuilds name hname => ?_)
    (fun tag name hname => images_of_effect h htmem hg tag name hname) hran
  refine (dirs_of_effect hg t'.dir name hname).imp_right fun ⟨hb, hdir, hname'⟩ => ?_
  obtain ⟨u, hu, hplan, hub⟩ := hmem t' ht'
  have hdiru : u.dir = t.dir := (ImageTask.dir_congr hplan).trans hdir
  rw [hname', ← h.alone t htmem hb u hu (hub hbuilds) hdiru]
  exact ImageTask.name_congr hplan

theorem Inv.rmi (h : s.Inv) (tag : String) : Inv { s with images := s.images.erase tag } := by
  refine h.of_le rfl (fun t ht => ⟨t, ht, rfl, id⟩) (fun _ _ _ _ => .inl)
    (fun tag' name hname => .inl ?_) h.ran
  replace hname : (s.images.erase tag).lookup tag' = some (.built name) := hname
  exact (HashMap.lookup_erase_eq_some.mp hname).2

theorem Inv.step (h : s.Inv) (label : Label) (hC : s.TellsApart label)
    (hstep : s.step label = some g) : g.Inv := by
  cases label with
  | deploy plan env =>
    obtain rfl := Option.some.inj hstep
    exact h.deploy hC
  | look i =>
    obtain ⟨t, ht, hstep⟩ := Option.bind_eq_some_iff.mp hstep
    split at hstep
    · obtain rfl := Option.some.inj hstep
      rcases ImagePc.afterLook_cases (s.images.lookup t.tag).isSome t.start.sourceType with
        ⟨hclone, hgit⟩ | hbuilds
      · replace hclone : s.afterLook t = .clone := hclone
        rw [if_pos hclone, hclone]
        exact h.lookBuild ht hgit (hC t ht hclone)
      · replace hbuilds : (s.afterLook t).builds = false := hbuilds
        rw [if_neg fun hclone => by rw [hclone] at hbuilds; cases hbuilds]
        exact h.look ht hbuilds
    · cases hstep
  | done i succeeds =>
    obtain ⟨t, ht, hstep⟩ := Option.bind_eq_some_iff.mp hstep
    obtain ⟨g', hg', rfl⟩ := Option.map_eq_some_iff.mp hstep
    exact h.done ht hg'
  | rmi tag =>
    obtain rfl := Option.some.inj hstep
    exact h.rmi tag

/-- One git image is deployed, and then another one. -/
def oneAfterOther (p q : Plan) : List Label :=
  [.deploy p [], .look 0, .done 0 true, .done 0 true, .done 0 true,
    .deploy q [], .look 0, .done 0 true]

/-- Of two git images that share a tag, the second one is never built. -/
theorem not_runsOwn_of_alike {p q : Plan} (hp : p.image.sourceType = "git")
    (hq : q.image.sourceType = "git") (hne : p.image.name ≠ q.image.name)
    (halike : Alike p.image.name q.image.name) :
    ¬imageHost.Always RunsOwn imageHost.init (oneAfterOther p q) := by
  obtain ⟨tag, hptag, hqtag⟩ : ∃ tag, (∀ pc, ImageTask.tag ⟨p, [], pc⟩ = tag) ∧
      ∀ pc, ImageTask.tag ⟨q, [], pc⟩ = tag :=
    ⟨p.imageTag, fun _ => rfl, fun _ => ((ImageNode.imageTag_eq_iff hp hq).mpr halike).symm⟩
  obtain ⟨dir, hdir⟩ : ∃ dir, ∀ pc, ImageTask.dir ⟨p, [], pc⟩ = dir :=
    ⟨clientBuildDir tag, fun pc => congrArg clientBuildDir (hptag pc)⟩
  have hgit : ∀ pc, (ImageTask.start ⟨p, [], pc⟩).sourceType = "git" := fun _ => hp
  have hcloned : ∀ pc (m : HashMap String String) name,
      (m.insert dir name).lookup (ImageTask.dir ⟨p, [], pc⟩) = some name := fun pc m name => by
    rw [← hdir pc]
    exact AList.lookup_insert m
  have hthere : ∀ pc (m : HashMap String ImageOrigin) origin,
      (m.insert tag origin).lookup (ImageTask.tag ⟨q, [], pc⟩) = some origin :=
    fun pc m origin => by
      rw [← hqtag pc]
      exact AList.lookup_insert m
  have hrun : ∃ t, imageHost.run imageHost.init (oneAfterOther p q) = some t ∧
      (q.image, some (.built p.image.name)) ∈ t.ran := by
    simp [oneAfterOther, imageHost, Machine.run_cons, ImageHost.step, boot, afterLook,
      ImagePc.afterLook, hgit, replaceTask, effect, ImagePc.next, hptag, hdir, hcloned, hthere,
      ImageTask.name, -AList.insert_empty]
  intro h
  obtain ⟨t, ht, hr⟩ := hrun
  exact hne (h.last ht _ hr hq _ rfl)

end ImageHost

open ImageHost in
/-- Two git images have different tags exactly if their names differ in more than slashes
and dashes, and a client that can tell its images apart runs each as itself. -/
theorem gitImages_exact (i j : ImageNode) (labels : List ImageHost.Label) :
    (i.sourceType = "git" → j.sourceType = "git" →
      (i.imageTag ≠ j.imageTag ↔ ¬Alike i.name j.name)) ∧
    (imageHost.Meets TellsApart imageHost.init labels →
      imageHost.Always RunsOwn imageHost.init labels) := by
  refine ⟨fun hi hj => not_congr (ImageNode.imageTag_eq_iff hi hj), fun h => ?_⟩
  have hinv : imageHost.Always Inv imageHost.init labels :=
    Machine.always_of_meets (fun _ label _ hI hC hstep => hI.step label hC hstep) boot_inv h
  exact hinv.mono fun _ => Inv.ran

/-- A plan of a git image. -/
def gitPlan (name : String) : Plan where
  connectionId := 1
  connectionName := "c"
  bridgeId := 1
  node := { id := 1, hostname := "h", portRangeStart := 30000, portRangeEnd := 40000,
            status := .online, authDigest := none, nodeUuid := "u" }
  image := { id := 1, name := name, source := "https://h/r.git", sourceType := "git" }
  ports := []

open ImageHost in
theorem gitImages_exact_twoNames :
    (gitPlan "a").image.imageTag ≠ (gitPlan "b").image.imageTag ∧
      imageHost.Always RunsOwn imageHost.init (oneAfterOther (gitPlan "a") (gitPlan "b")) :=
  ⟨((gitImages_exact _ _ []).1 rfl rfl).mpr (by decide),
    (gitImages_exact (gitPlan "a").image (gitPlan "b").image _).2 (by decide)⟩

open ImageHost in
/-- The second of these images is there under the name of the first. -/
theorem slashAndDash_shareTag :
    (gitPlan "a/b").image.name ≠ (gitPlan "a-b").image.name ∧
      (gitPlan "a/b").image.imageTag = (gitPlan "a-b").image.imageTag ∧
      ¬imageHost.Always RunsOwn imageHost.init
        (oneAfterOther (gitPlan "a/b") (gitPlan "a-b")) :=
  ⟨by decide, by decide, not_runsOwn_of_alike rfl rfl (by decide) (by decide)⟩

end Kdct
