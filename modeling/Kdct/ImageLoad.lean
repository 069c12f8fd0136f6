/-
Loading images, `load_image` (`crates/kdcts/src/image.rs`).

A git source is cloned into a directory named after the image, and nobody removes the
directory.  `Files` is what the program relies on of `git clone` and the file system:
a directory that holds files stays so, and is not cloned into.  A load therefore
depends on the repository alone exactly in the histories where every load of a sound
repository finds its directory without files.
-/
import Kdct.Database
import Kdct.Lib.Machine
import Kdct.Text

namespace Kdct

/-! ## Sources -/

/-- `load_image` calls this `source_type`. -/
def sourceTypeOf (source : String) : String :=
  if startsWith source "http" || endsWith source ".git" then "git" else "docker_hub"

/-- `str::trim_end_matches(".git")`, on the characters in reverse. -/
def trimGit : List Char → List Char
  | 't' :: 'i' :: 'g' :: '.' :: cs => trimGit cs
  | cs => cs

/-- The last part of a path, without `.git` at its end. -/
def repositoryName (source : String) : String :=
  String.ofList (trimGit (source.toList.reverse.takeWhile (· ≠ '/'))).reverse

def imageName (source : String) (customName : Option String) : String :=
  customName.getD (if sourceTypeOf source = "git" then repositoryName source else source)

/-! ## A load -/

inductive LoadError
  | cloneFailed (source : String)
  | noDockerfile (source : String)
  /-- The text is SQLite's. -/
  | database
  deriving DecidableEq

def cloneFailedText (source : String) : String := "git clone failed for " ++ source

def noDockerfileText (source : String) : String :=
  "No Dockerfile found in " ++ source ++ ". A Dockerfile is required for Git-sourced images."

/-- Directories that are cloned into. -/
structure Files (φ : Type) where
  /-- There is no such directory, or it is empty. -/
  vacant : φ → String → Bool
  pathExists : φ → String → Bool
  /-- What a successful clone leaves, of a repository with or without a Dockerfile. -/
  clone : φ → String → Bool → φ
  clone_self : ∀ f dir dockerfile, vacant (clone f dir dockerfile) dir = false
  clone_keeps : ∀ f dir dockerfile dir',
    vacant f dir' = false → vacant (clone f dir dockerfile) dir' = false
  clone_dockerfile : ∀ f dir dockerfile, vacant f dir = true →
    pathExists (clone f dir dockerfile) (dir ++ "/Dockerfile") = dockerfile

structure LoadCall where
  source : String
  customName : Option String
  /-- Whether the repository has a Dockerfile at the time of the call, if git can
  reach it. -/
  repository : Option Bool
  /-- The database fails. -/
  fault : Bool
  deriving DecidableEq

namespace LoadCall

def name (call : LoadCall) : String := imageName call.source call.customName

def buildDir (call : LoadCall) : String := "/tmp/kdct-build-" ++ call.name

def IsGit (call : LoadCall) : Prop := sourceTypeOf call.source = "git"

/-- Nothing but earlier loads is in the way of this one. -/
def Sound (call : LoadCall) : Prop := call.repository = some true ∧ call.fault = false

instance (call : LoadCall) : Decidable call.IsGit := inferInstanceAs (Decidable (_ = _))

instance (call : LoadCall) : Decidable call.Sound := inferInstanceAs (Decidable (_ ∧ _))

end LoadCall

/-- The server's disk and database, and the loads so far with their results. -/
structure Loader (φ : Type) where
  files : φ
  db : Database
  log : List (LoadCall × Except LoadError String)

section

variable {φ : Type} (files : Files φ)

/-- `git clone` into a directory that holds files fails. -/
def gitClone (f : φ) (dir : String) (repository : Option Bool) : Option φ :=
  repository.bind fun dockerfile =>
    if files.vacant f dir then some (files.clone f dir dockerfile) else none

def insertLoaded (f : φ) (db : Database) (call : LoadCall) :
    (φ × Database) × Except LoadError String :=
  if call.fault then ((f, db), .error .database)
  else ((f, db.insertImage call.name call.source (sourceTypeOf call.source)), .ok call.name)

def loadImage (f : φ) (db : Database) (call : LoadCall) :
    (φ × Database) × Except LoadError String :=
  if call.IsGit then
    match gitClone files f call.buildDir call.repository with
    | none => ((f, db), .error (.cloneFailed call.source))
    | some f =>
        if files.pathExists f (call.buildDir ++ "/Dockerfile") then insertLoaded f db call
        else ((f, db), .error (.noDockerfile call.source))
  else insertLoaded f db call

/-- Loads one after the other, from any disk and database. -/
def loader (start : φ × Database) : Machine (Loader φ) LoadCall where
  init := { files := start.1, db := start.2, log := [] }
  step s call :=
    let out := loadImage files s.files s.db call
    some { files := out.1.1, db := out.1.2, log := (call, out.2) :: s.log }

end

namespace Loader

variable {φ : Type} {files : Files φ} {start : φ × Database} {s t : Loader φ} {call : LoadCall}

/-- A load of a git source succeeds exactly if the repository is sound. -/
def Repeatable (s : Loader φ) : Prop :=
  ∀ e ∈ s.log, e.1.IsGit → (e.2.isOk = true ↔ e.1.Sound)

/-- A load of a sound repository finds a directory without files. -/
def FindsVacant (files : Files φ) (s : Loader φ) (call : LoadCall) : Prop :=
  call.IsGit → call.Sound → files.vacant s.files call.buildDir = true

theorem insertLoaded_isOk (f : φ) (db : Database) :
    (insertLoaded f db call).2.isOk = !call.fault := by
  unfold insertLoaded
  cases call.fault <;> rfl

theorem loadImage_isOk (hgit : call.IsGit) :
    (loadImage files s.files s.db call).2.isOk = true ↔
      call.Sound ∧ files.vacant s.files call.buildDir = true := by
  unfold loadImage gitClone LoadCall.Sound
  rw [if_pos hgit]
  cases hrepository : call.repository with
  | none => simp [Except.isOk, Except.toBool]
  | some dockerfile =>
      by_cases hvacant : files.vacant s.files call.buildDir = true
      · have hexists := files.clone_dockerfile s.files call.buildDir dockerfile hvacant
        simp only [Option.bind_some, hvacant, if_true, hexists]
        cases dockerfile with
        | true => simp [insertLoaded_isOk]
        | false => simp [Except.isOk, Except.toBool]
      · simp [hvacant, Except.isOk, Except.toBool]

/-- Loads depend on their repositories alone exactly in the histories where each load
of a sound one finds its directory without files. -/
theorem repeatable_iff_findsVacant (files : Files φ) (start : φ × Database)
    (calls : List LoadCall) :
    (loader files start).Always Repeatable (loader files start).init calls ↔
      (loader files start).Meets (FindsVacant files) (loader files start).init calls := by
  refine Machine.always_iff_meets (I := Repeatable) ?_ (fun _ h => h) ?_ ?_
  · rintro s call t hs hC hstep
    obtain rfl := Option.some.inj hstep
    rintro e he hgit
    rcases List.mem_cons.mp he with rfl | he
    · rw [loadImage_isOk hgit]
      exact ⟨And.left, fun hsound => ⟨hsound, hC hgit hsound⟩⟩
    · exact hs e he hgit
  · rintro s call t - hstep ht hgit hsound
    obtain rfl := Option.some.inj hstep
    have hok := (ht _ List.mem_cons_self hgit).mpr hsound
    exact ((loadImage_isOk hgit).mp hok).2
  · exact fun _ h => absurd h List.not_mem_nil

/-! ## Loading again -/

/-- A directory that was cloned into never is vacant again. -/
theorem occupied_step {dir : String} (h : files.vacant s.files dir = false)
    (hstep : (loader files start).step s call = some t) : files.vacant t.files dir = false := by
  have hinsert : ∀ f : φ, files.vacant f dir = false →
      files.vacant (insertLoaded f s.db call).1.1 dir = false := by
    intro f hf
    unfold insertLoaded
    split <;> exact hf
  obtain rfl := Option.some.inj hstep
  show files.vacant (loadImage files s.files s.db call).1.1 dir = false
  unfold loadImage
  split
  · split
    · exact h
    · rename_i f hclone
      obtain ⟨dockerfile, -, hclone⟩ := Option.bind_eq_some_iff.mp hclone
      have hf : files.vacant f dir = false := by
        split at hclone
        · obtain rfl := Option.some.inj hclone
          exact files.clone_keeps _ _ _ _ h
        · cases hclone
      split
      · exact hinsert f hf
      · exact hf
  · exact hinsert s.files h

/-- A load that reaches its repository leaves its directory occupied, whatever it
returns. -/
theorem occupied_of_reached (hgit : call.IsGit) (hreached : call.repository.isSome)
    (hstep : (loader files start).step s call = some t) :
    files.vacant t.files call.buildDir = false := by
  obtain ⟨dockerfile, hrepository⟩ := Option.isSome_iff_exists.mp hreached
  by_cases hvacant : files.vacant s.files call.buildDir = true
  · obtain rfl := Option.some.inj hstep
    show files.vacant (loadImage files s.files s.db call).1.1 call.buildDir = false
    have hself := files.clone_self s.files call.buildDir dockerfile
    unfold loadImage gitClone
    rw [if_pos hgit, hrepository]
    simp only [Option.bind_some, hvacant, if_true]
    split
    · unfold insertLoaded
      split <;> exact hself
    · exact hself
  · exact occupied_step (Bool.eq_false_iff.mpr hvacant) hstep

/-- The second load of a name fails, whatever was loaded in between. -/
theorem not_repeatable_of_loadedTwice {first again : LoadCall} {before between : List LoadCall}
    (hfirst : first.IsGit) (hreached : first.repository.isSome) (hagain : again.IsGit)
    (hsound : again.Sound) (hname : again.buildDir = first.buildDir) :
    ¬(loader files start).Always Repeatable (loader files start).init
      (before ++ first :: (between ++ [again])) := by
  intro h
  have hoccupied : ∀ (calls : List LoadCall) (s : Loader φ),
      files.vacant s.files first.buildDir = false →
        ∃ t, (loader files start).run s calls = some t ∧
          files.vacant t.files first.buildDir = false := by
    intro calls
    induction calls with
    | nil => exact fun s hs => ⟨s, rfl, hs⟩
    | cons call calls ih =>
        intro s hs
        have hstep : (loader files start).step s call = some _ := rfl
        exact ih _ (occupied_step hs hstep)
  have htotal : ∀ (calls : List LoadCall) (s : Loader φ),
      ∃ t, (loader files start).run s calls = some t := by
    intro calls
    induction calls with
    | nil => exact fun s => ⟨s, rfl⟩
    | cons call calls ih => exact fun s => ih _
  obtain ⟨s, hs⟩ := htotal before (loader files start).init
  obtain ⟨t, ht⟩ := htotal [first] s
  have hstep : (loader files start).step s first = some t := by
    obtain ⟨u, hu, hlast⟩ := Machine.run_cons_eq_some _ ht
    exact hu.trans hlast
  obtain ⟨u, hu, hvacant⟩ := hoccupied between t (occupied_of_reached hfirst hreached hstep)
  obtain ⟨v, hv⟩ := htotal [again] u
  have hlast : Repeatable v := by
    refine h.last ?_
    rw [Machine.run_append, hs, Option.bind_some, ← List.singleton_append, Machine.run_append, ht,
      Option.bind_some, Machine.run_append, hu]
    exact hv
  obtain ⟨w, hw, hend⟩ := Machine.run_cons_eq_some _ hv
  obtain rfl := Option.some.inj hend
  obtain rfl := Option.some.inj hw
  have hok := (hlast _ List.mem_cons_self hagain).mpr hsound
  have hfound := ((loadImage_isOk hagain).mp hok).2
  rw [hname, hvacant] at hfound
  cases hfound

end Loader

/-- Directories that hold one clone each. -/
def sampleFiles : Files (List (String × Bool)) where
  vacant f dir := f.all fun e => e.1 != dir
  pathExists f path := f.any fun e => e.2 && e.1 ++ "/Dockerfile" == path
  clone f dir dockerfile := (dir, dockerfile) :: f
  clone_self f dir dockerfile := by simp
  clone_keeps f dir dockerfile dir' h := by
    rw [List.all_cons, h, Bool.and_false]
  clone_dockerfile f dir dockerfile h := by
    have hrest : (f.any fun e => e.2 && e.1 ++ "/Dockerfile" == dir ++ "/Dockerfile") = false := by
      refine List.any_eq_false.mpr fun e he => ?_
      have hne : e.1 ≠ dir := bne_iff_ne.mp (List.all_eq_true.mp h e he)
      rw [Bool.and_eq_true, beq_iff_eq]
      rintro ⟨-, heq⟩
      have hlist := congrArg String.toList heq
      rw [String.toList_append, String.toList_append] at hlist
      exact hne (String.toList_injective (List.append_cancel_right hlist))
    rw [List.any_cons, hrest, Bool.or_false, beq_self_eq_true, Bool.and_true]

def sampleLoad : LoadCall where
  source := "https://example.com/web.git"
  customName := none
  repository := some true
  fault := false

/-- The same load twice. -/
theorem loadTwice_fails : ∃ s, (loader sampleFiles ([], .empty)).run
    (loader sampleFiles ([], .empty)).init [sampleLoad, sampleLoad] = some s ∧
      s.log.map Prod.snd =
        [.error (.cloneFailed "https://example.com/web.git"), .ok "web"] ∧ ¬s.Repeatable := by
  refine ⟨_, rfl, by decide, fun h => ?_⟩
  have hok := (h _ List.mem_cons_self (by decide)).mpr (by decide)
  exact absurd hok (by decide)

end Kdct
