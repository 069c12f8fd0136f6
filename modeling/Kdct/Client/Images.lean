/-
The images of a deploy on its client (`image_start` in `crates/tunnel/src/client.rs`).

A deploy names its image by a tag and a source.  The client takes an image that is
there under the tag as it is; else it builds a git source under the tag, or pulls the
source.  A reference of Docker's gets through to the client as long as it is not taken
for a git source.
-/
import Kdct.Client.Forwarding
import Kdct.ImageLoad

namespace Kdct

/-! ## Docker's references -/

def isLowerAlnum (c : Char) : Bool := c.isLower || c.isDigit

/-- Letters and digits with single separators between them: a dot, one or two
underscores or dashes. -/
def isPathComponent (cs : List Char) : Bool :=
  let parts := cs.splitOnP fun c => !isLowerAlnum c
  let seps := cs.splitOnP isLowerAlnum
  parts.head? != some [] && parts.getLast? != some [] &&
    seps.all fun sep =>
      sep == [] || sep == ['.'] || sep == ['_'] || sep == ['_', '_'] || sep.all (· == '-')

/-- A host name, and a port if there is one. -/
def isDomain (cs : List Char) : Bool :=
  let host := cs.takeWhile (· ≠ ':')
  let port := cs.dropWhile (· ≠ ':')
  (host.splitOn '.').all (fun part => part.head?.any Char.isAlphanum &&
      part.getLast?.any Char.isAlphanum && part.all fun c => c.isAlphanum || c == '-') &&
    (port == [] || port.tail != [] && port.tail.all Char.isDigit)

def isTag (cs : List Char) : Bool :=
  cs.length ≤ 128 && cs.head?.any (fun c => c.isAlphanum || c == '_') &&
    cs.all fun c => c.isAlphanum || c == '_' || c == '.' || c == '-'

/-- `[registry/]repository[:tag]` -/
def isReference (s : String) : Bool :=
  let parts := s.toList.splitOn '/'
  let last := parts.getLast?.getD []
  let tag := last.dropWhile (· ≠ ':')
  isPathComponent (last.takeWhile (· ≠ ':')) && (tag == [] || isTag tag.tail) &&
    match parts.dropLast with
    | [] => true
    | first :: rest => (isDomain first || isPathComponent first) && rest.all isPathComponent

def isUrl (s : String) : Bool := startsWith s "http://" || startsWith s "https://"

/-! ## What a client runs for a deploy -/

inductive DockerCommand
  | stop (containerName : String)
  | rm (containerName : String)
  | gitClone (source branch dir : String)
  | build (imageTag dir : String)
  | pull (image : String)
  | run (args : DockerRun)

/-- The directory of a build, under the client's directory for temporary files. -/
def clientBuildDir (imageTag : String) : String :=
  "kdct-build-" ++ String.ofList (imageTag.toList.map fun c =>
    if c ∈ ['/', ':', '@', '\\'] then '_' else c)

/-- The commands of `image_start`, of which `succeeds` says how they come out. -/
def imageStart (containerExists imageExists : String → Bool) (succeeds : DockerCommand → Bool)
    (start : ImageStart) : List DockerCommand :=
  let run := DockerCommand.run (dockerRun start).1
  let dir := clientBuildDir start.imageTag
  (if containerExists start.containerName then
      [.stop start.containerName, .rm start.containerName]
    else []) ++
    if imageExists start.imageTag then [run]
    else if start.sourceType = "git" then
      let clone := DockerCommand.gitClone start.source "main" dir
      let build := DockerCommand.build start.imageTag dir
      if !succeeds clone then [clone]
      else if !succeeds build then [clone, build]
      else [clone, build, run]
    else
      let pull := DockerCommand.pull start.source
      if succeeds pull then [pull, run] else [pull]

/-- A command that uses this image or none. -/
def DockerCommand.Uses (image : String) : DockerCommand → Prop
  | .stop _ | .rm _ => True
  | .gitClone .. | .build .. => False
  | .pull image' => image' = image
  | .run args => args.image = image

/-- A source gets through from the load to the client's Docker. -/
structure Survives (source : String) : Prop where
  /-- A load runs no git. -/
  load : ∀ {φ : Type} (files : Files φ) (f : φ) (db : Database) (call : LoadCall),
    call.source = source → loadImage files f db call = insertLoaded f db call
  stored : ∀ (db : Database) (call : LoadCall), call.source = source → call.fault = false →
    ∃ i, (insertLoaded () db call).1.2.getImageByName call.name = some i ∧
      i.source = source ∧ i.sourceType = "docker_hub"
  deployed : ∀ plan : Plan, plan.image.source = source →
    plan.image.sourceType = sourceTypeOf source →
    ∀ env containerExists imageExists succeeds,
      let commands := imageStart containerExists imageExists succeeds (plan.imageStart env)
      (∀ c ∈ commands, c.Uses source) ∧
        (imageExists source = false → .pull source ∈ commands) ∧
        (imageExists source = true ∨ succeeds (.pull source) = true →
          ∃ args, .run args ∈ commands ∧ args.image = source)

theorem sourceTypeOf_eq {source : String} : sourceTypeOf source = "docker_hub" ↔
    startsWith source "http" = false ∧ endsWith source ".git" = false := by
  unfold sourceTypeOf
  split
  · rename_i h
    refine iff_of_false (by decide) fun ⟨hhttp, hgit⟩ => ?_
    rw [hhttp, hgit] at h
    cases h
  · rename_i h
    rw [Bool.not_eq_true, Bool.or_eq_false_iff] at h
    exact iff_of_true rfl h

theorem imageStart_pulled {source : String} {start : ImageStart} (htag : start.imageTag = source)
    (hsource : start.source = source) (htype : start.sourceType ≠ "git")
    (containerExists imageExists : String → Bool) (succeeds : DockerCommand → Bool) :
    let commands := imageStart containerExists imageExists succeeds start
    (∀ c ∈ commands, c.Uses source) ∧
      (imageExists source = false → .pull source ∈ commands) ∧
      (imageExists source = true ∨ succeeds (.pull source) = true →
        ∃ args, .run args ∈ commands ∧ args.image = source) := by
  have hrun : (DockerCommand.run (dockerRun start).1).Uses source := htag
  have hclean : ∀ rest : List DockerCommand, (∀ c ∈ rest, c.Uses source) →
      ∀ c ∈ (if containerExists start.containerName then
        [DockerCommand.stop start.containerName, .rm start.containerName] else []) ++ rest,
          c.Uses source := by
    intro rest hrest c hc
    rcases List.mem_append.mp hc with hc | hc
    · split at hc
      · rcases List.mem_pair.mp hc with rfl | rfl <;> trivial
      · cases hc
    · exact hrest c hc
  unfold imageStart
  simp only [htag, hsource, if_neg htype]
  by_cases hexists : imageExists source = true
  · simp only [hexists, if_true]
    refine ⟨hclean _ fun c hc => ?_, fun h => (by cases h),
      fun _ => ⟨(dockerRun start).1, ?_, htag⟩⟩
    · rw [List.mem_singleton.mp hc]
      exact hrun
    · exact List.mem_append_right _ (List.mem_singleton_self _)
  · simp only [hexists, Bool.false_eq_true, if_false]
    by_cases hpull : succeeds (.pull source) = true
    · simp only [hpull, if_true]
      refine ⟨hclean _ fun c hc => ?_, fun _ => ?_, fun _ => ⟨(dockerRun start).1, ?_, htag⟩⟩
      · rcases List.mem_pair.mp hc with rfl | rfl
        · rfl
        · exact hrun
      · exact List.mem_append_right _ List.mem_cons_self
      · exact List.mem_append_right _ (List.mem_cons_of_mem _ (List.mem_singleton_self _))
    · simp only [hpull, Bool.false_eq_true, if_false]
      refine ⟨hclean _ fun c hc => ?_, fun _ => ?_, fun h => ?_⟩
      · rw [List.mem_singleton.mp hc]
        rfl
      · exact List.mem_append_right _ (List.mem_singleton_self _)
      · rcases h with h | h <;> cases h

theorem getImageByName_insertImage (db : Database) (name source sourceType : String) :
    ∃ i, (db.insertImage name source sourceType).getImageByName name = some i ∧
      i.source = source ∧ i.sourceType = sourceType := by
  refine ⟨{ id := db.images.seq + 1, name := name, source := source, sourceType := sourceType },
    ?_, rfl, rfl⟩
  have hnone : (db.images.deleteWhere fun r => r.name == name).rows.find?
      (fun r => r.name == name) = none := by
    refine List.find?_eq_none.mpr fun r hr => ?_
    rw [(Table.mem_deleteWhere.mp hr).2]
    decide
  show ((db.images.deleteWhere fun r => r.name == name).rows ++ [_]).find? _ = _
  rw [List.find?_append, hnone]
  simp [Table.deleteWhere]

theorem startsWith_http_of_isUrl {s : String} (h : isUrl s = true) :
    startsWith s "http" = true := by
  have hpre : ∀ scheme : String, startsWith scheme "http" = true →
      startsWith s scheme = true → startsWith s "http" = true := fun scheme hhttp hs =>
    startsWith_iff.mpr ((startsWith_iff.mp hhttp).trans (startsWith_iff.mp hs))
  rcases Bool.or_eq_true_iff.mp h with h | h
  · exact hpre "http://" (by decide) h
  · exact hpre "https://" (by decide) h

/-- A source that is taken for a git source is cloned when it is loaded. -/
theorem not_survives_of_git {source : String} (h : sourceTypeOf source = "git") :
    ¬Survives source := by
  intro hsurvives
  let call : LoadCall :=
    { source := source, customName := none, repository := none, fault := false }
  have hload := hsurvives.load sampleFiles [] .empty call rfl
  have hgit : call.IsGit := h
  rw [loadImage, if_pos hgit] at hload
  cases congrArg (fun out => out.2.isOk) hload

/-- A reference of Docker's gets through exactly if it does not start with `http`, and
whatever is a URL or ends with `.git` is taken for a git source. -/
theorem survives_iff (source : String) :
    (Survives source ↔ startsWith source "http" = false ∧ endsWith source ".git" = false) ∧
      (isUrl source = true ∨ endsWith source ".git" = true → sourceTypeOf source = "git") := by
  have hor : sourceTypeOf source = "git" ∨ sourceTypeOf source = "docker_hub" := by
    unfold sourceTypeOf
    split
    · exact .inl rfl
    · exact .inr rfl
  refine ⟨?_, fun h => ?_⟩
  · rw [← sourceTypeOf_eq]
    constructor
    · exact fun h => hor.resolve_left fun hgit => not_survives_of_git hgit h
    · intro hhub
      refine ⟨fun files f db call hcall => ?_, fun db call hcall hfault => ?_,
        fun plan hsource htype env containerExists imageExists succeeds => ?_⟩
      · have hgit : ¬call.IsGit := by
          rw [LoadCall.IsGit, hcall, hhub]
          decide
        rw [loadImage, if_neg hgit]
      · obtain ⟨i, hi, hisource, hitype⟩ :=
          getImageByName_insertImage db call.name call.source (sourceTypeOf call.source)
        refine ⟨i, ?_, hisource.trans hcall, ?_⟩
        · unfold insertLoaded
          rw [hfault]
          exact hi
        · rw [hitype, hcall, hhub]
      · have htype' : plan.image.sourceType ≠ "git" := by
          rw [htype, hhub]
          decide
        refine imageStart_pulled ?_ hsource htype' containerExists imageExists succeeds
        show plan.imageTag = source
        rw [Plan.imageTag, if_neg htype', hsource]
  · refine hor.resolve_right fun hhub => ?_
    obtain ⟨hhttp, hgit⟩ := sourceTypeOf_eq.mp hhub
    rcases h with h | h
    · rw [startsWith_http_of_isUrl h] at hhttp
      cases hhttp
    · rw [hgit] at h
      cases h

/-- The image of Docker's own web server is cloned. -/
theorem httpd_isCloned : isReference "httpd:2.4" = true ∧ isUrl "httpd:2.4" = false ∧
    endsWith "httpd:2.4" ".git" = false ∧ ¬Survives "httpd:2.4" :=
  ⟨by decide, by decide, by decide, not_survives_of_git (by decide)⟩

end Kdct
