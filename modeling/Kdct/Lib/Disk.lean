/-
Paths on a disk.

`Disk.resolve` follows the parts of a path from a directory: `..` leads to the directory
above, a link is replaced by the parts of its target, and only so many links are followed.
What it yields is a place, the names from the root down.  Under a directory that holds no
links, however deep, plain names lead to their own place if there is something and nowhere
otherwise; and behind a path that leads to such a directory they do the same.

`oneDir` is the smallest disk that holds files in a directory.
-/
import Kdct.TextSlices

inductive DiskEntry (α : Type)
  | file (data : α)
  | dir
  | link (target : List Char)

/-- What is at a place. -/
structure Disk (α : Type) where
  entry : List (List Char) → Option (DiskEntry α)
  entry_nil : entry [] = some .dir
  /-- Only directories hold anything. -/
  entry_parent : ∀ place name, (entry (place ++ [name])).isSome → entry place = some .dir

namespace Disk

/-- Where a path starts. -/
def base (here : List (List Char)) (path : List Char) : List (List Char) :=
  if path.head? = some '/' then [] else here

/-- Follows the parts of a path. -/
def resolve {α : Type} (disk : Disk α) (links : Nat) (here : List (List Char)) :
    List (List Char) → Option (List (List Char))
  | [] => some here
  | part :: rest =>
      if part = [] ∨ part = ['.'] then disk.resolve links here rest
      else if part = ['.', '.'] then disk.resolve links here.dropLast rest
      else
        match disk.entry (here ++ [part]) with
        | none => none
        | some .dir => disk.resolve links (here ++ [part]) rest
        | some (.file _) => if rest = [] then some (here ++ [part]) else none
        | some (.link target) =>
            match links with
            | 0 => none
            | links + 1 =>
                disk.resolve links (base here target) (target.splitOn '/' ++ rest)
termination_by parts => (links, parts.length)

variable {α : Type} (disk : Disk α) (cwd : List (List Char))

/-- The place that a path leads to, over at most 40 links. -/
def canonicalize (path : List Char) : Option (List (List Char)) :=
  if path = [] ∨ Char.ofNat 0 ∈ path then none
  else disk.resolve 40 (base cwd path) (path.splitOn '/')

/-- The contents of a regular file. -/
def read (path : List Char) : Option α :=
  match (disk.canonicalize cwd path).bind disk.entry with
  | some (.file data) => some data
  | _ => none

/-- `Path::join`. -/
def join (front path : List Char) : List Char :=
  if path.head? = some '/' then path
  else if front = [] ∨ front.getLast? = some '/' then front ++ path
  else front ++ '/' :: path

/-- Neither empty nor one of the two names that every directory has. -/
def Plain (name : List Char) : Prop := name ≠ [] ∧ name ≠ ['.'] ∧ name ≠ ['.', '.']

/-- All parts of a path are plain. -/
def PlainPath (path : List Char) : Prop := ∀ name ∈ path.splitOn '/', Plain name

instance (name : List Char) : Decidable (Plain name) := inferInstanceAs (Decidable (_ ∧ _ ∧ _))

instance (path : List Char) : Decidable (PlainPath path) :=
  inferInstanceAs (Decidable (∀ name ∈ _, Plain name))

/-- There are no links under a place. -/
def Linkless (place : List (List Char)) : Prop :=
  ∀ names target, disk.entry (place ++ names) ≠ some (.link target)

variable {disk cwd} {here place : List (List Char)} {links : Nat}

theorem Linkless.append (h : disk.Linkless place) (names : List (List Char)) :
    disk.Linkless (place ++ names) := by
  intro more target
  rw [List.append_assoc]
  exact h (names ++ more) target

/-- Nothing is behind what is no directory. -/
theorem entry_append (h : disk.entry place ≠ some .dir) {names : List (List Char)}
    (hnames : names ≠ []) : disk.entry (place ++ names) = none := by
  induction names using List.reverseRecOn with
  | nil => exact absurd rfl hnames
  | append_singleton names name ih =>
      rw [← List.append_assoc]
      refine Option.not_isSome_iff_eq_none.mp fun hsome => ?_
      have hparent := disk.entry_parent _ name hsome
      by_cases hnil : names = []
      · rw [hnil, List.append_nil] at hparent
        exact h hparent
      · rw [ih hnil] at hparent
        cases hparent

theorem resolve_cons_plain {part : List Char} {rest : List (List Char)} (hpart : Plain part) :
    disk.resolve links here (part :: rest) =
      match disk.entry (here ++ [part]) with
      | none => none
      | some .dir => disk.resolve links (here ++ [part]) rest
      | some (.file _) => if rest = [] then some (here ++ [part]) else none
      | some (.link target) =>
          match links with
          | 0 => none
          | links + 1 =>
              disk.resolve links (base here target) (target.splitOn '/' ++ rest) := by
  rw [resolve, if_neg (not_or.mpr ⟨hpart.1, hpart.2.1⟩), if_neg hpart.2.2]

/-- Plain names lead to their own place. -/
theorem resolve_plain (hdir : disk.entry here = some .dir) (hlinkless : disk.Linkless here)
    {names : List (List Char)} (hplain : ∀ name ∈ names, Plain name) :
    disk.resolve links here names =
      if (disk.entry (here ++ names)).isSome then some (here ++ names) else none := by
  induction names generalizing here with
  | nil =>
      rw [resolve, List.append_nil, hdir]
      rfl
  | cons name names ih =>
      rw [List.forall_mem_cons] at hplain
      have hassoc : here ++ name :: names = here ++ [name] ++ names := by simp
      rw [resolve_cons_plain hplain.1, hassoc]
      split
      · rename_i hnone
        cases names with
        | nil =>
            rw [List.append_nil, hnone]
            rfl
        | cons _ _ =>
            rw [entry_append (by simp [hnone]) (by simp)]
            rfl
      · rename_i hsub
        exact ih hsub (hlinkless.append [name]) hplain.2
      · rename_i data hfile
        cases names with
        | nil =>
            rw [List.append_nil, hfile]
            rfl
        | cons _ _ =>
            rw [entry_append (by simp [hfile]) (by simp)]
            rfl
      · rename_i target hlink
        exact absurd hlink (hlinkless [name] target)

/-- A path that goes on goes on from where it leads. -/
theorem resolve_append {root : List (List Char)} {parts more : List (List Char)}
    {result : Option (List (List Char))} (hroot : disk.entry root = some .dir)
    (hmore : ∀ links, disk.resolve links root more = result)
    (h : disk.resolve links here parts = some root) :
    disk.resolve links here (parts ++ more) = result := by
  fun_induction resolve disk links here parts with
  | case1 links here =>
      obtain rfl := Option.some.inj h
      exact hmore links
  | case2 links here part rest hdot ih =>
      rw [List.cons_append, resolve, if_pos hdot]
      exact ih h
  | case3 links here rest hdot ih =>
      rw [List.cons_append, resolve, if_neg hdot, if_pos rfl]
      exact ih h
  | case4 => cases h
  | case5 links here part rest hdot hup hdir ih =>
      rw [List.cons_append, resolve, if_neg hdot, if_neg hup, hdir]
      exact ih h
  | case6 links here part hdot hup data hfile =>
      obtain rfl := Option.some.inj h
      rw [hroot] at hfile
      cases hfile
  | case7 => cases h
  | case8 => cases h
  | case9 here part rest hdot hup target hlink links ih =>
      rw [List.append_assoc] at ih
      rw [List.cons_append, resolve, if_neg hdot, if_neg hup, hlink]
      exact ih h

/-- A slash at the end of a path leads nowhere else. -/
theorem resolve_concat_nil {parts : List (List Char)}
    (h : disk.resolve links here (parts ++ [[]]) = some place) :
    disk.resolve links here parts = some place := by
  fun_induction resolve disk links here parts with
  | case1 links here => simpa [resolve] using h
  | case2 links here part rest hdot ih =>
      rw [List.cons_append, resolve, if_pos hdot] at h
      exact ih h
  | case3 links here rest hdot ih =>
      rw [List.cons_append, resolve, if_neg hdot, if_pos rfl] at h
      exact ih h
  | case4 links here part rest hdot hup hnone =>
      rw [List.cons_append, resolve, if_neg hdot, if_neg hup, hnone] at h
      cases h
  | case5 links here part rest hdot hup hdir ih =>
      rw [List.cons_append, resolve, if_neg hdot, if_neg hup, hdir] at h
      exact ih h
  | case6 links here part hdot hup data hfile =>
      rw [List.cons_append, resolve, if_neg hdot, if_neg hup, hfile] at h
      cases h
  | case7 links here part rest hdot hup data hfile hrest =>
      rw [List.cons_append, resolve, if_neg hdot, if_neg hup, hfile] at h
      simp at h
  | case8 here part rest hdot hup target hlink =>
      rw [List.cons_append, resolve, if_neg hdot, if_neg hup, hlink] at h
      cases h
  | case9 here part rest hdot hup target hlink links ih =>
      rw [List.append_assoc] at ih
      rw [List.cons_append, resolve, if_neg hdot, if_neg hup, hlink] at h
      exact ih h

/-! ## Paths behind paths -/

theorem plain_of_length {name : List Char} (h : 2 < name.length) : Plain name := by
  refine ⟨?_, ?_, ?_⟩
  all_goals
    rintro rfl
    simp at h

namespace PlainPath

variable {path : List Char} (h : PlainPath path)
include h

theorem ne_nil : path ≠ [] := by
  rintro rfl
  exact (h [] (by simp)).1 rfl

theorem head?_ne : path.head? ≠ some '/' := by
  intro hhead
  obtain ⟨rest, rfl⟩ := List.head?_eq_some_iff.mp hhead
  have hsplit : ('/' :: rest).splitOn '/' = [] :: rest.splitOn '/' :=
    List.splitOn_append_cons_self [] rest
  exact (h [] (hsplit ▸ List.mem_cons_self)).1 rfl

theorem getLast?_ne : path.getLast? ≠ some '/' := by
  intro hlast
  obtain ⟨init, rfl⟩ := List.getLast?_eq_some_iff.mp hlast
  have hsplit : (init ++ ['/']).splitOn '/' = init.splitOn '/' ++ [[]] :=
    List.splitOn_append_cons_self init []
  exact (h [] (hsplit ▸ List.mem_concat_self)).1 rfl

/-- One more directory. -/
theorem append_cons {more : List Char} (hmore : PlainPath more) :
    PlainPath (path ++ '/' :: more) := by
  intro name hname
  rw [List.splitOn_append_cons_self] at hname
  rcases List.mem_append.mp hname with hname | hname
  · exact h name hname
  · exact hmore name hname

/-- A longer last name, of three characters and more. -/
theorem append_extension {extension : List Char} (hslash : '/' ∉ extension)
    (hlen : 2 < extension.length) : PlainPath (path ++ extension) := by
  have hlong : ∀ last : List Char, Plain (last ++ extension) := by
    intro last
    refine plain_of_length ?_
    rw [List.length_append]
    omega
  intro name hname
  by_cases hmem : '/' ∈ path.reverse
  · obtain ⟨last, init, hrev, hlast⟩ := List.eq_append_cons_of_mem hmem
    have hpath : path = init.reverse ++ '/' :: last.reverse := by
      rw [← path.reverse_reverse, hrev]
      simp
    have hslash' : '/' ∉ last.reverse ++ extension := by
      rw [List.mem_append, List.mem_reverse, not_or]
      exact ⟨hlast, hslash⟩
    rw [hpath, List.append_assoc, List.cons_append, List.splitOn_append_cons_self,
      List.splitOn_eq_singleton hslash'] at hname
    rcases List.mem_append.mp hname with hname | hname
    · refine h name ?_
      rw [hpath, List.splitOn_append_cons_self]
      exact List.mem_append_left _ hname
    · rw [List.mem_singleton.mp hname]
      exact hlong last.reverse
  · have hslash' : '/' ∉ path ++ extension := by
      rw [List.mem_append, ← List.mem_reverse, not_or]
      exact ⟨hmem, hslash⟩
    rw [List.splitOn_eq_singleton hslash'] at hname
    rw [List.mem_singleton.mp hname]
    exact hlong path

end PlainPath

/-- Two joins are one. -/
theorem join_join {front path more : List Char} (hfront : front ≠ []) (hpath : PlainPath path)
    (hmore : more.head? ≠ some '/') :
    join (join front path) more = join front (path ++ '/' :: more) := by
  have hlast : ∀ init : List Char, (init ++ path).getLast? ≠ some '/' := by
    intro init
    rw [List.getLast?_append_of_ne_nil _ hpath.ne_nil]
    exact hpath.getLast?_ne
  have hhead : (path ++ '/' :: more).head? ≠ some '/' := by
    rw [List.head?_append_of_ne_nil _ hpath.ne_nil]
    exact hpath.head?_ne
  have hbehind : ∀ init : List Char, join (init ++ path) more = init ++ path ++ '/' :: more := by
    intro init
    have hne : init ++ path ≠ [] := List.append_ne_nil_of_right_ne_nil _ hpath.ne_nil
    rw [join, if_neg hmore, if_neg (not_or.mpr ⟨hne, hlast init⟩)]
  have hin : ∀ path', path'.head? ≠ some '/' → join front path' =
      if front.getLast? = some '/' then front ++ path' else front ++ '/' :: path' := by
    intro path' hpath'
    rw [join, if_neg hpath']
    simp only [hfront, false_or]
  rw [hin path hpath.head?_ne, hin _ hhead]
  split
  · rw [hbehind front, List.append_assoc]
  · rw [← List.singleton_append, ← List.append_assoc, hbehind (front ++ ['/'])]
    simp

/-- Where a path of plain names behind that of a directory leads. -/
theorem canonicalize_join {root : List (List Char)} {front path : List Char}
    (hfront : disk.canonicalize cwd front = some root) (hroot : disk.entry root = some .dir)
    (hlinkless : disk.Linkless root) (hnul : Char.ofNat 0 ∉ path)
    (hplain : PlainPath path) :
    disk.canonicalize cwd (join front path) =
      if (disk.entry (root ++ path.splitOn '/')).isSome then some (root ++ path.splitOn '/')
      else none := by
  have hresolve : ∀ links, disk.resolve links root (path.splitOn '/') =
      if (disk.entry (root ++ path.splitOn '/')).isSome then some (root ++ path.splitOn '/')
      else none := fun links => resolve_plain hroot hlinkless hplain
  unfold canonicalize at hfront
  split at hfront
  · cases hfront
  · rename_i hgood
    obtain ⟨hnil, hnul'⟩ := not_or.mp hgood
    rw [join, if_neg hplain.head?_ne]
    by_cases hslash : front.getLast? = some '/'
    · obtain ⟨init, rfl⟩ := List.getLast?_eq_some_iff.mp hslash
      rw [List.splitOn_append_cons_self] at hfront
      have hgood' : ¬(init ++ ['/'] ++ path = [] ∨ Char.ofNat 0 ∈ init ++ ['/'] ++ path) := by
        rw [not_or, List.mem_append, not_or]
        exact ⟨List.append_ne_nil_of_right_ne_nil _ hplain.ne_nil, hnul', hnul⟩
      rw [if_pos (.inr hslash), canonicalize, if_neg hgood']
      have hbase : base cwd (init ++ ['/'] ++ path) = base cwd (init ++ ['/']) := by
        cases init <;> rfl
      rw [hbase, List.append_assoc, List.singleton_append, List.splitOn_append_cons_self]
      exact resolve_append hroot hresolve (resolve_concat_nil hfront)
    · have hgood' : ¬(front ++ '/' :: path = [] ∨ Char.ofNat 0 ∈ front ++ '/' :: path) := by
        rw [not_or, List.mem_append, List.mem_cons, not_or, not_or]
        exact ⟨List.append_ne_nil_of_left_ne_nil hnil _, hnul', by decide, hnul⟩
      rw [if_neg (not_or.mpr ⟨hnil, hslash⟩), canonicalize, if_neg hgood']
      have hbase : base cwd (front ++ '/' :: path) = base cwd front := by
        cases front with
        | nil => exact absurd rfl hnil
        | cons _ _ => rfl
      rw [hbase, List.splitOn_append_cons_self]
      exact resolve_append hroot hresolve hfront

/-! ## One directory -/

/-- A directory in the root, and its files. -/
def oneDir (dir : List Char) (files : List (List Char × α)) : Disk α where
  entry
    | [] => some .dir
    | [name] => if name = dir then some .dir else none
    | [name, file] => if name = dir then (files.lookup file).map .file else none
    | _ => none
  entry_nil := rfl
  entry_parent := by
    intro place name h
    match place, h with
    | [], _ => rfl
    | [front], h =>
        by_cases hfront : front = dir
        · exact if_pos hfront
        · rw [List.singleton_append] at h
          dsimp only at h
          rw [if_neg hfront] at h
          cases h
    -- nothing is deeper
    | _ :: _ :: rest, h => cases rest <;> cases h

variable {dir : List Char} {files : List (List Char × α)}

theorem linkless_oneDir (place : List (List Char)) : (oneDir dir files).Linkless place := by
  have hentry : ∀ names target, (oneDir dir files).entry names ≠ some (.link target) := by
    intro names target
    unfold oneDir
    dsimp only
    split
    · exact fun h => by cases h
    · split <;> exact fun h => by cases h
    · split
      · rename_i file _
        cases files.lookup file <;> exact fun h => by cases h
      · exact fun h => by cases h
    · exact fun h => by cases h
  exact fun names => hentry (place ++ names)

theorem canonicalize_oneDir (hplain : Plain dir) (hslash : '/' ∉ dir)
    (hnul : Char.ofNat 0 ∉ dir) :
    (oneDir dir files).canonicalize cwd ('/' :: dir) = some [dir] := by
  have hgood : ¬('/' :: dir = [] ∨ Char.ofNat 0 ∈ '/' :: dir) := by
    rw [not_or, List.mem_cons, not_or]
    exact ⟨List.cons_ne_nil _ _, by decide, hnul⟩
  have hsplit : ('/' :: dir).splitOn '/' = [[], dir] := by
    have hcons : ('/' :: dir).splitOn '/' = [] :: dir.splitOn '/' :=
      List.splitOn_append_cons_self [] dir
    rw [hcons, List.splitOn_eq_singleton hslash]
  have hentry : (oneDir dir files).entry [dir] = some .dir := if_pos rfl
  rw [canonicalize, if_neg hgood, hsplit]
  show resolve _ 40 [] [[], dir] = _
  rw [resolve, if_pos (.inl rfl),
    resolve_plain (oneDir dir files).entry_nil (linkless_oneDir []) (by simpa using hplain),
    List.nil_append, hentry]
  rfl

end Disk
