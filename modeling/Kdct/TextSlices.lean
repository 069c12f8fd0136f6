/-
Slices of strings.

A slice of a Rust string is given by byte positions, and panics where a position is
past the end or inside a character.  `none` below stands for that panic.
-/
import Kdct.Text
import Mathlib.Data.List.Infix

namespace Kdct

/-- How many bytes the characters take. -/
def bytesOf : List Char → Nat
  | [] => 0
  | c :: cs => c.utf8Size + bytesOf cs

/-- `&s[n..]`. -/
def dropBytes : Nat → List Char → Option (List Char)
  | 0, cs => some cs
  | _ + 1, [] => none
  | n + 1, c :: cs => if c.utf8Size ≤ n + 1 then dropBytes (n + 1 - c.utf8Size) cs else none

/-- `&s[..n]`. -/
def takeBytes : Nat → List Char → Option (List Char)
  | 0, _ => some []
  | _ + 1, [] => none
  | n + 1, c :: cs =>
      if c.utf8Size ≤ n + 1 then (takeBytes (n + 1 - c.utf8Size) cs).map (c :: ·) else none

/-- `&s[a..b]`. -/
def sliceBytes (a b : Nat) (cs : List Char) : Option (List Char) :=
  if a ≤ b then (dropBytes a cs).bind (takeBytes (b - a)) else none

/-! ## Prefixes, suffixes and separators -/

def stripPrefix (pre text : List Char) : Option (List Char) :=
  if pre <+: text then some (text.drop pre.length) else none

def stripSuffix (suf text : List Char) : Option (List Char) :=
  if suf <:+ text then some (text.take (text.length - suf.length)) else none

/-- `split_once`. -/
def splitOnce (sep : Char) (text : List Char) : Option (List Char × List Char) :=
  if sep ∈ text then
    some (text.takeWhile (· ≠ sep), (text.dropWhile (· ≠ sep)).tail)
  else none

theorem stripPrefix_append (pre rest : List Char) : stripPrefix pre (pre ++ rest) = some rest := by
  rw [stripPrefix, if_pos (List.prefix_append pre rest), List.drop_left]

theorem splitOnce_append {sep : Char} {front : List Char} (h : sep ∉ front) (back : List Char) :
    splitOnce sep (front ++ sep :: back) = some (front, back) := by
  have hmem : sep ∈ front ++ sep :: back := List.mem_append_right _ List.mem_cons_self
  rw [splitOnce, if_pos hmem, takeWhile_ne h, dropWhile_ne h, List.tail_cons]

theorem bytesOf_append (xs ys : List Char) : bytesOf (xs ++ ys) = bytesOf xs + bytesOf ys := by
  induction xs with
  | nil => simp [bytesOf]
  | cons c cs ih => simp [bytesOf, ih, Nat.add_assoc]

theorem bytesOf_eq_zero {cs : List Char} (h : bytesOf cs = 0) : cs = [] := by
  cases cs with
  | nil => rfl
  | cons c cs =>
      have hpos : 0 < c.utf8Size := c.utf8Size_pos
      simp only [bytesOf] at h
      omega

theorem dropBytes_bytesOf (xs ys : List Char) : dropBytes (bytesOf xs) (xs ++ ys) = some ys := by
  induction xs with
  | nil => cases ys <;> rfl
  | cons c cs ih =>
      have hpos : 0 < c.utf8Size := c.utf8Size_pos
      obtain ⟨n, hn⟩ : ∃ n, bytesOf (c :: cs) = n + 1 := ⟨bytesOf (c :: cs) - 1, by
        simp only [bytesOf]
        omega⟩
      have hrest : n + 1 - c.utf8Size = bytesOf cs := by
        simp only [bytesOf] at hn
        omega
      have hle : c.utf8Size ≤ n + 1 := by
        simp only [bytesOf] at hn
        omega
      rw [hn, List.cons_append, dropBytes, if_pos hle, hrest, ih]

theorem takeBytes_bytesOf (xs ys : List Char) : takeBytes (bytesOf xs) (xs ++ ys) = some xs := by
  induction xs with
  | nil => cases ys <;> rfl
  | cons c cs ih =>
      have hpos : 0 < c.utf8Size := c.utf8Size_pos
      obtain ⟨n, hn⟩ : ∃ n, bytesOf (c :: cs) = n + 1 := ⟨bytesOf (c :: cs) - 1, by
        simp only [bytesOf]
        omega⟩
      have hrest : n + 1 - c.utf8Size = bytesOf cs := by
        simp only [bytesOf] at hn
        omega
      have hle : c.utf8Size ≤ n + 1 := by
        simp only [bytesOf] at hn
        omega
      rw [hn, List.cons_append, takeBytes, if_pos hle, hrest, ih, Option.map_some]

/-- What a slice leaves out is a prefix of as many bytes. -/
theorem eq_append_of_dropBytes {n : Nat} {cs rest : List Char}
    (h : dropBytes n cs = some rest) : ∃ pre, cs = pre ++ rest ∧ bytesOf pre = n := by
  induction cs generalizing n with
  | nil =>
      cases n with
      | zero => exact ⟨[], Option.some.inj h, rfl⟩
      | succ n => cases h
  | cons c cs ih =>
      cases n with
      | zero => exact ⟨[], Option.some.inj h, rfl⟩
      | succ n =>
          rw [dropBytes] at h
          split at h
          · rename_i hle
            obtain ⟨pre, hcs, hpre⟩ := ih h
            refine ⟨c :: pre, by rw [hcs, List.cons_append], ?_⟩
            rw [bytesOf, hpre]
            omega
          · cases h

theorem dropBytes_of_isPrefix {pre cs : List Char} (h : pre <+: cs) :
    dropBytes (bytesOf pre) cs = some (cs.drop pre.length) := by
  obtain ⟨rest, rfl⟩ := h
  rw [dropBytes_bytesOf, List.drop_left]

/-- The slice panics exactly when no prefix has that many bytes. -/
theorem dropBytes_eq_none_iff {n : Nat} {cs : List Char} :
    dropBytes n cs = none ↔ ¬∃ pre, pre <+: cs ∧ bytesOf pre = n := by
  constructor
  · rintro h ⟨pre, hpre, rfl⟩
    rw [dropBytes_of_isPrefix hpre] at h
    cases h
  · intro h
    refine Option.eq_none_iff_forall_ne_some.mpr fun rest hrest => h ?_
    obtain ⟨pre, rfl, hlen⟩ := eq_append_of_dropBytes hrest
    exact ⟨pre, List.prefix_append pre rest, hlen⟩

/-- Two prefixes of one text with as many bytes are the same. -/
theorem eq_of_prefix_bytesOf {a b cs : List Char} (ha : a <+: cs) (hb : b <+: cs)
    (h : bytesOf a = bytesOf b) : a = b := by
  obtain ⟨more, rfl⟩ | ⟨more, rfl⟩ := List.prefix_or_prefix_of_prefix ha hb
  · rw [bytesOf_append] at h
    have hmore : more = [] := bytesOf_eq_zero (by omega)
    rw [hmore, List.append_nil]
  · rw [bytesOf_append] at h
    have hmore : more = [] := bytesOf_eq_zero (by omega)
    rw [hmore, List.append_nil]

theorem sliceBytes_bytesOf (xs ys zs : List Char) :
    sliceBytes (bytesOf xs) (bytesOf (xs ++ ys)) (xs ++ ys ++ zs) = some ys := by
  have hle : bytesOf xs ≤ bytesOf (xs ++ ys) := by
    rw [bytesOf_append]
    omega
  have hsub : bytesOf (xs ++ ys) - bytesOf xs = bytesOf ys := by
    rw [bytesOf_append]
    omega
  rw [sliceBytes, if_pos hle, List.append_assoc, dropBytes_bytesOf, Option.bind_some, hsub,
    takeBytes_bytesOf]

theorem sliceBytes_of_lt {a b : Nat} (h : b < a) (cs : List Char) : sliceBytes a b cs = none :=
  if_neg (by omega)

end Kdct
