/-
The string functions of Rust's standard library that the program uses, on the
characters of a string.
-/
import Mathlib.Data.List.Basic

namespace Kdct

/-- `char::is_whitespace`. -/
def isWhitespace (c : Char) : Bool :=
  (0x09 ≤ c.toNat && c.toNat ≤ 0x0D) || c.toNat == 0x20 || c.toNat == 0x85 || c.toNat == 0xA0 ||
    c.toNat == 0x1680 || (0x2000 ≤ c.toNat && c.toNat ≤ 0x200A) || c.toNat == 0x2028 ||
    c.toNat == 0x2029 || c.toNat == 0x202F || c.toNat == 0x205F || c.toNat == 0x3000

/-- `str::trim`. -/
def trim (s : String) : String :=
  String.ofList ((s.toList.dropWhile isWhitespace).reverse.dropWhile isWhitespace).reverse

/-- `str::starts_with`. -/
def startsWith (s pre : String) : Bool := pre.toList.isPrefixOf s.toList

/-- `str::ends_with`. -/
def endsWith (s suf : String) : Bool := suf.toList.isSuffixOf s.toList

/-- `str::len`. -/
def byteLen (s : String) : Nat := s.utf8ByteSize

/-- `str::replace` of single characters by `-`. -/
def dashed (chars : List Char) (s : String) : String :=
  String.ofList (s.toList.map fun c => if c ∈ chars then '-' else c)

/-- `str::split` at commas. -/
def splitCommas (s : String) : List String := (s.toList.splitOn ',').map String.ofList

/-- A port number in decimal. -/
def parsePort (cs : List Char) : Option UInt16 :=
  let n := Nat.ofDigitChars 10 cs 0
  if cs.all Char.isDigit ∧ n < 65536 then some (UInt16.ofNat n) else none

/-- `u16::from_str`: one plus sign may come before the digits. -/
def parseU16 (s : String) : Option UInt16 :=
  match s.toList with
  | [] | ['+'] => none
  | '+' :: digits => parsePort digits
  | digits => parsePort digits

/-- A property of a few given characters, checked on each. -/
theorem forall_mem_of_all {cs : List Char} {p : Char → Prop} [DecidablePred p]
    (h : (cs.all fun c => decide (p c)) = true) : ∀ c ∈ cs, p c :=
  fun c hc => of_decide_eq_true (List.all_eq_true.mp h c hc)

theorem startsWith_iff {s pre : String} : startsWith s pre = true ↔ pre.toList <+: s.toList :=
  List.isPrefixOf_iff_prefix

theorem endsWith_iff {s suf : String} : endsWith s suf = true ↔ suf.toList <:+ s.toList :=
  List.isSuffixOf_iff_suffix

theorem startsWith_self (s : String) : startsWith s s = true :=
  startsWith_iff.mpr (List.prefix_refl s.toList)

theorem eq_append_of_startsWith {s pre : String} (h : startsWith s pre = true) :
    ∃ rest, s = pre ++ rest := by
  obtain ⟨rest, hrest⟩ := startsWith_iff.mp h
  refine ⟨String.ofList rest, String.toList_injective ?_⟩
  rw [String.toList_append, String.toList_ofList, hrest]

theorem byteLen_le_of_startsWith {s pre : String} (h : startsWith s pre = true) :
    byteLen pre ≤ byteLen s := by
  obtain ⟨rest, rfl⟩ := eq_append_of_startsWith h
  rw [byteLen, byteLen, String.utf8ByteSize_append]
  exact Nat.le_add_right _ _

/-- A prefix that is not shorter is the whole. -/
theorem eq_of_startsWith {s pre : String} (h : startsWith s pre = true)
    (hlen : byteLen s ≤ byteLen pre) : pre = s := by
  obtain ⟨rest, rfl⟩ := eq_append_of_startsWith h
  rw [byteLen, byteLen, String.utf8ByteSize_append] at hlen
  have hempty : rest.utf8ByteSize = 0 := by omega
  rw [String.utf8ByteSize_eq_zero_iff.mp hempty, String.append_empty]

/-- Of two prefixes of one string, the one that is not longer is a prefix of the other. -/
theorem startsWith_of_byteLen_le {s a b : String} (ha : startsWith s a = true)
    (hb : startsWith s b = true) (hlen : byteLen a ≤ byteLen b) : startsWith b a = true := by
  rcases List.prefix_or_prefix_of_prefix (startsWith_iff.mp ha) (startsWith_iff.mp hb) with h | h
  · exact startsWith_iff.mpr h
  · have hba : b = a := eq_of_startsWith (startsWith_iff.mpr h) hlen
    rw [hba]
    exact startsWith_self a

/-! ## Separators -/

theorem takeWhile_ne {sep : Char} {cs : List Char} (h : sep ∉ cs) (rest : List Char) :
    (cs ++ sep :: rest).takeWhile (· ≠ sep) = cs := by
  rw [List.takeWhile_append_of_pos fun c hc => ?_]
  · simp
  · rw [decide_eq_true_eq]
    rintro rfl
    exact h hc

theorem dropWhile_ne {sep : Char} {cs : List Char} (h : sep ∉ cs) (rest : List Char) :
    (cs ++ sep :: rest).dropWhile (· ≠ sep) = sep :: rest := by
  rw [List.dropWhile_append_of_pos fun c hc => ?_]
  · simp
  · rw [decide_eq_true_eq]
    rintro rfl
    exact h hc

/-- A text has no separator, or goes on behind the first one. -/
theorem eq_takeWhile_or (sep : Char) (cs : List Char) :
    cs = cs.takeWhile (· ≠ sep) ∨ ∃ rest, cs = cs.takeWhile (· ≠ sep) ++ sep :: rest := by
  induction cs with
  | nil => exact .inl rfl
  | cons c cs ih =>
      by_cases hc : c = sep
      · subst hc
        exact .inr ⟨cs, by simp⟩
      · rw [List.takeWhile_cons_of_pos (by simpa using hc)]
        rcases ih with ih | ⟨rest, ih⟩
        · exact .inl (congrArg (c :: ·) ih)
        · exact .inr ⟨rest, congrArg (c :: ·) ih⟩

theorem not_mem_takeWhile_ne (sep : Char) (cs : List Char) : sep ∉ cs.takeWhile (· ≠ sep) := by
  induction cs with
  | nil => exact List.not_mem_nil
  | cons c cs ih =>
      rw [List.takeWhile_cons]
      split
      · rename_i hc
        rw [List.mem_cons]
        exact fun h => h.elim (fun heq => of_decide_eq_true hc heq.symm) ih
      · exact List.not_mem_nil

theorem takeWhile_of_not_mem {sep : Char} {cs : List Char} (h : sep ∉ cs) :
    cs.takeWhile (· ≠ sep) = cs := by
  rcases eq_takeWhile_or sep cs with heq | ⟨rest, heq⟩
  · exact heq.symm
  · rw [heq] at h
    exact absurd (List.mem_append_right _ List.mem_cons_self) h

/-- Where the first separator is decides what comes before it and what after. -/
theorem eq_of_append_sep {sep : Char} {a b c d : List Char} (ha : sep ∉ a) (hc : sep ∉ c)
    (h : a ++ sep :: b = c ++ sep :: d) : a = c ∧ b = d := by
  have hfront : a = c := by rw [← takeWhile_ne ha b, h, takeWhile_ne hc]
  rw [hfront] at h
  exact ⟨hfront, List.tail_eq_of_cons_eq (List.append_cancel_left h)⟩

/-- What follows the last dash is determined by the whole. -/
theorem eq_of_append_dash {xs ys ds es : List Char} (hds : '-' ∉ ds) (hes : '-' ∉ es)
    (h : xs ++ '-' :: ds = ys ++ '-' :: es) : ds = es := by
  have htail : ∀ {zs fs : List Char}, '-' ∉ fs →
      (zs ++ '-' :: fs).reverse.takeWhile (· ≠ '-') = fs.reverse := by
    intro zs fs hfs
    rw [List.reverse_append, List.reverse_cons, List.append_assoc]
    exact takeWhile_ne (mt List.mem_reverse.mp hfs) zs.reverse
  have hrev : ds.reverse = es.reverse :=
    calc ds.reverse = (xs ++ '-' :: ds).reverse.takeWhile (· ≠ '-') := (htail hds).symm
      _ = (ys ++ '-' :: es).reverse.takeWhile (· ≠ '-') := by rw [h]
      _ = es.reverse := htail hes
  exact List.reverse_inj.mp hrev

theorem not_mem_toDigits {c : Char} (hc : c.isDigit = false) (n : Nat) :
    c ∉ Nat.toDigits 10 n := by
  intro hmem
  have hdigit := Nat.isDigit_of_mem_toDigits (by decide) (by decide) hmem
  rw [hc] at hdigit
  cases hdigit

theorem not_mem_toString {c : Char} (hc : c.isDigit = false) (n : Nat) :
    c ∉ (toString n).toList := by
  rw [Nat.toString_eq_repr, Nat.toList_repr]
  exact not_mem_toDigits hc n

/-- The number at the end of a dashed name is determined by the name. -/
theorem eq_of_dash_toString {a b : String} {m n : Nat}
    (h : a ++ "-" ++ toString m = b ++ "-" ++ toString n) : m = n := by
  have hlist := congrArg String.toList h
  simp only [String.toList_append, List.append_assoc, Nat.toString_eq_repr,
    Nat.toList_repr] at hlist
  have hdigits := eq_of_append_dash (not_mem_toDigits (by decide) m)
    (not_mem_toDigits (by decide) n) hlist
  rw [← @Nat.ofDigitChars_ten_toDigits m, hdigits, Nat.ofDigitChars_ten_toDigits]

end Kdct
