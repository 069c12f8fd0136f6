/-
Percent-encoding of text.

`encode keep` leaves the characters of `keep` as they are and writes the bytes of all others
as escapes; `decode` reads escapes back, and any other character as its own bytes.  Where
`keep` holds no percent sign, decoding once gives back the text; the encoded text is the text
itself only if every character was kept.

`Spells` leaves the choice to whoever writes: any character may stand for itself or be
escaped, here so and there otherwise, with digits of either case.
-/
import Kdct.Lib.Utf8

namespace Percent

def hexDigit (n : Nat) : Char := Char.ofNat (if n < 10 then 48 + n else 55 + n)

def hexValue (c : Char) : Option Nat :=
  if '0' ≤ c ∧ c ≤ '9' then some (c.toNat - 48)
  else if 'A' ≤ c ∧ c ≤ 'F' then some (c.toNat - 55)
  else if 'a' ≤ c ∧ c ≤ 'f' then some (c.toNat - 87)
  else none

/-- `%XX`. -/
def escape (b : UInt8) : List Char := ['%', hexDigit (b.toNat / 16), hexDigit (b.toNat % 16)]

def encodeChar (keep : Char → Bool) (c : Char) : List Char :=
  if keep c then [c] else (String.utf8EncodeChar c).flatMap escape

def encode (keep : Char → Bool) (cs : List Char) : List Char := cs.flatMap (encodeChar keep)

/-- The byte of an escape. -/
def unescape (a b : Char) : Option UInt8 :=
  (hexValue a).bind fun high => (hexValue b).map fun low => UInt8.ofNat (16 * high + low)

def decode : List Char → Bytes
  | [] => []
  | c :: a :: b :: rest =>
      match if c = '%' then unescape a b else none with
      | some byte => byte :: decode rest
      | none => String.utf8EncodeChar c ++ decode (a :: b :: rest)
  | c :: rest => String.utf8EncodeChar c ++ decode rest

/-- One of the ways in which a text in ASCII may be written. -/
inductive Spells : List Char → List Char → Prop
  | nil : Spells [] []
  | char {c : Char} {written text : List Char} (hc : c ≠ '%') (h : Spells written text) :
      Spells (c :: written) (c :: text)
  | escape {a b c : Char} {written text : List Char} (hc : c.toNat < 128)
      (hbyte : unescape a b = some (UInt8.ofNat c.toNat)) (h : Spells written text) :
      Spells ('%' :: a :: b :: written) (c :: text)

/-! ## Hexadecimal digits -/

def hexDigits : List Char := "0123456789ABCDEFabcdef".toList

theorem mem_hexDigits {c : Char} {n : Nat} (h : hexValue c = some n) : c ∈ hexDigits := by
  have hlt : c.toNat < 128 := by
    have hle : ∀ d : Char, c ≤ d → d.toNat < 128 → c.toNat < 128 :=
      fun d hcd hd => Nat.lt_of_le_of_lt hcd hd
    unfold hexValue at h
    split at h
    · rename_i hc
      exact hle '9' hc.2 (by decide)
    split at h
    · rename_i hc
      exact hle 'F' hc.2 (by decide)
    split at h
    · rename_i hc
      exact hle 'f' hc.2 (by decide)
    · cases h
  have hall : ∀ m < 128, (hexValue (Char.ofNat m)).isSome → Char.ofNat m ∈ hexDigits := by
    decide +kernel
  have hmem := hall c.toNat hlt
  rw [Char.ofNat_toNat] at hmem
  exact hmem (Option.isSome_of_eq_some h)

/-- The byte of an escape is written with two digits. -/
theorem mem_of_unescape {a b : Char} {byte : UInt8} (h : unescape a b = some byte) :
    a ∈ hexDigits ∧ b ∈ hexDigits := by
  obtain ⟨high, hhigh, hmap⟩ := Option.bind_eq_some_iff.mp h
  obtain ⟨low, hlow, -⟩ := Option.map_eq_some_iff.mp hmap
  exact ⟨mem_hexDigits hhigh, mem_hexDigits hlow⟩

theorem hexValue_hexDigit {n : Nat} (h : n < 16) : hexValue (hexDigit n) = some n := by
  revert n
  decide

theorem unescape_hexDigit (b : UInt8) :
    unescape (hexDigit (b.toNat / 16)) (hexDigit (b.toNat % 16)) = some b := by
  have hb := b.toNat_lt
  rw [unescape, hexValue_hexDigit (by omega), hexValue_hexDigit (by omega), Option.bind_some,
    Option.map_some]
  have hsum : 16 * (b.toNat / 16) + b.toNat % 16 = b.toNat := Nat.div_add_mod b.toNat 16
  rw [hsum, UInt8.ofNat_toNat]

/-! ## Decoding -/

theorem decode_escape (b : UInt8) (rest : List Char) :
    decode (escape b ++ rest) = b :: decode rest := by
  show decode ('%' :: hexDigit (b.toNat / 16) :: hexDigit (b.toNat % 16) :: rest) = _
  rw [decode, if_pos rfl, unescape_hexDigit]

theorem decode_cons {c : Char} (h : c ≠ '%') (rest : List Char) :
    decode (c :: rest) = String.utf8EncodeChar c ++ decode rest := by
  match rest with
  | [] => rfl
  | [_] => rfl
  | a :: b :: rest => rw [decode, if_neg h]

theorem decode_append {cs : List Char} (h : '%' ∉ cs) (rest : List Char) :
    decode (cs ++ rest) = Utf8.enc cs ++ decode rest := by
  induction cs with
  | nil => rfl
  | cons c cs ih =>
      rw [List.mem_cons, not_or] at h
      rw [List.cons_append, decode_cons (Ne.symm h.1), ih h.2, Utf8.enc_cons, List.append_assoc]

theorem decode_escapes (bs : Bytes) (rest : List Char) :
    decode (bs.flatMap escape ++ rest) = bs ++ decode rest := by
  induction bs with
  | nil => rfl
  | cons b bs ih =>
      rw [List.flatMap_cons, List.append_assoc, decode_escape, ih, List.cons_append]

variable {keep : Char → Bool}

/-- Decoding once undoes one encoding. -/
theorem decode_encode_append (hkeep : keep '%' = false) (cs rest : List Char) :
    decode (encode keep cs ++ rest) = Utf8.enc cs ++ decode rest := by
  induction cs with
  | nil => rfl
  | cons c cs ih =>
      have hchar : ∀ more, decode (encodeChar keep c ++ more) =
          String.utf8EncodeChar c ++ decode more := by
        intro more
        unfold encodeChar
        split
        · rename_i h
          refine decode_cons ?_ more
          rintro rfl
          rw [hkeep] at h
          cases h
        · exact decode_escapes _ more
      rw [encode, List.flatMap_cons, List.append_assoc, hchar, Utf8.enc_cons, List.append_assoc]
      exact congrArg _ ih

theorem decode_encode (hkeep : keep '%' = false) (cs : List Char) :
    decode (encode keep cs) = Utf8.enc cs := by
  have h := decode_encode_append hkeep cs []
  rwa [List.append_nil, decode, List.append_nil] at h

/-! ## Encoded text -/

theorem length_escapes (bs : Bytes) : (bs.flatMap escape).length = 3 * bs.length := by
  induction bs with
  | nil => rfl
  | cons b bs ih =>
      rw [List.flatMap_cons, List.length_append, ih, List.length_cons]
      show 3 + 3 * bs.length = _
      omega

theorem utf8EncodeChar_pos (c : Char) : 0 < (String.utf8EncodeChar c).length := by
  rw [String.length_utf8EncodeChar]
  exact c.utf8Size_pos

theorem length_le_encode (cs : List Char) : cs.length ≤ (encode keep cs).length := by
  induction cs with
  | nil => exact Nat.le_refl 0
  | cons c cs ih =>
      have hchar : 0 < (encodeChar keep c).length := by
        unfold encodeChar
        split
        · exact Nat.one_pos
        · have hpos := utf8EncodeChar_pos c
          rw [length_escapes]
          omega
      rw [encode, List.flatMap_cons, List.length_append, List.length_cons]
      unfold encode at ih
      omega

/-- A text is left as it is only if each of its characters is. -/
theorem encode_eq_self_iff {cs : List Char} :
    encode keep cs = cs ↔ ∀ c ∈ cs, keep c = true := by
  induction cs with
  | nil => exact iff_of_true rfl (List.forall_mem_nil _)
  | cons c cs ih =>
      rw [List.forall_mem_cons, ← ih, encode, List.flatMap_cons, encodeChar]
      by_cases hc : keep c = true
      · rw [if_pos hc, List.singleton_append, List.cons_inj_right]
        exact (and_iff_right hc).symm
      · rw [if_neg hc]
        refine iff_of_false (fun h => ?_) (fun h => hc h.1)
        -- an escape is longer than what it stands for
        have hlen := congrArg List.length h
        have hle : cs.length ≤ (encode keep cs).length := length_le_encode cs
        have hpos := utf8EncodeChar_pos c
        rw [List.length_append, length_escapes, List.length_cons] at hlen
        unfold encode at hle
        omega

theorem mem_encode {cs : List Char} {d : Char} (h : d ∈ encode keep cs) :
    keep d = true ∨ d = '%' ∨ ∃ n, n < 16 ∧ d = hexDigit n := by
  obtain ⟨c, -, hd⟩ := List.mem_flatMap.mp h
  unfold encodeChar at hd
  split at hd
  · rename_i hc
    rw [List.mem_singleton.mp hd]
    exact .inl hc
  · obtain ⟨b, -, hesc⟩ := List.mem_flatMap.mp hd
    have hb := b.toNat_lt
    rw [escape, List.mem_cons, List.mem_cons, List.mem_singleton] at hesc
    rcases hesc with rfl | rfl | rfl
    · exact .inr (.inl rfl)
    · exact .inr (.inr ⟨_, by omega, rfl⟩)
    · exact .inr (.inr ⟨_, by omega, rfl⟩)

/-- A character that is neither kept nor part of an escape does not occur. -/
theorem not_mem_encode {cs : List Char} {d : Char} (hkeep : keep d = false) (hpercent : d ≠ '%')
    (hhex : hexValue d = none) : d ∉ encode keep cs := by
  intro hmem
  rcases mem_encode hmem with h | h | ⟨n, hn, rfl⟩
  · rw [hkeep] at h
    cases h
  · exact hpercent h
  · rw [hexValue_hexDigit hn] at hhex
    cases hhex

end Percent
