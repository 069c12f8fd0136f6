/-
UTF-8 on lists of bytes.

`dec` succeeds on the encodings and nothing else.  A byte below 128 is a character of
its own, so that decoding may be done in two parts behind it; and a byte from 128 on is
only a part of a character, so that a text with one has a prefix that is no text.
-/
import Kdct.Lib.Codec

namespace Utf8

def enc (cs : List Char) : Bytes := cs.flatMap String.utf8EncodeChar

def dec (bs : Bytes) : Option (List Char) := (String.fromUTF8? ⟨bs.toArray⟩).map String.toList

@[simp] theorem enc_nil : enc [] = [] := rfl

@[simp] theorem enc_append (a b : List Char) : enc (a ++ b) = enc a ++ enc b :=
  List.flatMap_append

theorem enc_cons (c : Char) (cs : List Char) : enc (c :: cs) = String.utf8EncodeChar c ++ enc cs :=
  List.flatMap_cons

theorem toByteArray_ofList (cs : List Char) :
    (String.ofList cs).toByteArray = ⟨(enc cs).toArray⟩ := by
  apply ByteArray.ext
  simp [enc, List.utf8Encode]

theorem dec_eq_some_iff {bs : Bytes} {cs : List Char} : dec bs = some cs ↔ enc cs = bs := by
  have hbytes : ∀ s : String, s.toByteArray = ⟨bs.toArray⟩ ↔ enc s.toList = bs := by
    intro s
    conv_lhs => rw [← String.ofList_toList (s := s), toByteArray_ofList]
    simp [ByteArray.ext_iff]
  unfold dec String.fromUTF8?
  constructor
  · intro h
    obtain ⟨s, hs, rfl⟩ := Option.map_eq_some_iff.mp h
    split at hs
    · rw [← hbytes, ← Option.some.inj hs]
      rfl
    · cases hs
  · rintro rfl
    have hvalid : ByteArray.IsValidUTF8 ⟨(enc cs).toArray⟩ :=
      toByteArray_ofList cs ▸ (String.ofList cs).isValidUTF8
    rw [dif_pos hvalid, Option.map_some]
    have hstr : String.fromUTF8 ⟨(enc cs).toArray⟩ hvalid = String.ofList cs :=
      String.toByteArray_inj.mp (toByteArray_ofList cs).symm
    rw [hstr, String.toList_ofList]

theorem dec_enc (cs : List Char) : dec (enc cs) = some cs := dec_eq_some_iff.mpr rfl

theorem enc_injective {a b : List Char} (h : enc a = enc b) : a = b :=
  Option.some.inj ((dec_enc a).symm.trans (h ▸ dec_enc b))

/-! ## Bytes below 128 -/

/-- A character is one byte below 128, or several from 128 on. -/
theorem utf8EncodeChar_cases (c : Char) :
    (∃ b, String.utf8EncodeChar c = [b] ∧ b.toNat < 128) ∨
      (2 ≤ (String.utf8EncodeChar c).length ∧ ∀ b ∈ String.utf8EncodeChar c, 128 ≤ b.toNat) := by
  unfold String.utf8EncodeChar
  dsimp only
  split
  · rename_i h
    exact .inl ⟨_, rfl, by rw [UInt8.toNat_ofNat']; omega⟩
  · refine .inr ?_
    split
    · refine ⟨by simp, ?_⟩
      simp only [List.forall_mem_cons, List.not_mem_nil, false_implies, implies_true, and_true,
        UInt8.toNat_ofNat']
      omega
    · split
      · refine ⟨by simp, ?_⟩
        simp only [List.forall_mem_cons, List.not_mem_nil, false_implies, implies_true, and_true,
          UInt8.toNat_ofNat']
        omega
      · refine ⟨by simp, ?_⟩
        simp only [List.forall_mem_cons, List.not_mem_nil, false_implies, implies_true, and_true,
          UInt8.toNat_ofNat']
        omega

/-- Behind a byte below 128 a text may be cut. -/
theorem exists_of_enc_eq_append {cs : List Char} {front back : Bytes}
    (h : enc cs = front ++ back) (hlast : ∀ b ∈ front.getLast?, b.toNat < 128) :
    ∃ x y, cs = x ++ y ∧ enc x = front ∧ enc y = back := by
  induction cs generalizing front with
  | nil =>
      obtain ⟨rfl, rfl⟩ := List.append_eq_nil_iff.mp h.symm
      exact ⟨[], [], rfl, rfl, rfl⟩
  | cons c cs ih =>
      rw [enc_cons] at h
      rcases List.append_eq_append_iff.mp h with ⟨t, rfl, hrest⟩ | ⟨t, hc, rfl⟩
      · have htail : ∀ b ∈ t.getLast?, b.toNat < 128 := by
          intro b hb
          refine hlast b ?_
          rw [Option.mem_def] at hb ⊢
          rw [List.getLast?_append, hb]
          rfl
        obtain ⟨x, y, rfl, hx, hy⟩ := ih hrest htail
        exact ⟨c :: x, y, rfl, by rw [enc_cons, hx], hy⟩
      · rcases List.eq_nil_or_concat front with rfl | ⟨init, b, rfl⟩
        · exact ⟨[], c :: cs, rfl, rfl, by rw [enc_cons, hc]; rfl⟩
        · have hb : b.toNat < 128 := hlast b (by simp)
          -- the cut is behind the one byte of the character
          rcases utf8EncodeChar_cases c with ⟨b', hsingle, -⟩ | ⟨-, hhigh⟩
          · rw [hsingle] at hc
            have hlen := congrArg List.length hc
            simp only [List.concat_eq_append, List.length_append, List.length_singleton] at hlen
            have ht : t = [] := List.length_eq_zero_iff.mp (by omega)
            subst ht
            rw [List.append_nil] at hc
            exact ⟨[c], cs, rfl, by rw [enc_cons, hsingle, hc]; exact List.append_nil _, rfl⟩
          · have hge := hhigh b (by rw [hc]; simp)
            omega

theorem dec_append {front back : Bytes} (hlast : ∀ b ∈ front.getLast?, b.toNat < 128) :
    dec (front ++ back) = (dec front).bind fun x => (dec back).map fun y => x ++ y := by
  cases hdec : dec (front ++ back) with
  | some cs =>
      obtain ⟨x, y, rfl, hx, hy⟩ := exists_of_enc_eq_append (dec_eq_some_iff.mp hdec) hlast
      rw [dec_eq_some_iff.mpr hx, dec_eq_some_iff.mpr hy]
      rfl
  | none =>
      cases hfront : dec front with
      | none => rfl
      | some x =>
          cases hback : dec back with
          | none => rfl
          | some y =>
              have hboth : dec (front ++ back) = some (x ++ y) := dec_eq_some_iff.mpr <| by
                rw [enc_append, dec_eq_some_iff.mp hfront, dec_eq_some_iff.mp hback]
              rw [hboth] at hdec
              cases hdec

theorem toNat_ofNat_byte (b : UInt8) : (Char.ofNat b.toNat).toNat = b.toNat := by
  have hb := b.toNat_lt
  have hvalid : b.toNat.isValidChar := .inl (by omega)
  rw [Char.ofNat, dif_pos hvalid]
  rfl

theorem utf8EncodeChar_of_lt {b : UInt8} (h : b.toNat < 128) :
    String.utf8EncodeChar (Char.ofNat b.toNat) = [b] := by
  have hval : (Char.ofNat b.toNat).val.toNat = b.toNat := toNat_ofNat_byte b
  unfold String.utf8EncodeChar
  dsimp only
  rw [hval, if_pos (by omega), UInt8.ofNat_toNat]

theorem utf8EncodeChar_of_toNat_lt {c : Char} (h : c.toNat < 128) :
    String.utf8EncodeChar c = [UInt8.ofNat c.toNat] := by
  have hbyte : (UInt8.ofNat c.toNat).toNat = c.toNat := by
    rw [UInt8.toNat_ofNat']
    omega
  have henc := utf8EncodeChar_of_lt (b := UInt8.ofNat c.toNat) (by omega)
  rwa [hbyte, Char.ofNat_toNat] at henc

/-- A byte below 128 at the end is the last character. -/
theorem exists_of_enc_eq_concat {cs : List Char} {front : Bytes} {b : UInt8} (hb : b.toNat < 128)
    (h : enc cs = front ++ [b]) : ∃ x, cs = x ++ [Char.ofNat b.toNat] ∧ enc x = front := by
  rcases List.eq_nil_or_concat cs with rfl | ⟨x, c, rfl⟩
  · exact absurd h.symm (List.append_ne_nil_of_right_ne_nil _ (List.cons_ne_nil b []))
  · rw [List.concat_eq_append, enc_append, enc_cons, enc_nil, List.append_nil] at h
    rcases utf8EncodeChar_cases c with ⟨b', hsingle, -⟩ | ⟨htwo, hhigh⟩
    · rw [hsingle] at h
      obtain ⟨hfront, hlast⟩ := List.append_inj' h rfl
      have hchar : [c] = [Char.ofNat b.toNat] := by
        apply enc_injective
        rw [enc_cons, enc_cons, hsingle, hlast, utf8EncodeChar_of_lt hb]
      exact ⟨x, by rw [List.concat_eq_append, hchar], hfront⟩
    · -- the last byte of several is not below 128
      have hne : String.utf8EncodeChar c ≠ [] := by
        intro hempty
        rw [hempty] at htwo
        cases htwo
      have hlast : (enc x ++ String.utf8EncodeChar c).getLast? = some b := by
        rw [h, List.getLast?_concat]
      rw [List.getLast?_append_of_ne_nil _ hne] at hlast
      have hge := hhigh b (List.mem_of_getLast? hlast)
      omega

/-- An encoding that ends with characters below 128 is that of a text that ends with them. -/
theorem exists_of_enc_eq_append_enc {cs back : List Char} {front : Bytes}
    (hback : ∀ c ∈ back, c.toNat < 128) (h : enc cs = front ++ enc back) :
    ∃ x, cs = x ++ back ∧ enc x = front := by
  induction back generalizing front with
  | nil =>
      rw [enc_nil, List.append_nil] at h
      exact ⟨cs, (List.append_nil cs).symm, h⟩
  | cons c back ih =>
      rw [enc_cons, ← List.append_assoc] at h
      obtain ⟨x, rfl, hx⟩ := ih (fun d hd => hback d (List.mem_cons_of_mem c hd)) h
      have hc : c.toNat < 128 := hback c List.mem_cons_self
      have hbyte : (UInt8.ofNat c.toNat).toNat = c.toNat := by
        rw [UInt8.toNat_ofNat']
        omega
      rw [utf8EncodeChar_of_toNat_lt hc] at hx
      obtain ⟨y, rfl, hy⟩ := exists_of_enc_eq_concat (by omega) hx
      rw [hbyte, Char.ofNat_toNat]
      exact ⟨y, by rw [List.append_assoc]; rfl, hy⟩

theorem dec_isSome_of_ascii {bs : Bytes} (h : ∀ b ∈ bs, b.toNat < 128) : (dec bs).isSome := by
  have henc : enc (bs.map fun b => Char.ofNat b.toNat) = bs := by
    induction bs with
    | nil => rfl
    | cons b bs ih =>
        rw [List.forall_mem_cons] at h
        rw [List.map_cons, enc_cons, utf8EncodeChar_of_lt h.1, ih h.2]
        rfl
  rw [dec_eq_some_iff.mpr henc]
  rfl

/-- A byte from 128 on may be the last one that has come. -/
theorem exists_prefix_dec_eq_none {bs : Bytes} (h : ∃ b ∈ bs, 128 ≤ b.toNat) :
    ∃ front, front <+: bs ∧ dec front = none := by
  induction bs with
  | nil =>
      obtain ⟨b, hb, -⟩ := h
      cases hb
  | cons b bs ih =>
      by_cases hb : b.toNat < 128
      · have hrest : ∃ b ∈ bs, 128 ≤ b.toNat := by
          obtain ⟨c, hc, hhigh⟩ := h
          rcases List.mem_cons.mp hc with rfl | hc
          · omega
          · exact ⟨c, hc, hhigh⟩
        obtain ⟨front, hpre, hdec⟩ := ih hrest
        refine ⟨[b] ++ front, (List.prefix_cons_inj b).mpr hpre, ?_⟩
        rw [dec_append (by simpa using hb), hdec]
        cases dec [b] <;> rfl
      · refine ⟨[b], ⟨bs, rfl⟩, Option.eq_none_iff_forall_ne_some.mpr fun cs hcs => ?_⟩
        have henc := dec_eq_some_iff.mp hcs
        cases cs with
        | nil => cases henc
        | cons c cs =>
            rw [enc_cons] at henc
            rcases utf8EncodeChar_cases c with ⟨b', hsingle, hlt⟩ | ⟨htwo, -⟩
            · rw [hsingle] at henc
              obtain ⟨rfl, -⟩ := List.cons.inj henc
              exact hb hlt
            · have hlen := congrArg List.length henc
              rw [List.length_append, List.length_singleton] at hlen
              omega

end Utf8
