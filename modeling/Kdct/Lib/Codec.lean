/-
Binary codecs that carry their own round trip.

A `Codec` is an encoder, a decoder that also returns the bytes it leaves over,
and two laws.  `dec_enc` says that decoding undoes encoding in front of any
further bytes; it is asked only of encodings shorter than `2 ^ 64` bytes, which
is where a 64-bit length prefix is still exact.  `enc_dec` says that the bytes
a decoder consumes are the encoding of the value it returns, so the format has
one spelling for each value and a decoder cannot succeed on fewer bytes.

The combinators build fixed-width little-endian words, products, options,
length-prefixed lists and strings, and tagged alternatives.  Both laws are
proved once for each of them.
-/
import Mathlib.Logic.Equiv.Basic
import Mathlib.Data.List.Basic
import Mathlib.Tactic.Ring

abbrev Bytes := List UInt8

/-! ## Little-endian numbers -/

/-- The `k` low bytes of `n`, least significant first. -/
def leBytes : Nat → Nat → Bytes
  | 0, _ => []
  | k + 1, n => UInt8.ofNat n :: leBytes k (n / 256)

def ofLE : Bytes → Nat
  | [] => 0
  | b :: bs => b.toNat + 256 * ofLE bs

@[simp] theorem leBytes_length (k n : Nat) : (leBytes k n).length = k := by
  induction k generalizing n with
  | zero => rfl
  | succ k ih => simp [leBytes, ih]

theorem ofLE_leBytes (k n : Nat) : ofLE (leBytes k n) = n % 256 ^ k := by
  induction k generalizing n with
  | zero => simp [leBytes, ofLE, Nat.mod_one]
  | succ k ih =>
      have hhead : (UInt8.ofNat n).toNat = n % 256 := by simp
      rw [leBytes, ofLE, ih, hhead, Nat.pow_succ', Nat.mod_mul]

theorem ofLE_lt (bs : Bytes) : ofLE bs < 256 ^ bs.length := by
  induction bs with
  | nil => simp [ofLE]
  | cons b bs ih =>
      have hb : b.toNat < 256 := b.toNat_lt
      rw [ofLE, List.length_cons, Nat.pow_succ']
      omega

theorem leBytes_ofLE (bs : Bytes) : leBytes bs.length (ofLE bs) = bs := by
  induction bs with
  | nil => rfl
  | cons b bs ih =>
      have hb : b.toNat < 256 := b.toNat_lt
      have hhead : UInt8.ofNat (b.toNat + 256 * ofLE bs) = b := by
        apply UInt8.toNat_inj.mp
        simp only [UInt8.toNat_ofNat']
        omega
      have htail : (b.toNat + 256 * ofLE bs) / 256 = ofLE bs := by omega
      rw [List.length_cons, ofLE, leBytes, hhead, htail, ih]

/-! ## Codecs -/

structure Codec (α : Type) where
  enc : α → Bytes
  /-- The value at the front of the bytes and what follows it. -/
  dec : Bytes → Option (α × Bytes)
  dec_enc : ∀ a rest, (enc a).length < 2 ^ 64 → dec (enc a ++ rest) = some (a, rest)
  enc_dec : ∀ bs a rest, dec bs = some (a, rest) → bs = enc a ++ rest

namespace Codec

variable {α β : Type}

/-- The first `k` bytes and the rest, when there are that many. -/
def takeExact (k : Nat) (bs : Bytes) : Option (Bytes × Bytes) :=
  if k ≤ bs.length then some (bs.take k, bs.drop k) else none

theorem takeExact_append {k : Nat} {bs rest : Bytes} (h : bs.length = k) :
    takeExact k (bs ++ rest) = some (bs, rest) := by
  subst h
  simp [takeExact]

theorem takeExact_eq_some {k : Nat} {bs front rest : Bytes}
    (h : takeExact k bs = some (front, rest)) : front.length = k ∧ bs = front ++ rest := by
  unfold takeExact at h
  split at h
  · rename_i hk
    simp only [Option.some.injEq, Prod.mk.injEq] at h
    obtain ⟨rfl, rfl⟩ := h
    exact ⟨by simp [hk], (List.take_append_drop k bs).symm⟩
  · cases h

/-- A word of `k` bytes, least significant first, for any type that counts
exactly to `256 ^ k`. -/
def word (k : Nat) (toNat : α → Nat) (ofNat : Nat → α)
    (hlt : ∀ a, toNat a < 256 ^ k) (hleft : ∀ a, ofNat (toNat a) = a)
    (hright : ∀ n, n < 256 ^ k → toNat (ofNat n) = n) : Codec α where
  enc a := leBytes k (toNat a)
  dec bs := (takeExact k bs).map fun p => (ofNat (ofLE p.1), p.2)
  dec_enc a rest _ := by
    rw [takeExact_append (leBytes_length k _)]
    simp [ofLE_leBytes, Nat.mod_eq_of_lt (hlt a), hleft]
  enc_dec bs a rest h := by
    obtain ⟨⟨front, back⟩, hp, he⟩ := Option.map_eq_some_iff.mp h
    obtain ⟨hlen, rfl⟩ := takeExact_eq_some hp
    simp only [Prod.mk.injEq] at he
    obtain ⟨rfl, rfl⟩ := he
    have hfront : ofLE front < 256 ^ k := hlen ▸ ofLE_lt front
    rw [hright _ hfront, ← hlen, leBytes_ofLE]

def u8 : Codec UInt8 :=
  word 1 UInt8.toNat UInt8.ofNat (fun a => a.toNat_lt) (fun a => by simp)
    (fun n hn => by simp only [UInt8.toNat_ofNat']; omega)

def u16 : Codec UInt16 :=
  word 2 UInt16.toNat UInt16.ofNat (fun a => a.toNat_lt) (fun a => by simp)
    (fun n hn => by simp only [UInt16.toNat_ofNat']; omega)

def u32 : Codec UInt32 :=
  word 4 UInt32.toNat UInt32.ofNat (fun a => a.toNat_lt) (fun a => by simp)
    (fun n hn => by simp only [UInt32.toNat_ofNat']; omega)

def u64 : Codec UInt64 :=
  word 8 UInt64.toNat UInt64.ofNat (fun a => a.toNat_lt) (fun a => by simp)
    (fun n hn => by simp only [UInt64.toNat_ofNat']; omega)

@[simp] theorem u8_enc_length (a : UInt8) : (u8.enc a).length = 1 := leBytes_length 1 _
@[simp] theorem u16_enc_length (a : UInt16) : (u16.enc a).length = 2 := leBytes_length 2 _
@[simp] theorem u32_enc_length (a : UInt32) : (u32.enc a).length = 4 := leBytes_length 4 _
@[simp] theorem u64_enc_length (a : UInt64) : (u64.enc a).length = 8 := leBytes_length 8 _

/-- A value with no bytes of its own. -/
def unit : Codec Unit where
  enc _ := []
  dec bs := some ((), bs)
  dec_enc _ _ _ := rfl
  enc_dec bs a rest h := by simp_all

/-- Exactly `k` raw bytes, without a length. -/
def raw (k : Nat) : Codec { bs : Bytes // bs.length = k } where
  enc a := a.1
  dec bs := if h : (bs.take k).length = k then some (⟨bs.take k, h⟩, bs.drop k) else none
  dec_enc a rest _ := by
    obtain ⟨bs, rfl⟩ := a
    simp
  enc_dec bs a rest h := by
    split at h
    · simp only [Option.some.injEq, Prod.mk.injEq] at h
      obtain ⟨rfl, rfl⟩ := h
      exact (List.take_append_drop k bs).symm
    · cases h

/-- One value after the other. -/
def prod (c : Codec α) (d : Codec β) : Codec (α × β) where
  enc p := c.enc p.1 ++ d.enc p.2
  dec bs := (c.dec bs).bind fun p => (d.dec p.2).map fun q => ((p.1, q.1), q.2)
  dec_enc p rest h := by
    rw [List.length_append] at h
    rw [List.append_assoc, c.dec_enc p.1 _ (by omega)]
    simp [d.dec_enc p.2 rest (by omega)]
  enc_dec bs p rest h := by
    obtain ⟨⟨a, mid⟩, hc, hmap⟩ := Option.bind_eq_some_iff.mp h
    obtain ⟨⟨b, back⟩, hd, he⟩ := Option.map_eq_some_iff.mp hmap
    simp only [Prod.mk.injEq] at he
    obtain ⟨rfl, rfl⟩ := he
    rw [c.enc_dec bs a mid hc, d.enc_dec mid b back hd, List.append_assoc]

/-- The same bytes read at another type. -/
def map (c : Codec α) (e : α ≃ β) : Codec β where
  enc b := c.enc (e.symm b)
  dec bs := (c.dec bs).map fun p => (e p.1, p.2)
  dec_enc b rest h := by rw [c.dec_enc _ rest h]; simp
  enc_dec bs b rest h := by
    obtain ⟨⟨a, back⟩, hc, he⟩ := Option.map_eq_some_iff.mp h
    simp only [Prod.mk.injEq] at he
    obtain ⟨rfl, rfl⟩ := he
    rw [Equiv.symm_apply_apply]
    exact c.enc_dec bs a back hc

theorem map_enc (c : Codec α) (e : α ≃ β) (b : β) : (c.map e).enc b = c.enc (e.symm b) := rfl

@[simp] theorem prod_enc_length (c : Codec α) (d : Codec β) (p : α × β) :
    ((prod c d).enc p).length = (c.enc p.1).length + (d.enc p.2).length :=
  List.length_append

/-! ## Lists and strings -/

def decN (c : Codec α) : Nat → Bytes → Option (List α × Bytes)
  | 0, bs => some ([], bs)
  | n + 1, bs =>
      (c.dec bs).bind fun p => (decN c n p.2).map fun q => (p.1 :: q.1, q.2)

theorem decN_enc (c : Codec α) (l : List α) (rest : Bytes)
    (h : (l.flatMap c.enc).length < 2 ^ 64) :
    decN c l.length (l.flatMap c.enc ++ rest) = some (l, rest) := by
  induction l with
  | nil => rfl
  | cons a l ih =>
      rw [List.flatMap_cons, List.length_append] at h
      rw [List.flatMap_cons, List.append_assoc, List.length_cons, decN,
        c.dec_enc a _ (by omega)]
      simp [ih (by omega)]

theorem enc_decN (c : Codec α) {n : Nat} {bs rest : Bytes} {l : List α}
    (h : decN c n bs = some (l, rest)) : l.length = n ∧ bs = l.flatMap c.enc ++ rest := by
  induction n generalizing bs l rest with
  | zero =>
      simp only [decN, Option.some.injEq, Prod.mk.injEq] at h
      obtain ⟨rfl, rfl⟩ := h
      exact ⟨rfl, rfl⟩
  | succ n ih =>
      obtain ⟨⟨a, mid⟩, hc, hmap⟩ := Option.bind_eq_some_iff.mp h
      dsimp only at hmap
      obtain ⟨⟨as, back⟩, hd, he⟩ := Option.map_eq_some_iff.mp hmap
      simp only [Prod.mk.injEq] at he
      obtain ⟨rfl, rfl⟩ := he
      obtain ⟨hlen, hmid⟩ := ih hd
      refine ⟨by rw [List.length_cons, hlen], ?_⟩
      rw [c.enc_dec bs a mid hc, hmid, List.flatMap_cons, List.append_assoc]

theorem length_le_flatMap {c : Codec α} (hpos : ∀ a, 1 ≤ (c.enc a).length) (l : List α) :
    l.length ≤ (l.flatMap c.enc).length := by
  induction l with
  | nil => exact Nat.le_refl 0
  | cons a l ih =>
      have ha := hpos a
      rw [List.flatMap_cons, List.length_append, List.length_cons]
      omega

/-- A 64-bit count and then the elements.  An element must take up a byte: a
list of zero-width elements could outgrow its count. -/
def list (c : Codec α) (hpos : ∀ a, 1 ≤ (c.enc a).length) : Codec (List α) where
  enc l := u64.enc (UInt64.ofNat l.length) ++ l.flatMap c.enc
  dec bs := (u64.dec bs).bind fun p => decN c p.1.toNat p.2
  dec_enc l rest h := by
    rw [List.length_append, u64_enc_length] at h
    have hlen : l.length < 2 ^ 64 :=
      Nat.lt_of_le_of_lt (length_le_flatMap hpos l) (by omega)
    have hcount : (UInt64.ofNat l.length).toNat = l.length := by
      simpa using Nat.mod_eq_of_lt hlen
    rw [List.append_assoc, u64.dec_enc _ _ (by simp), Option.bind_some]
    simp only [hcount]
    exact decN_enc c l rest (by omega)
  enc_dec bs l rest h := by
    obtain ⟨⟨n, mid⟩, hc, hd⟩ := Option.bind_eq_some_iff.mp h
    dsimp only at hd
    obtain ⟨hlen, hmid⟩ := enc_decN c hd
    have hcount : UInt64.ofNat l.length = n := by simp [hlen]
    rw [u64.enc_dec bs n mid hc, hmid, hcount, List.append_assoc]

/-- A 64-bit byte count and then the UTF-8 bytes. -/
def string : Codec String where
  enc s := u64.enc (UInt64.ofNat s.toByteArray.data.toList.length) ++ s.toByteArray.data.toList
  dec bs := (u64.dec bs).bind fun p => (takeExact p.1.toNat p.2).bind fun q =>
    (String.fromUTF8? ⟨q.1.toArray⟩).map fun s => (s, q.2)
  dec_enc s rest h := by
    rw [List.length_append, u64_enc_length] at h
    have hcount : (UInt64.ofNat s.toByteArray.data.toList.length).toNat =
        s.toByteArray.data.toList.length := by
      simpa using Nat.mod_eq_of_lt (show s.toByteArray.data.toList.length < 2 ^ 64 by omega)
    have hstr : String.fromUTF8? ⟨s.toByteArray.data.toList.toArray⟩ = some s := by
      unfold String.fromUTF8?
      exact dif_pos s.isValidUTF8
    rw [List.append_assoc, u64.dec_enc _ _ (by simp), Option.bind_some]
    simp only [hcount]
    rw [takeExact_append rfl, Option.bind_some, hstr]
    rfl
  enc_dec bs s rest h := by
    obtain ⟨⟨n, mid⟩, hc, htake⟩ := Option.bind_eq_some_iff.mp h
    dsimp only at htake
    obtain ⟨⟨front, back⟩, ht, hmap⟩ := Option.bind_eq_some_iff.mp htake
    obtain ⟨s', hs, he⟩ := Option.map_eq_some_iff.mp hmap
    simp only [Prod.mk.injEq] at he
    obtain ⟨rfl, rfl⟩ := he
    obtain ⟨hlen, hmid⟩ := takeExact_eq_some ht
    have hbytes : s'.toByteArray.data.toList = front := by
      unfold String.fromUTF8? at hs
      split at hs
      · rw [← Option.some.inj hs]
        rfl
      · cases hs
    have hcount : UInt64.ofNat front.length = n := by
      rw [hlen]
      simp
    rw [u64.enc_dec bs n mid hc, hmid, hbytes, hcount, List.append_assoc]

theorem string_enc_length (s : String) :
    (string.enc s).length = 8 + s.toByteArray.data.toList.length := by
  show (u64.enc _ ++ _).length = _
  simp

/-- A presence byte, `0` or `1`, and then the value if there is one. -/
def option (c : Codec α) : Codec (Option α) where
  enc
    | none => [0]
    | some a => 1 :: c.enc a
  dec
    | 0 :: bs => some (none, bs)
    | 1 :: bs => (c.dec bs).map fun p => (some p.1, p.2)
    | _ => none
  dec_enc a rest h := by
    cases a with
    | none => rfl
    | some a =>
        rw [List.length_cons] at h
        show (c.dec (c.enc a ++ rest)).map _ = _
        rw [c.dec_enc a rest (by omega)]
        rfl
  enc_dec bs a rest h := by
    split at h
    · simp only [Option.some.injEq, Prod.mk.injEq] at h
      obtain ⟨rfl, rfl⟩ := h
      rfl
    · obtain ⟨⟨b, back⟩, hc, he⟩ := Option.map_eq_some_iff.mp h
      simp only [Prod.mk.injEq] at he
      obtain ⟨rfl, rfl⟩ := he
      exact congrArg (1 :: ·) (c.enc_dec _ b back hc)
    · cases h

end Codec

/-! ## Tagged alternatives -/

/-- The alternatives of an enumeration, numbered from zero: what to write after
the number of an alternative, and how to read on once the number is known. -/
structure Cases (α : Type) where
  tag : α → Nat
  body : α → Bytes
  dec : Nat → Bytes → Option (α × Bytes)
  size : Nat
  tag_lt : ∀ a, tag a < size
  dec_body : ∀ a rest, (body a).length < 2 ^ 64 → dec (tag a) (body a ++ rest) = some (a, rest)
  body_dec : ∀ n bs a rest, dec n bs = some (a, rest) → tag a = n ∧ bs = body a ++ rest

namespace Cases

variable {α β : Type}

/-- The last alternative. -/
def last (c : Codec α) : Cases α where
  tag _ := 0
  body := c.enc
  dec n bs := if n = 0 then c.dec bs else none
  size := 1
  tag_lt _ := Nat.one_pos
  dec_body a rest h := by simpa using c.dec_enc a rest h
  body_dec n bs a rest h := by
    split at h
    · rename_i hn
      exact ⟨hn.symm, c.enc_dec bs a rest h⟩
    · cases h

/-- One alternative in front of others, whose numbers move up by one. -/
def cons (c : Codec α) (d : Cases β) : Cases (α ⊕ β) where
  tag
    | .inl _ => 0
    | .inr b => d.tag b + 1
  body
    | .inl a => c.enc a
    | .inr b => d.body b
  dec
    | 0, bs => (c.dec bs).map fun p => (.inl p.1, p.2)
    | n + 1, bs => (d.dec n bs).map fun p => (.inr p.1, p.2)
  size := d.size + 1
  tag_lt
    | .inl _ => Nat.succ_pos _
    | .inr b => Nat.succ_lt_succ (d.tag_lt b)
  dec_body a rest h := by
    cases a with
    | inl a =>
        show (c.dec (c.enc a ++ rest)).map _ = _
        rw [c.dec_enc a rest h]
        rfl
    | inr b =>
        show (d.dec (d.tag b) (d.body b ++ rest)).map _ = _
        rw [d.dec_body b rest h]
        rfl
  body_dec n bs a rest h := by
    cases n with
    | zero =>
        obtain ⟨⟨a', back⟩, hc, he⟩ := Option.map_eq_some_iff.mp h
        simp only [Prod.mk.injEq] at he
        obtain ⟨rfl, rfl⟩ := he
        exact ⟨rfl, c.enc_dec bs a' back hc⟩
    | succ n =>
        obtain ⟨⟨b, back⟩, hd, he⟩ := Option.map_eq_some_iff.mp h
        simp only [Prod.mk.injEq] at he
        obtain ⟨rfl, rfl⟩ := he
        obtain ⟨htag, hbs⟩ := d.body_dec n bs b back hd
        exact ⟨congrArg (· + 1) htag, hbs⟩

/-- The number of the alternative as a 32-bit word, and then its body. -/
def codec (d : Cases α) (hsize : d.size ≤ 2 ^ 32) : Codec α where
  enc a := Codec.u32.enc (UInt32.ofNat (d.tag a)) ++ d.body a
  dec bs := (Codec.u32.dec bs).bind fun p => d.dec p.1.toNat p.2
  dec_enc a rest h := by
    have htag : (UInt32.ofNat (d.tag a)).toNat = d.tag a := by
      simpa using Nat.mod_eq_of_lt (Nat.lt_of_lt_of_le (d.tag_lt a) hsize)
    rw [List.length_append] at h
    rw [List.append_assoc, Codec.u32.dec_enc _ _ (by simp), Option.bind_some]
    simp only [htag]
    exact d.dec_body a rest (by omega)
  enc_dec bs a rest h := by
    obtain ⟨⟨n, mid⟩, hc, hd⟩ := Option.bind_eq_some_iff.mp h
    obtain ⟨htag, hmid⟩ := d.body_dec _ mid a rest hd
    have hn : UInt32.ofNat (d.tag a) = n := by simp [htag]
    rw [Codec.u32.enc_dec bs n mid hc, hmid, hn, List.append_assoc]

theorem codec_enc_length (d : Cases α) (hsize : d.size ≤ 2 ^ 32) (a : α) :
    ((d.codec hsize).enc a).length = 4 + (d.body a).length := by
  show (Codec.u32.enc _ ++ _).length = _
  simp

end Cases
