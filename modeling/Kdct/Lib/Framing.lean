/-
Messages in frames with a 16-bit length.

A `Format` serializes messages and says which payloads a reader turns back into
a message.  `frame` puts a 16-bit big-endian length in front of a payload, and
the length is truncated, as a cast truncates it.  `readMany_iff` says exactly
when a list of messages survives being framed and read back: when every
serialization is shorter than `2 ^ 16` bytes.

`loop` is a reader that races against other events.  The read in progress holds
the bytes it has taken from the wire, and an event that wins the race drops the
read together with those bytes.  `handled_eq_sent_iff` says exactly when such a
loop handles what was sent: when the serializations fit and no event wins while
bytes are held.
-/
import Kdct.Lib.Machine
import Kdct.Lib.Codec

structure Format (α : Type) where
  serialize : α → Bytes
  deserialize : Bytes → Option α
  /-- The messages a reader lets through. -/
  accepts : α → Prop
  deserialize_serialize : ∀ a, accepts a → (serialize a).length < 2 ^ 64 →
    deserialize (serialize a) = some a
  accepts_of_deserialize : ∀ bs a, deserialize bs = some a → accepts a
  length_le : ∀ bs a, deserialize bs = some a → (serialize a).length ≤ bs.length

/-- A serializer and a deserializer that undo each other.  The deserializer may
ignore bytes behind the value, and it never makes a value out of fewer bytes
than the value serializes to. -/
structure Serde (α : Type) where
  serialize : α → Bytes
  deserialize : Bytes → Option α
  deserialize_serialize : ∀ a, (serialize a).length < 2 ^ 64 →
    deserialize (serialize a) = some a
  length_le : ∀ bs a, deserialize bs = some a → (serialize a).length ≤ bs.length

def Codec.serde {α : Type} (c : Codec α) : Serde α where
  serialize := c.enc
  deserialize bs := (c.dec bs).map Prod.fst
  deserialize_serialize a h := by
    have hdec := c.dec_enc a [] h
    rw [List.append_nil] at hdec
    rw [hdec]
    rfl
  length_le bs a h := by
    obtain ⟨⟨b, rest⟩, hdec, hb⟩ := Option.map_eq_some_iff.mp h
    dsimp only at hb
    subst hb
    rw [c.enc_dec bs b rest hdec, List.length_append]
    exact Nat.le_add_right _ _

/-- The format that rejects the values outside `p` after they are deserialized. -/
def Serde.format {α : Type} (s : Serde α) (p : α → Bool) : Format α where
  serialize := s.serialize
  deserialize bs := (s.deserialize bs).bind fun a => if p a then some a else none
  accepts a := p a = true
  deserialize_serialize a hp h := by
    rw [s.deserialize_serialize a h]
    simp [hp]
  accepts_of_deserialize bs a h := by
    obtain ⟨b, _, hb⟩ := Option.bind_eq_some_iff.mp h
    split at hb
    · rename_i hp
      exact Option.some.inj hb ▸ hp
    · cases hb
  length_le bs a h := by
    obtain ⟨b, hde, hb⟩ := Option.bind_eq_some_iff.mp h
    split at hb
    · exact Option.some.inj hb ▸ s.length_le bs b hde
    · cases hb

namespace Framing

/-! ## Frames -/

/-- The low 16 bits of a length, most significant byte first. -/
def beU16 (n : Nat) : Bytes := [UInt8.ofNat (n / 256), UInt8.ofNat n]

def frame (payload : Bytes) : Bytes := beU16 payload.length ++ payload

/-- The length a frame announces in its first two bytes. -/
def announced : Bytes → Nat
  | a :: b :: _ => a.toNat * 256 + b.toNat
  | _ => 0

@[simp] theorem beU16_length (n : Nat) : (beU16 n).length = 2 := rfl

@[simp] theorem frame_length (payload : Bytes) : (frame payload).length = 2 + payload.length := by
  simp [frame]

theorem announced_lt (bs : Bytes) : announced bs < 2 ^ 16 := by
  unfold announced
  split
  · rename_i a b _
    have ha : a.toNat < 256 := a.toNat_lt
    have hb : b.toNat < 256 := b.toNat_lt
    omega
  · decide

theorem announced_append {bs rest : Bytes} (h : 2 ≤ bs.length) :
    announced (bs ++ rest) = announced bs := by
  match bs with
  | [] => simp at h
  | [_] => simp at h
  | _ :: _ :: _ => rfl

theorem announced_frame {payload : Bytes} (h : payload.length < 2 ^ 16) :
    announced (frame payload) = payload.length := by
  show (UInt8.ofNat (payload.length / 256)).toNat * 256 + (UInt8.ofNat payload.length).toNat = _
  simp only [UInt8.toNat_ofNat']
  omega

variable {α : Type} (F : Format α)

def frames (l : List α) : Bytes := l.flatMap fun a => frame (F.serialize a)

@[simp] theorem frames_nil : frames F [] = [] := rfl

theorem frames_cons (a : α) (l : List α) :
    frames F (a :: l) = frame (F.serialize a) ++ frames F l := List.flatMap_cons

theorem frames_append (l m : List α) : frames F (l ++ m) = frames F l ++ frames F m :=
  List.flatMap_append

/-- A message whose length the prefix can carry and that the reader accepts. -/
def Fits (a : α) : Prop := F.accepts a ∧ (F.serialize a).length < 2 ^ 16

theorem deserialize_of_fits {a : α} (h : Fits F a) : F.deserialize (F.serialize a) = some a :=
  F.deserialize_serialize a h.1 (by have := h.2; omega)

/-! ## Reading frames from a complete stream -/

/-- One frame from the front of the stream. -/
def readFrame (bs : Bytes) : Option (Bytes × Bytes) :=
  (Codec.takeExact 2 bs).bind fun p => Codec.takeExact (announced p.1) p.2

def read (bs : Bytes) : Option (α × Bytes) :=
  (readFrame bs).bind fun p => (F.deserialize p.1).map fun a => (a, p.2)

def readMany : Nat → Bytes → Option (List α × Bytes)
  | 0, bs => some ([], bs)
  | n + 1, bs => (read F bs).bind fun p => (readMany n p.2).map fun q => (p.1 :: q.1, q.2)

theorem readFrame_frame {payload rest : Bytes} (h : payload.length < 2 ^ 16) :
    readFrame (frame payload ++ rest) = some (payload, rest) := by
  have hann : announced (beU16 payload.length) = payload.length := by
    have htwo : 2 ≤ (beU16 payload.length).length := Nat.le_refl 2
    rw [← announced_append htwo]
    exact announced_frame h
  rw [readFrame, frame, List.append_assoc, Codec.takeExact_append (beU16_length _),
    Option.bind_some, hann, Codec.takeExact_append rfl]

theorem readFrame_length {bs payload rest : Bytes} (h : readFrame bs = some (payload, rest)) :
    payload.length < 2 ^ 16 ∧ bs.length = 2 + payload.length + rest.length := by
  obtain ⟨⟨front, mid⟩, hfront, hbody⟩ := Option.bind_eq_some_iff.mp h
  obtain ⟨hlen, rfl⟩ := Codec.takeExact_eq_some hfront
  dsimp only at hbody
  obtain ⟨hpay, rfl⟩ := Codec.takeExact_eq_some hbody
  refine ⟨hpay ▸ announced_lt front, ?_⟩
  rw [List.length_append, List.length_append, hlen]
  omega

theorem read_frame {a : α} (h : Fits F a) (rest : Bytes) :
    read F (frame (F.serialize a) ++ rest) = some (a, rest) := by
  rw [read, readFrame_frame h.2, Option.bind_some, deserialize_of_fits F h]
  rfl

theorem read_length {bs rest : Bytes} {a : α} (h : read F bs = some (a, rest)) :
    Fits F a ∧ 2 + (F.serialize a).length + rest.length ≤ bs.length := by
  obtain ⟨⟨payload, back⟩, hframe, hde⟩ := Option.bind_eq_some_iff.mp h
  obtain ⟨b, hb, he⟩ := Option.map_eq_some_iff.mp hde
  simp only [Prod.mk.injEq] at he
  obtain ⟨rfl, rfl⟩ := he
  obtain ⟨hlt, hlen⟩ := readFrame_length hframe
  have hle := F.length_le payload b hb
  refine ⟨⟨F.accepts_of_deserialize payload b hb, Nat.lt_of_le_of_lt hle hlt⟩, ?_⟩
  omega

theorem readMany_frames {l : List α} (h : ∀ a ∈ l, Fits F a) (rest : Bytes) :
    readMany F l.length (frames F l ++ rest) = some (l, rest) := by
  induction l with
  | nil => rfl
  | cons a l ih =>
      rw [frames_cons, List.append_assoc, List.length_cons, readMany,
        read_frame F (h a List.mem_cons_self), Option.bind_some,
        ih fun b hb => h b (List.mem_cons_of_mem a hb)]
      rfl

theorem readMany_fits {n : Nat} {bs rest : Bytes} {l : List α}
    (h : readMany F n bs = some (l, rest)) : ∀ a ∈ l, Fits F a := by
  induction n generalizing bs l rest with
  | zero =>
      simp only [readMany, Option.some.injEq, Prod.mk.injEq] at h
      obtain ⟨rfl, _⟩ := h
      exact fun a ha => absurd ha List.not_mem_nil
  | succ n ih =>
      obtain ⟨⟨a, mid⟩, hread, hmap⟩ := Option.bind_eq_some_iff.mp h
      obtain ⟨⟨as, back⟩, hrest, he⟩ := Option.map_eq_some_iff.mp hmap
      simp only [Prod.mk.injEq] at he
      obtain ⟨rfl, rfl⟩ := he
      intro b hb
      rcases List.mem_cons.mp hb with rfl | hb
      · exact (read_length F hread).1
      · exact ih hrest b hb

/-- Framing and reading back returns the list and leaves nothing over exactly
when every message of it fits. -/
theorem readMany_iff (l : List α) :
    readMany F l.length (frames F l) = some (l, []) ↔ ∀ a ∈ l, Fits F a := by
  constructor
  · exact readMany_fits F
  · intro h
    simpa using readMany_frames F h []

/-! ## A reader that races against other events -/

inductive Status
  | running
  /-- A frame did not deserialize. -/
  | failed
  /-- An event ended the loop. -/
  | stopped
  deriving DecidableEq

structure Loop (α : Type) where
  sent : List α
  /-- Written by the sender and not yet arrived. -/
  inFlight : Bytes
  /-- Arrived and not yet taken by a read. -/
  wire : Bytes
  /-- Taken by the read in progress. -/
  held : Bytes
  handled : List α
  /-- How many bytes were taken off the wire and became no message. -/
  lost : Nat
  status : Status
  deriving DecidableEq

def Loop.start : Loop α :=
  { sent := [], inFlight := [], wire := [], held := [], handled := [], lost := 0,
    status := .running }

inductive Event (α β : Type)
  | send (a : α)
  | arrive (n : Nat)
  | read (n : Nat)
  | branch (b : β)

/-- How many bytes the current stage of the read still asks for: first the two
bytes of the length, then the payload. -/
def need (held : Bytes) : Nat :=
  if held.length < 2 then 2 - held.length else 2 + announced held - held.length

def complete (held : Bytes) : Bool :=
  2 ≤ held.length && held.length == 2 + announced held

/-- What the read in progress makes of the bytes it now holds. -/
def Loop.settle (s : Loop α) (held : Bytes) : Loop α :=
  if complete held then
    match F.deserialize (held.drop 2) with
    | some a => { s with held := [], handled := s.handled ++ [a] }
    | none => { s with held := [], lost := s.lost + held.length, status := .failed }
  else { s with held := held }

variable {β : Type} (ends : β → Bool)

def Loop.step (s : Loop α) : Event α β → Option (Loop α)
  | .send a =>
      some { s with sent := s.sent ++ [a], inFlight := s.inFlight ++ frame (F.serialize a) }
  | .arrive n =>
      if n ≤ s.inFlight.length then
        some { s with wire := s.wire ++ s.inFlight.take n, inFlight := s.inFlight.drop n }
      else none
  | .read n =>
      if s.status = .running ∧ 1 ≤ n ∧ n ≤ s.wire.length ∧ n ≤ need s.held then
        some (Loop.settle F { s with wire := s.wire.drop n } (s.held ++ s.wire.take n))
      else none
  | .branch b =>
      if s.status = .running then
        if ends b then some { s with status := .stopped }
        -- The read in progress is dropped, with what it has taken.
        else some { s with held := [], lost := s.lost + s.held.length }
      else none

def loop : Machine (Loop α) (Event α β) where
  init := .start
  step := Loop.step F ends

/-- What an event does to a loop. -/
inductive Loop.Step (s : Loop α) : Event α β → Loop α → Prop
  | send (a : α) : Step s (.send a)
      { s with sent := s.sent ++ [a], inFlight := s.inFlight ++ frame (F.serialize a) }
  | arrive {n : Nat} (hn : n ≤ s.inFlight.length) : Step s (.arrive n)
      { s with wire := s.wire ++ s.inFlight.take n, inFlight := s.inFlight.drop n }
  | read {n : Nat} (hrunning : s.status = .running) (hpos : 1 ≤ n) (hn : n ≤ s.wire.length)
      (hneed : n ≤ need s.held) : Step s (.read n)
      (Loop.settle F { s with wire := s.wire.drop n } (s.held ++ s.wire.take n))
  | stop {b : β} (hrunning : s.status = .running) (hends : ends b = true) : Step s (.branch b)
      { s with status := .stopped }
  | drop {b : β} (hrunning : s.status = .running) (hends : ends b = false) : Step s (.branch b)
      { s with held := [], lost := s.lost + s.held.length }

theorem step_cases {s t : Loop α} {e : Event α β} (hstep : s.step F ends e = some t) :
    s.Step F ends e t := by
  cases e with
  | send a =>
      obtain rfl := Option.some.inj hstep
      exact .send a
  | arrive n =>
      simp only [Loop.step] at hstep
      split at hstep
      · rename_i hn
        obtain rfl := Option.some.inj hstep
        exact .arrive hn
      · cases hstep
  | read n =>
      simp only [Loop.step] at hstep
      split at hstep
      · rename_i hread
        obtain rfl := Option.some.inj hstep
        exact .read hread.1 hread.2.1 hread.2.2.1 hread.2.2.2
      · cases hstep
  | branch b =>
      simp only [Loop.step] at hstep
      split at hstep
      · rename_i hrunning
        split at hstep
        · rename_i hends
          obtain rfl := Option.some.inj hstep
          exact .stop hrunning hends
        · rename_i hends
          obtain rfl := Option.some.inj hstep
          exact .drop hrunning (Bool.eq_false_iff.mpr hends)
      · cases hstep

/-- No event wins while the read in progress holds bytes. -/
def Unhurried (s : Loop α) (e : Event α β) : Prop :=
  ∀ b, e = .branch b → ends b = false → s.held = []

/-- Everything sent has been read off the wire, or a frame did not deserialize. -/
def Loop.Exhausted (s : Loop α) : Prop :=
  s.status = .failed ∨ (s.wire = [] ∧ s.inFlight = [])

/-- A held frame that is not complete yet. -/
def Unfinished (held : Bytes) : Prop :=
  held.length < 2 ∨ held.length < 2 + announced held

theorem complete_iff {held : Bytes} :
    complete held = true ↔ 2 ≤ held.length ∧ held.length = 2 + announced held := by
  simp [complete]

/-- A complete held frame is one a reader of the stream reads as a whole. -/
theorem read_of_complete {held : Bytes} {a : α} (h : complete held = true) :
    read F held = some (a, []) ↔ F.deserialize (held.drop 2) = some a := by
  obtain ⟨htwo, hlen⟩ := complete_iff.mp h
  have hframe : readFrame held = some (held.drop 2, []) := by
    have htake : (held.take 2).length = 2 := by
      rw [List.length_take]
      omega
    have hann : announced (held.take 2) = announced held := by
      have happend : announced (held.take 2 ++ held.drop 2) = announced (held.take 2) :=
        announced_append htake.ge
      rw [← happend, List.take_append_drop]
    have hdrop : Codec.takeExact (announced held) (held.drop 2 ++ []) = some (held.drop 2, []) :=
      Codec.takeExact_append (by rw [List.length_drop]; omega)
    rw [readFrame, ← List.take_append_drop 2 held, Codec.takeExact_append htake, Option.bind_some,
      List.take_append_drop, hann]
    simpa using hdrop
  rw [read, hframe, Option.bind_some]
  simp

theorem unfinished_of_not_complete {held chunk : Bytes} (hn : chunk.length ≤ need held)
    (hu : Unfinished held) (hc : complete (held ++ chunk) = false) :
    Unfinished (held ++ chunk) := by
  have hnot : ¬(2 ≤ (held ++ chunk).length ∧
      (held ++ chunk).length = 2 + announced (held ++ chunk)) := by
    rw [← complete_iff, hc]
    exact Bool.false_ne_true
  rw [List.length_append] at hnot
  unfold Unfinished need at *
  rw [List.length_append]
  by_cases hlen : held.length < 2
  · rw [if_pos hlen] at hn
    omega
  · rw [if_neg hlen] at hn
    rw [announced_append (by omega)] at hnot ⊢
    omega

/-! ### Counting bytes -/

/-- Bytes do not multiply: those of the handled messages, the lost ones and
those on their way are among the ones sent, and every handled message fits. -/
structure Loop.Accounted (s : Loop α) : Prop where
  count : (frames F s.handled).length + s.lost + s.held.length + s.wire.length +
    s.inFlight.length ≤ (frames F s.sent).length
  fits : ∀ a ∈ s.handled, Fits F a

theorem accounted_start : (Loop.start : Loop α).Accounted F :=
  ⟨Nat.le_refl 0, fun _ h => absurd h List.not_mem_nil⟩

theorem accounted_settle {s : Loop α} {held : Bytes}
    (hcount : (frames F s.handled).length + s.lost + held.length + s.wire.length +
      s.inFlight.length ≤ (frames F s.sent).length)
    (hfits : ∀ a ∈ s.handled, Fits F a) : (s.settle F held).Accounted F := by
  unfold Loop.settle
  split
  · rename_i hc
    obtain ⟨_, hlen⟩ := complete_iff.mp hc
    split
    · rename_i a hde
      have hle : (F.serialize a).length ≤ (held.drop 2).length := F.length_le _ a hde
      have hann := announced_lt held
      rw [List.length_drop] at hle
      constructor
      · simp only [frames_append, frames_cons, frames_nil, List.append_nil, List.length_append,
          frame_length, List.length_nil]
        omega
      · intro b hb
        rcases List.mem_append.mp hb with hb | hb
        · exact hfits b hb
        · rw [List.mem_singleton.mp hb]
          exact ⟨F.accepts_of_deserialize _ a hde, by omega⟩
    · exact ⟨by simp only [List.length_nil]; omega, hfits⟩
  · exact ⟨hcount, hfits⟩

theorem accounted_step {s t : Loop α} {e : Event α β} (h : s.Accounted F)
    (hstep : s.step F ends e = some t) : t.Accounted F := by
  have hcount := h.count
  cases step_cases F ends hstep with
  | send a =>
      refine ⟨?_, h.fits⟩
      simp only [frames_append, frames_cons, frames_nil, List.append_nil, List.length_append]
      omega
  | arrive hn =>
      refine ⟨?_, h.fits⟩
      simp only [List.length_append, List.length_take, List.length_drop]
      omega
  | read hrunning hpos hn hneed =>
      refine accounted_settle F ?_ h.fits
      simp only [List.length_append, List.length_take, List.length_drop]
      omega
  | stop => exact ⟨hcount, h.fits⟩
  | drop => exact ⟨by simp only [List.length_nil]; omega, h.fits⟩

theorem lost_step_le {s t : Loop α} {e : Event α β} (hstep : s.step F ends e = some t) :
    s.lost ≤ t.lost := by
  cases step_cases F ends hstep with
  | send => exact Nat.le_refl _
  | arrive => exact Nat.le_refl _
  | read =>
      unfold Loop.settle
      split
      · split
        · exact Nat.le_refl _
        · exact Nat.le_add_right _ _
      · exact Nat.le_refl _
  | stop => exact Nat.le_refl _
  | drop => exact Nat.le_add_right _ _

theorem lost_run_le {s t : Loop α} {es : List (Event α β)}
    (hr : (loop F ends).run s es = some t) : s.lost ≤ t.lost := by
  induction es generalizing s with
  | nil => rw [Option.some.inj hr]
  | cons e es ih =>
      obtain ⟨u, hu, hrest⟩ := (loop F ends).run_cons_eq_some hr
      exact Nat.le_trans (lost_step_le F ends hu) (ih hrest)

/-- A run that lost nothing dropped no read that held bytes. -/
theorem unhurried_of_lost_eq_zero {s t : Loop α} {es : List (Event α β)}
    (hr : (loop F ends).run s es = some t) (hlost : t.lost = 0) :
    (loop F ends).Meets (Unhurried ends) s es := by
  induction es generalizing s with
  | nil => trivial
  | cons e es ih =>
      obtain ⟨u, hu, hrest⟩ := (loop F ends).run_cons_eq_some hr
      intro v hv
      obtain rfl := Option.some.inj (hu.symm.trans hv)
      refine ⟨?_, ih hrest⟩
      rintro b rfl hb
      have hzero : u.lost = 0 := Nat.le_zero.mp (hlost ▸ lost_run_le F ends hrest)
      have hmove : s.Step F ends (.branch b) u := step_cases F ends hu
      cases hmove with
      | stop _ hends =>
          rw [hb] at hends
          cases hends
      | drop => exact List.length_eq_zero_iff.mp (Nat.eq_zero_of_add_eq_zero_left hzero)

/-! ### Staying in step with the sender -/

/-- What is held, on the wire and in flight is what follows the handled
messages in the stream. -/
structure Loop.InStep (s : Loop α) : Prop where
  rest : ∃ tail, s.sent = s.handled ++ tail ∧ frames F tail = s.held ++ s.wire ++ s.inFlight
  unfinished : Unfinished s.held
  status : s.status ≠ .failed

theorem inStep_start : (Loop.start : Loop α).InStep F :=
  ⟨⟨[], rfl, rfl⟩, Or.inl (Nat.zero_lt_two), nofun⟩

/-- A complete held frame at the front of a stream of fitting messages is the
frame of the first of them. -/
theorem complete_eq_frame {tail : List α} {held rest : Bytes}
    (hfits : ∀ a ∈ tail, Fits F a) (hstream : frames F tail = held ++ rest)
    (hc : 2 ≤ held.length) (hlen : 2 + announced held ≤ held.length) :
    ∃ a tail', tail = a :: tail' ∧ ∃ more, held = frame (F.serialize a) ++ more ∧
      frames F tail' = more ++ rest := by
  cases tail with
  | nil =>
      have hnil : held = [] := (List.append_eq_nil_iff.mp hstream.symm).1
      rw [hnil] at hc
      exact absurd hc (by decide)
  | cons a tail' =>
      have ha := (hfits a List.mem_cons_self).2
      rw [frames_cons] at hstream
      have hann : announced held = (F.serialize a).length := by
        rw [← announced_append hc, ← hstream, announced_append (by simp), announced_frame ha]
      have hshort : (frame (F.serialize a)).length ≤ held.length := by
        rw [frame_length, ← hann]
        exact hlen
      refine ⟨a, tail', rfl, held.drop (frame (F.serialize a)).length, ?_, ?_⟩
      · have htake := congrArg (List.take (frame (F.serialize a)).length) hstream
        rw [List.take_left', List.take_append_of_le_length hshort] at htake
        · nth_rewrite 1 [← List.take_append_drop (frame (F.serialize a)).length held]
          rw [← htake]
        · rfl
      · have hdrop := congrArg (List.drop (frame (F.serialize a)).length) hstream
        rw [List.drop_left', List.drop_append_of_le_length hshort] at hdrop
        · exact hdrop
        · rfl

theorem inStep_settle {s : Loop α} {held : Bytes} {tail : List α}
    (hsent : s.sent = s.handled ++ tail) (hfits : ∀ a ∈ s.sent, Fits F a)
    (hstream : frames F tail = held ++ s.wire ++ s.inFlight) (hs : s.status ≠ .failed)
    (hu : complete held = false → Unfinished held) : (s.settle F held).InStep F := by
  unfold Loop.settle
  split
  · rename_i hc
    obtain ⟨htwo, hlen⟩ := complete_iff.mp hc
    have htail : ∀ a ∈ tail, Fits F a := fun a ha =>
      hfits a (hsent ▸ List.mem_append_right _ ha)
    rw [List.append_assoc] at hstream
    obtain ⟨a, tail', rfl, more, hheld, hmore⟩ :=
      complete_eq_frame F htail hstream htwo (Nat.le_of_eq hlen.symm)
    have ha := htail a List.mem_cons_self
    have hann : announced held = (F.serialize a).length := by
      rw [hheld, announced_append (by simp), announced_frame ha.2]
    have hnil : more = [] := by
      have hlen' := congrArg List.length hheld
      rw [List.length_append, frame_length] at hlen'
      exact List.length_eq_zero_iff.mp (by omega)
    subst hnil
    have hpayload : held.drop 2 = F.serialize a := by
      rw [hheld, List.append_nil]
      rfl
    rw [hpayload, deserialize_of_fits F ha]
    refine ⟨⟨tail', ?_, ?_⟩, Or.inl Nat.zero_lt_two, hs⟩
    · simp [hsent]
    · simpa using hmore
  · rename_i hc
    exact ⟨⟨tail, hsent, hstream⟩, hu (Bool.eq_false_iff.mpr hc), hs⟩

theorem sent_step {s t : Loop α} {e : Event α β} (hstep : s.step F ends e = some t) :
    ∃ l, t.sent = s.sent ++ l := by
  cases step_cases F ends hstep with
  | send a => exact ⟨[a], rfl⟩
  | read =>
      refine ⟨[], ?_⟩
      unfold Loop.settle
      split
      · split <;> exact (List.append_nil _).symm
      · exact (List.append_nil _).symm
  | arrive | stop | drop => exact ⟨[], (List.append_nil _).symm⟩

theorem inStep_step {s t : Loop α} {e : Event α β}
    (h : s.InStep F) (hfits : ∀ a ∈ s.sent, Fits F a) (hcond : Unhurried ends s e)
    (hstep : s.step F ends e = some t) : t.InStep F := by
  obtain ⟨⟨tail, hsent, hstream⟩, hu, hs⟩ := h
  cases step_cases F ends hstep with
  | send a =>
      refine ⟨⟨tail ++ [a], ?_, ?_⟩, hu, hs⟩
      · simp [hsent]
      · simp [frames_append, frames_cons, hstream]
  | arrive => exact ⟨⟨tail, hsent, by simpa using hstream⟩, hu, hs⟩
  | read hrunning hpos hn hneed =>
      refine inStep_settle F hsent hfits ?_ hs ?_
      · simpa using hstream
      · intro hc
        refine unfinished_of_not_complete ?_ hu hc
        rw [List.length_take]
        omega
  | stop => exact ⟨⟨tail, hsent, hstream⟩, hu, nofun⟩
  | @drop b hrunning hends =>
      have hheld : s.held = [] := hcond b rfl hends
      rw [hheld] at hstream
      exact ⟨⟨tail, hsent, hstream⟩, Or.inl Nat.zero_lt_two, hs⟩

/-- A loop that drops no held bytes stays in step while what was sent fits. -/
theorem inStep_run {t : Loop α} {es : List (Event α β)}
    (hr : (loop F ends).run .start es = some t)
    (hmeets : (loop F ends).Meets (Unhurried ends) .start es)
    (hfits : ∀ a ∈ t.sent, Fits F a) : t.InStep F := by
  refine Machine.run_of_meets (I := fun s => (∀ a ∈ s.sent, Fits F a) → s.InStep F)
    ?_ (fun _ => inStep_start F) hmeets hr hfits
  intro s e u hI hC hstep hfit
  obtain ⟨l, hl⟩ := sent_step F ends hstep
  have hsent : ∀ a ∈ s.sent, Fits F a := fun a ha => hfit a (hl ▸ List.mem_append_left l ha)
  exact inStep_step F ends (hI hsent) hsent hC hstep

theorem accounted_run {t : Loop α} {es : List (Event α β)}
    (hr : (loop F ends).run .start es = some t) : t.Accounted F :=
  Machine.invariant (M := loop F ends) (accounted_start F)
    (fun _ _ _ h hstep => accounted_step F ends h hstep) ⟨es, hr⟩

/-- In step with the sender, what was handled is the front of what was sent. -/
theorem handled_prefix_sent {t : Loop α} (h : t.InStep F) : t.handled <+: t.sent := by
  obtain ⟨tail, hsent, _⟩ := h.rest
  exact ⟨tail, hsent.symm⟩

/-- A loop with nothing left to read has handled what was sent exactly when
every message fits and no event won while the read in progress held bytes. -/
theorem handled_eq_sent_iff {t : Loop α} {es : List (Event α β)}
    (hr : (loop F ends).run .start es = some t) (hex : t.Exhausted) :
    t.handled = t.sent ↔
      (∀ a ∈ t.sent, Fits F a) ∧ (loop F ends).Meets (Unhurried ends) .start es := by
  constructor
  · intro heq
    have hacc := accounted_run F ends hr
    have hcount := hacc.count
    rw [heq] at hcount
    exact ⟨heq ▸ hacc.fits, unhurried_of_lost_eq_zero F ends hr (by omega)⟩
  · rintro ⟨hfits, hmeets⟩
    obtain ⟨⟨tail, hsent, hstream⟩, hu, hs⟩ := inStep_run F ends hr hmeets hfits
    rcases hex with hfailed | ⟨hwire, hflight⟩
    · exact absurd hfailed hs
    · rw [hwire, hflight, List.append_nil, List.append_nil] at hstream
      cases tail with
      | nil => rw [hsent, List.append_nil]
      | cons a tail =>
          -- What is held would contain the whole frame of the next message.
          have ha := (hfits a (hsent ▸ List.mem_append_right _ List.mem_cons_self)).2
          rw [frames_cons] at hstream
          have hann : announced t.held = (F.serialize a).length := by
            rw [← hstream, announced_append (by simp), announced_frame ha]
          have hlen := congrArg List.length hstream
          rw [List.length_append, frame_length] at hlen
          unfold Unfinished at hu
          omega

end Framing
