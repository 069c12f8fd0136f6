/-
Streams from one end to the other, and who passes them on.

What comes out of a `Link` is a prefix of what went in, and the end comes out behind
everything else.  A relay reads from one link and writes to the next.  It may write something
before it begins, and it may keep to itself the front of what it reads.  `Passes` says what
holds between its two links, and `Passes.sent_eq` that nothing else is lost or added.
-/
import Mathlib.Data.List.Basic

/-- A stream with what was put in and what has come out. -/
structure Link (α : Type) where
  sent : List α
  received : List α
  closed : Bool
  /-- The receiver has seen the end. -/
  ended : Bool
  received_prefix : received <+: sent
  all_of_ended : ended = true → closed = true ∧ received = sent

namespace Link

variable {α : Type}

def empty : Link α where
  sent := []
  received := []
  closed := false
  ended := false
  received_prefix := List.prefix_rfl
  all_of_ended := fun h => absurd h Bool.false_ne_true

/-- What has been put in and has not come out. -/
def flight (l : Link α) : List α := l.sent.drop l.received.length

theorem received_append_flight (l : Link α) : l.received ++ l.flight = l.sent := by
  obtain ⟨rest, hrest⟩ := l.received_prefix
  rw [flight, ← hrest, List.drop_left]

theorem flight_of_ended {l : Link α} (h : l.ended = true) : l.flight = [] := by
  rw [flight, (l.all_of_ended h).2, List.drop_length]

def send (l : Link α) (as : List α) : Option (Link α) :=
  if h : l.closed = false then
    some {
      sent := l.sent ++ as
      received := l.received
      closed := l.closed
      ended := l.ended
      received_prefix := l.received_prefix.trans (List.prefix_append _ _)
      all_of_ended := fun hended =>
        absurd (h.symm.trans (l.all_of_ended hended).1) Bool.false_ne_true }
  else none

/-- The sender sends nothing more. -/
def close (l : Link α) : Link α where
  sent := l.sent
  received := l.received
  closed := true
  ended := l.ended
  received_prefix := l.received_prefix
  all_of_ended := fun h => ⟨rfl, (l.all_of_ended h).2⟩

/-- At most `n` come out. -/
def receive (l : Link α) (n : Nat) : Link α where
  sent := l.sent
  received := l.received ++ l.flight.take n
  closed := l.closed
  ended := l.ended
  received_prefix := by
    have h : l.received ++ l.flight.take n <+: l.received ++ l.flight :=
      (List.prefix_append_right_inj _).mpr (List.take_prefix n _)
    rwa [received_append_flight] at h
  all_of_ended := fun h => by
    rw [flight_of_ended h, List.take_nil, List.append_nil]
    exact l.all_of_ended h

/-- The receiver sees the end. -/
def finish (l : Link α) : Option (Link α) :=
  if h : l.closed = true ∧ l.flight = [] then
    some {
      sent := l.sent
      received := l.received
      closed := l.closed
      ended := true
      received_prefix := l.received_prefix
      all_of_ended := fun _ => ⟨h.1, by
        rw [← l.received_append_flight, h.2, List.append_nil]⟩ }
  else none

@[simp] theorem close_sent (l : Link α) : l.close.sent = l.sent := rfl

@[simp] theorem close_received (l : Link α) : l.close.received = l.received := rfl

@[simp] theorem close_ended (l : Link α) : l.close.ended = l.ended := rfl

@[simp] theorem close_closed (l : Link α) : l.close.closed = true := rfl

@[simp] theorem receive_sent (l : Link α) (n : Nat) : (l.receive n).sent = l.sent := rfl

@[simp] theorem receive_received (l : Link α) (n : Nat) :
    (l.receive n).received = l.received ++ l.flight.take n := rfl

@[simp] theorem receive_ended (l : Link α) (n : Nat) : (l.receive n).ended = l.ended := rfl

@[simp] theorem receive_closed (l : Link α) (n : Nat) : (l.receive n).closed = l.closed := rfl

/-- What a write changes. -/
theorem send_cases {l m : Link α} {as : List α} (h : l.send as = some m) :
    l.closed = false ∧ m.sent = l.sent ++ as ∧ m.received = l.received ∧
      m.closed = l.closed ∧ m.ended = l.ended := by
  unfold send at h
  split at h
  · rename_i hopen
    obtain rfl := Option.some.inj h
    exact ⟨hopen, rfl, rfl, rfl, rfl⟩
  · cases h

theorem finish_cases {l m : Link α} (h : l.finish = some m) :
    m.sent = l.sent ∧ m.received = l.received ∧ m.closed = l.closed ∧ m.ended = true := by
  unfold finish at h
  split at h
  · obtain rfl := Option.some.inj h
    exact ⟨rfl, rfl, rfl, rfl⟩
  · cases h

/-! ## Relays -/

/-- What a relay passes on in one go. -/
inductive Portion
  | chunk (n : Nat)
  | ending

/-- A relay reads from `a` and writes to `b`, or sees the end of `a` and closes `b`. -/
def pass (a b : Link α) : Portion → Option (Link α × Link α)
  | .chunk n => (b.send (a.flight.take n)).map fun b => (a.receive n, b)
  | .ending => a.finish.map fun a => (a, b.close)

/-- A relay from `a` to `b` that has kept the first `skip` for itself and has begun with
`head`.  What `b` says is the end is the end of `a`, unless something went wrong. -/
structure Passes (wrong : Bool) (skip : Nat) (head : List α) (a b : Link α) : Prop where
  skip_le : skip ≤ a.received.length
  sent : b.sent = head ++ a.received.drop skip
  closed : b.closed = true → wrong = true ∨ a.ended = true

namespace Passes

variable {wrong : Bool} {skip : Nat} {head : List α} {a b a' b' : Link α}

/-- Everything that is not kept is in `b` or still on its way in `a`. -/
theorem sent_eq (h : Passes wrong skip head a b) :
    head ++ a.sent.drop skip = b.sent ++ a.flight := by
  rw [h.sent, ← a.received_append_flight, List.drop_append_of_le_length h.skip_le,
    List.append_assoc]

/-- Changes that a relay does not see. -/
theorem congr (h : Passes wrong skip head a b) (hreceived : a'.received = a.received)
    (hended : a'.ended = a.ended) (hsent : b'.sent = b.sent)
    (hclosed : b'.closed = true → wrong = true ∨ b.closed = true) :
    Passes wrong skip head a' b' where
  skip_le := hreceived ▸ h.skip_le
  sent := by rw [hsent, hreceived, h.sent]
  closed hb := by
    rcases hclosed hb with hwrong | hb
    · exact .inl hwrong
    · exact hended ▸ h.closed hb

theorem of_wrong {wrong' : Bool} (h : Passes wrong skip head a b)
    (hmono : wrong = true → wrong' = true) : Passes wrong' skip head a b where
  skip_le := h.skip_le
  sent := h.sent
  closed hb := (h.closed hb).imp_left hmono

theorem pass {portion : Portion} (h : Passes wrong skip head a b)
    (hpass : Link.pass a b portion = some (a', b')) : Passes wrong skip head a' b' := by
  cases portion with
  | chunk n =>
      obtain ⟨m, hm, heq⟩ := Option.map_eq_some_iff.mp hpass
      obtain ⟨rfl, rfl⟩ := Prod.mk.inj heq
      obtain ⟨-, hsent, -, hclosed, -⟩ := send_cases hm
      refine ⟨?_, ?_, fun hb => h.closed (hclosed ▸ hb)⟩
      · rw [receive_received, List.length_append]
        exact Nat.le_add_right_of_le h.skip_le
      · rw [hsent, h.sent, receive_received, List.drop_append_of_le_length h.skip_le,
          List.append_assoc]
  | ending =>
      obtain ⟨m, hm, heq⟩ := Option.map_eq_some_iff.mp hpass
      obtain ⟨rfl, rfl⟩ := Prod.mk.inj heq
      obtain ⟨-, hreceived, -, hended⟩ := finish_cases hm
      exact ⟨hreceived ▸ h.skip_le, by rw [close_sent, h.sent, hreceived], fun _ => .inr hended⟩

end Passes

/-- What a relay does to the two links, seen from their other ends. -/
theorem pass_ends {a b a' b' : Link α} {portion : Portion}
    (h : pass a b portion = some (a', b')) :
    a'.sent = a.sent ∧ a'.closed = a.closed ∧ b'.received = b.received ∧ b'.ended = b.ended := by
  cases portion with
  | chunk n =>
      obtain ⟨m, hm, heq⟩ := Option.map_eq_some_iff.mp h
      obtain ⟨rfl, rfl⟩ := Prod.mk.inj heq
      obtain ⟨-, -, hreceived, -, hended⟩ := send_cases hm
      exact ⟨rfl, rfl, hreceived, hended⟩
  | ending =>
      obtain ⟨m, hm, heq⟩ := Option.map_eq_some_iff.mp h
      obtain ⟨rfl, rfl⟩ := Prod.mk.inj heq
      obtain ⟨hsent, -, hclosed, -⟩ := finish_cases hm
      exact ⟨hsent, hclosed, rfl, rfl⟩

end Link
