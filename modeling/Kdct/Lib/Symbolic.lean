/-
Messages as terms.

Digests are one-way and injective by construction: a digest is equal to another only
if their parts are, and nothing takes a digest apart.  Who knows some terms can send
those, what anyone can make up, and digests of what it can send.  The result this file
exists for is `not_mentions_of_derivable`: an atom that is in nothing one knows is in
nothing one can send.
-/

inductive Term (α : Type) where
  | atom (a : α)
  /-- The digest of the concatenation of the parts. -/
  | digest (parts : List (Term α))

namespace Term

variable {α : Type} [DecidableEq α]

mutual

def decEq : (s t : Term α) → Decidable (s = t)
  | .atom a, .atom b =>
      if h : a = b then .isTrue (by rw [h]) else .isFalse fun heq => h (Term.atom.inj heq)
  | .digest ps, .digest qs =>
      match decEqList ps qs with
      | .isTrue h => .isTrue (by rw [h])
      | .isFalse h => .isFalse fun heq => h (Term.digest.inj heq)
  | .atom _, .digest _ => .isFalse fun h => by cases h
  | .digest _, .atom _ => .isFalse fun h => by cases h

def decEqList : (ps qs : List (Term α)) → Decidable (ps = qs)
  | [], [] => .isTrue rfl
  | p :: ps, q :: qs =>
      match decEq p q, decEqList ps qs with
      | .isTrue h, .isTrue h' => .isTrue (by rw [h, h'])
      | .isFalse h, _ => .isFalse fun heq => h (List.cons.inj heq).1
      | _, .isFalse h => .isFalse fun heq => h (List.cons.inj heq).2
  | [], _ :: _ => .isFalse fun h => by cases h
  | _ :: _, [] => .isFalse fun h => by cases h

end

instance : DecidableEq (Term α) := decEq

mutual

/-- Whether the term can be sent by who knows `known`; `own` are the atoms that anyone
can make up. -/
def derivable (own : α → Bool) (known : List (Term α)) : Term α → Bool
  | .atom a => own a || decide (.atom a ∈ known)
  | .digest parts => derivableAll own known parts || decide (.digest parts ∈ known)

def derivableAll (own : α → Bool) (known : List (Term α)) : List (Term α) → Bool
  | [] => true
  | p :: ps => derivable own known p && derivableAll own known ps

end

mutual

/-- Whether the atom is in the term. -/
def mentions (a : α) : Term α → Bool
  | .atom b => decide (a = b)
  | .digest parts => mentionsAny a parts

def mentionsAny (a : α) : List (Term α) → Bool
  | [] => false
  | p :: ps => mentions a p || mentionsAny a ps

end

mutual

theorem not_mentions_of_derivable {own : α → Bool} {known : List (Term α)} {a : α}
    (hown : own a = false) (hknown : ∀ t ∈ known, t.mentions a = false) :
    (t : Term α) → t.derivable own known = true → t.mentions a = false
  | .atom b, h => by
      rw [derivable, Bool.or_eq_true, decide_eq_true_eq] at h
      rcases h with h | h
      · rw [mentions, decide_eq_false_iff_not]
        rintro rfl
        exact Bool.false_ne_true (hown.symm.trans h)
      · exact hknown _ h
  | .digest parts, h => by
      rw [derivable, Bool.or_eq_true, decide_eq_true_eq] at h
      rcases h with h | h
      · exact not_mentionsAny_of_derivableAll hown hknown parts h
      · exact hknown _ h

theorem not_mentionsAny_of_derivableAll {own : α → Bool} {known : List (Term α)} {a : α}
    (hown : own a = false) (hknown : ∀ t ∈ known, t.mentions a = false) :
    (ps : List (Term α)) → derivableAll own known ps = true → mentionsAny a ps = false
  | [], _ => rfl
  | p :: ps, h => by
      rw [derivableAll, Bool.and_eq_true] at h
      rw [mentionsAny, Bool.or_eq_false_iff]
      exact ⟨not_mentions_of_derivable hown hknown p h.1,
        not_mentionsAny_of_derivableAll hown hknown ps h.2⟩

end

end Term
