/-
What a schema asks of its tables.

`Unique f t` says that no two rows of `t` agree in the columns `f`, and `Refers f t u`
that a row of `t` whose column `f` is set names a row of `u` by its key, as a foreign
key does.  There is one rule for each statement on either side: a row is new, rows
change, rows go.  `Refers.cascade` and `Refers.set_null` are the two ways in which a
deletion on the side that is named takes care of whoever names a row that goes.
-/
import Kdct.Lib.Table

namespace Table

variable {ρ τ κ : Type} {key : ρ → Nat} {key' : τ → Nat} {t : Table ρ key} {u : Table τ key'}

/-- No two rows agree in the columns `f`. -/
def Unique (f : ρ → κ) (t : Table ρ key) : Prop := (t.rows.map f).Nodup

/-- A row whose column `f` is set names a row of the other table. -/
def Refers (f : ρ → Option Nat) (t : Table ρ key) (u : Table τ key') : Prop :=
  ∀ r ∈ t.rows, ∀ k ∈ f r, ∃ x ∈ u.rows, key' x = k

theorem isSome_find? {k : Nat} : (t.find? k).isSome = true ↔ ∃ x ∈ t.rows, key x = k := by
  rw [Option.isSome_iff_exists]
  exact exists_congr fun x => find?_eq_some

/-- Some rows of a table have changed. -/
def Changes (t t' : Table ρ key) (p : ρ → Bool) (g : ρ → ρ) : Prop :=
  t'.rows = t.rows.map fun r => if p r then g r else r

theorem Changes.mem {t' : Table ρ key} {p : ρ → Bool} {g : ρ → ρ} (h : t.Changes t' p g) {r : ρ} :
    r ∈ t'.rows ↔ ∃ r₀ ∈ t.rows, r = if p r₀ then g r₀ else r₀ := by
  rw [h]
  simp only [List.mem_map, eq_comm]

/-- What holds of the rows that change and of those that do not. -/
theorem Changes.all {t' : Table ρ key} {p : ρ → Bool} {g : ρ → ρ} {P : ρ → Prop}
    (hchanges : t.Changes t' p g) (h : ∀ r ∈ t.rows, P r)
    (hg : ∀ r ∈ t.rows, p r = true → P (g r)) : ∀ r ∈ t'.rows, P r := by
  intro r hr
  obtain ⟨r₀, hr₀, rfl⟩ := hchanges.mem.mp hr
  split
  · rename_i hp
    exact hg r₀ hr₀ hp
  · exact h r₀ hr₀

/-! ## Unique columns -/

section Unique

variable {f : ρ → κ}

theorem unique_empty : Unique f (empty : Table ρ key) := List.nodup_nil

theorem Unique.insert {mk : Nat → ρ} {hmk : ∀ n, key (mk n) = n} (h : Unique f t)
    (hnew : ∀ r ∈ t.rows, f r ≠ f (mk (t.seq + 1))) : Unique f (t.insert mk hmk) := by
  show ((t.rows ++ [mk (t.seq + 1)]).map f).Nodup
  rw [List.map_append, List.map_singleton]
  refine List.nodup_append.mpr ⟨h, List.nodup_singleton _, ?_⟩
  intro a ha b hb hab
  obtain ⟨r, hr, rfl⟩ := List.mem_map.mp ha
  exact hnew r hr (hab.trans (List.mem_singleton.mp hb))

theorem Unique.deleteWhere (h : Unique f t) (p : ρ → Bool) : Unique f (t.deleteWhere p) :=
  h.sublist (List.filter_sublist.map f)

/-- An update of other columns. -/
theorem Unique.of_changes {t' : Table ρ key} {p : ρ → Bool} {g : ρ → ρ} (h : Unique f t)
    (hchanges : t.Changes t' p g) (hf : ∀ r, f (g r) = f r) : Unique f t' := by
  have hcolumns : t'.rows.map f = t.rows.map f := by
    rw [hchanges, List.map_map]
    refine List.map_congr_left fun r _ => ?_
    rw [Function.comp_apply]
    split
    · exact hf r
    · rfl
  unfold Unique
  rw [hcolumns]
  exact h

end Unique

/-! ## References -/

section Refers

variable {f : ρ → Option Nat}

theorem refers_empty (u : Table τ key') : Refers f (empty : Table ρ key) u :=
  fun _ hr => absurd hr List.not_mem_nil

theorem Refers.insert {mk : Nat → ρ} {hmk : ∀ n, key (mk n) = n} (h : Refers f t u)
    (hnew : ∀ k ∈ f (mk (t.seq + 1)), ∃ x ∈ u.rows, key' x = k) :
    Refers f (t.insert mk hmk) u := by
  intro r hr
  rcases mem_insert.mp hr with hr | rfl
  · exact h r hr
  · exact hnew

theorem Refers.deleteWhere (h : Refers f t u) (p : ρ → Bool) : Refers f (t.deleteWhere p) u :=
  fun r hr => h r (mem_deleteWhere.mp hr).1

theorem Refers.of_changes {t' : Table ρ key} {p : ρ → Bool} {g : ρ → ρ} (h : Refers f t u)
    (hchanges : t.Changes t' p g)
    (hnew : ∀ r ∈ t.rows, p r = true → ∀ k ∈ f (g r), ∃ x ∈ u.rows, key' x = k) :
    Refers f t' u := hchanges.all h hnew

/-- An update of other columns. -/
theorem Refers.of_others {t' : Table ρ key} {p : ρ → Bool} {g : ρ → ρ} (h : Refers f t u)
    (hchanges : t.Changes t' p g) (hf : ∀ r, f (g r) = f r) : Refers f t' u :=
  h.of_changes hchanges fun r hr _ k hk => h r hr k (hf r ▸ hk)

/-- The rows that are named keep their keys. -/
theorem Refers.of_target {u' : Table τ key'} (h : Refers f t u)
    (hkeys : ∀ x ∈ u.rows, ∃ x' ∈ u'.rows, key' x' = key' x) : Refers f t u' := by
  intro r hr k hk
  obtain ⟨x, hx, rfl⟩ := h r hr k hk
  exact hkeys x hx

theorem Refers.insert_target {mk : Nat → τ} {hmk : ∀ n, key' (mk n) = n} (h : Refers f t u) :
    Refers f t (u.insert mk hmk) :=
  h.of_target fun x hx => ⟨x, mem_insert.mpr (.inl hx), rfl⟩

theorem Refers.changes_target {u' : Table τ key'} {p : τ → Bool} {g : τ → τ} (h : Refers f t u)
    (hchanges : u.Changes u' p g) (hg : ∀ x, key' (g x) = key' x) : Refers f t u' := by
  refine h.of_target fun x hx => ⟨_, hchanges.mem.mpr ⟨x, hx, rfl⟩, ?_⟩
  split
  · exact hg x
  · rfl

/-- `ON DELETE CASCADE`: whoever names a row that goes, goes. -/
theorem Refers.cascade {p : ρ → Bool} {q : τ → Bool} (h : Refers f t u)
    (hp : ∀ r ∈ t.rows, ∀ x, q x = true → f r = some (key' x) → p r = true) :
    Refers f (t.deleteWhere p) (u.deleteWhere q) := by
  intro r hr k hk
  obtain ⟨hr, hkept⟩ := mem_deleteWhere.mp hr
  obtain ⟨x, hx, rfl⟩ := h r hr k hk
  refine ⟨x, mem_deleteWhere.mpr ⟨hx, Bool.eq_false_iff.mpr fun hq => ?_⟩, rfl⟩
  rw [hp r hr x hq hk] at hkept
  cases hkept

/-- `ON DELETE SET NULL`: whoever names a row that goes, names nothing any more. -/
theorem Refers.set_null {t' : Table ρ key} {p : ρ → Bool} {g : ρ → ρ} {q : τ → Bool}
    (h : Refers f t u) (hchanges : t.Changes t' p g) (hnone : ∀ r, f (g r) = none)
    (hp : ∀ r ∈ t.rows, ∀ x ∈ u.rows, q x = true → f r = some (key' x) → p r = true) :
    Refers f t' (u.deleteWhere q) := by
  intro r hr k hk
  obtain ⟨r₀, hr₀, rfl⟩ := hchanges.mem.mp hr
  split at hk
  · rw [hnone] at hk
    cases hk
  · rename_i hout
    obtain ⟨x, hx, rfl⟩ := h r₀ hr₀ k hk
    exact ⟨x, mem_deleteWhere.mpr
      ⟨hx, Bool.eq_false_iff.mpr fun hq => hout (hp r₀ hr₀ x hx hq hk)⟩, rfl⟩

end Refers

/-! ## Keys are not given out twice -/

/-- The key has been given out, and no row has it. -/
def Retired (t : Table ρ key) (k : Nat) : Prop := k ≤ t.seq ∧ ∀ r ∈ t.rows, key r ≠ k

variable {k : Nat}

theorem Retired.insert {mk : Nat → ρ} {hmk : ∀ n, key (mk n) = n} (h : t.Retired k) :
    (t.insert mk hmk).Retired k := by
  refine ⟨Nat.le_succ_of_le h.1, fun r hr => ?_⟩
  rcases mem_insert.mp hr with hr | rfl
  · exact h.2 r hr
  · rw [hmk]
    have hle : k ≤ t.seq := h.1
    omega

theorem Retired.deleteWhere (h : t.Retired k) (p : ρ → Bool) : (t.deleteWhere p).Retired k :=
  ⟨h.1, fun r hr => h.2 r (mem_deleteWhere.mp hr).1⟩

theorem Retired.of_changes {t' : Table ρ key} {p : ρ → Bool} {g : ρ → ρ} (h : t.Retired k)
    (hchanges : t.Changes t' p g) (hseq : t'.seq = t.seq) (hg : ∀ r, key (g r) = key r) :
    t'.Retired k :=
  ⟨hseq ▸ h.1, hchanges.all h.2 fun r hr _ => hg r ▸ h.2 r hr⟩

end Table
