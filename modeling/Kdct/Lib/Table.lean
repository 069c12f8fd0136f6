/-
Tables with an automatically incremented key.

A `Table` keeps its rows in the order of their keys' creation.  No two rows share
a key, and the sequence has passed the key of every row, so a new row never takes
the key of a row that is or was there.
-/
import Mathlib.Data.List.Nodup

structure Table (ρ : Type) (key : ρ → Nat) where
  rows : List ρ
  /-- The last key given out. -/
  seq : Nat
  nodup : (rows.map key).Nodup
  bounded : ∀ r ∈ rows, key r ≤ seq

namespace Table

variable {ρ : Type} {key : ρ → Nat}

def empty : Table ρ key where
  rows := []
  seq := 0
  nodup := List.nodup_nil
  bounded := fun _ h => absurd h List.not_mem_nil

/-- The row with the key, if there is one. -/
def find? (t : Table ρ key) (k : Nat) : Option ρ := t.rows.find? fun r => key r == k

/-- A new row, made from its key. -/
def insert (t : Table ρ key) (mk : Nat → ρ) (hmk : ∀ n, key (mk n) = n) : Table ρ key where
  rows := t.rows ++ [mk (t.seq + 1)]
  seq := t.seq + 1
  nodup := by
    rw [List.map_append, List.map_singleton, hmk]
    refine List.nodup_append.mpr ⟨t.nodup, List.nodup_singleton _, ?_⟩
    rintro k hk _ hk' rfl
    obtain ⟨r, hr, rfl⟩ := List.mem_map.mp hk
    have hle := t.bounded r hr
    rw [List.mem_singleton.mp hk'] at hle
    omega
  bounded r hr := by
    rcases List.mem_append.mp hr with hr | hr
    · exact Nat.le_succ_of_le (t.bounded r hr)
    · obtain rfl := List.mem_singleton.mp hr
      exact Nat.le_of_eq (hmk (t.seq + 1))

/-- Changes the rows that satisfy `p`, but not their keys. -/
def updateWhere (t : Table ρ key) (p : ρ → Bool) (f : ρ → ρ) (hf : ∀ r, key (f r) = key r) :
    Table ρ key where
  rows := t.rows.map fun r => if p r then f r else r
  seq := t.seq
  nodup := by
    have hkeys : (t.rows.map fun r => if p r then f r else r).map key = t.rows.map key := by
      rw [List.map_map]
      refine List.map_congr_left fun r _ => ?_
      rw [Function.comp_apply]
      split
      · exact hf r
      · rfl
    rw [hkeys]
    exact t.nodup
  bounded r hr := by
    obtain ⟨r₀, hr₀, rfl⟩ := List.mem_map.mp hr
    split
    · exact hf r₀ ▸ t.bounded r₀ hr₀
    · exact t.bounded r₀ hr₀

def deleteWhere (t : Table ρ key) (p : ρ → Bool) : Table ρ key where
  rows := t.rows.filter fun r => !p r
  seq := t.seq
  nodup := t.nodup.sublist (List.filter_sublist.map key)
  bounded r hr := t.bounded r (List.mem_filter.mp hr).1

/-- The same rows, read with other columns. -/
def map {σ : Type} {key' : σ → Nat} (t : Table ρ key) (g : ρ → σ) (hg : ∀ r, key' (g r) = key r) :
    Table σ key' where
  rows := t.rows.map g
  seq := t.seq
  nodup := by
    rw [List.map_map, show key' ∘ g = key from funext hg]
    exact t.nodup
  bounded r hr := by
    obtain ⟨r₀, hr₀, rfl⟩ := List.mem_map.mp hr
    exact hg r₀ ▸ t.bounded r₀ hr₀

variable {t : Table ρ key} {mk : Nat → ρ} {hmk : ∀ n, key (mk n) = n} {p : ρ → Bool} {f : ρ → ρ}
  {hf : ∀ r, key (f r) = key r} {r r' : ρ} {k : Nat}

theorem mem_insert : r ∈ (t.insert mk hmk).rows ↔ r ∈ t.rows ∨ r = mk (t.seq + 1) := by
  simp [insert]

theorem mem_updateWhere :
    r ∈ (t.updateWhere p f hf).rows ↔ ∃ r₀ ∈ t.rows, r = if p r₀ then f r₀ else r₀ := by
  simp only [updateWhere, List.mem_map, eq_comm]

theorem mem_deleteWhere : r ∈ (t.deleteWhere p).rows ↔ r ∈ t.rows ∧ p r = false := by
  simp [deleteWhere]

theorem ext_rows {t t' : Table ρ key} (hrows : t.rows = t'.rows) (hseq : t.seq = t'.seq) :
    t = t' := by
  cases t
  cases t'
  cases hrows
  cases hseq
  rfl

/-- An update of no row. -/
theorem updateWhere_eq_self (h : ∀ r ∈ t.rows, p r = false) : t.updateWhere p f hf = t := by
  refine ext_rows ((List.map_congr_left fun r hr => ?_).trans (List.map_id _)) rfl
  rw [h r hr]
  rfl

/-- A deletion of no row. -/
theorem deleteWhere_eq_self (h : ∀ r ∈ t.rows, p r = false) : t.deleteWhere p = t := by
  refine ext_rows (List.filter_eq_self.mpr fun r hr => ?_) rfl
  rw [h r hr]
  rfl

section Map

variable {σ : Type} {key' : σ → Nat} {g : ρ → σ} {hg : ∀ r, key' (g r) = key r} {q : σ → Bool}
  {f' : σ → σ} {hf' : ∀ r, key' (f' r) = key' r}

theorem map_updateWhere (hp : ∀ r ∈ t.rows, q (g r) = p r) (hstep : ∀ r, g (f r) = f' (g r)) :
    (t.updateWhere p f hf).map g hg = (t.map g hg).updateWhere q f' hf' := by
  refine ext_rows ?_ rfl
  show (t.rows.map _).map g = (t.rows.map g).map _
  rw [List.map_map, List.map_map]
  refine List.map_congr_left fun r hr => ?_
  rw [Function.comp_apply, Function.comp_apply, hp r hr]
  split
  · exact hstep r
  · rfl

theorem map_insert {mk' : Nat → σ} {hmk' : ∀ n, key' (mk' n) = n} (h : ∀ n, g (mk n) = mk' n) :
    (t.insert mk hmk).map g hg = (t.map g hg).insert mk' hmk' := by
  refine ext_rows ?_ rfl
  show (t.rows ++ [mk (t.seq + 1)]).map g = t.rows.map g ++ [mk' (t.seq + 1)]
  rw [List.map_append, List.map_singleton, h]

end Map

theorem eq_of_key (hr : r ∈ t.rows) (hr' : r' ∈ t.rows) (hk : key r = key r') : r = r' :=
  List.inj_on_of_nodup_map t.nodup hr hr' hk

theorem find?_eq_some : t.find? k = some r ↔ r ∈ t.rows ∧ key r = k := by
  constructor
  · intro h
    exact ⟨List.mem_of_find?_eq_some h,
      beq_iff_eq.mp (List.find?_some (p := fun r => key r == k) h)⟩
  · rintro ⟨hr, rfl⟩
    cases hfind : t.find? (key r) with
    | none =>
        have hno := List.find?_eq_none.mp hfind r hr
        exact absurd (beq_self_eq_true (key r)) hno
    | some r' =>
        have hk : key r' = key r :=
          beq_iff_eq.mp (List.find?_some (p := fun x => key x == key r) hfind)
        rw [eq_of_key (List.mem_of_find?_eq_some hfind) hr hk]

theorem find?_insert :
    (t.insert mk hmk).find? k = if k = t.seq + 1 then some (mk (t.seq + 1)) else t.find? k := by
  split
  · rename_i hk
    subst hk
    exact find?_eq_some.mpr ⟨mem_insert.mpr (.inr rfl), hmk _⟩
  · rename_i hk
    rw [Option.ext_iff]
    intro r
    rw [find?_eq_some, find?_eq_some, mem_insert]
    constructor
    · rintro ⟨hr | rfl, hkey⟩
      · exact ⟨hr, hkey⟩
      · exact absurd (hkey.symm.trans (hmk _)) hk
    · exact fun ⟨hr, hkey⟩ => ⟨.inl hr, hkey⟩

theorem find?_updateWhere :
    (t.updateWhere p f hf).find? k = (t.find? k).map fun r => if p r then f r else r := by
  have hkey : ∀ r, key (if p r then f r else r) = key r := by
    intro r
    split
    · exact hf r
    · rfl
  rw [Option.ext_iff]
  intro r
  rw [find?_eq_some, mem_updateWhere, Option.map_eq_some_iff]
  constructor
  · rintro ⟨⟨r₀, hr₀, rfl⟩, hk⟩
    exact ⟨r₀, find?_eq_some.mpr ⟨hr₀, (hkey r₀).symm.trans hk⟩, rfl⟩
  · rintro ⟨r₀, hfind, rfl⟩
    obtain ⟨hr₀, hk⟩ := find?_eq_some.mp hfind
    exact ⟨⟨r₀, hr₀, rfl⟩, (hkey r₀).trans hk⟩

end Table
