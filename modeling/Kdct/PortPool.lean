/-
The pool of server ports (`crates/tunnel/src/port_pool.rs`).

Bridges reserve their ports here one at a time.  `FreshPool` is a port range whose
ports could all be bound.  A port that is listed twice could not, but for port 0, which gets
another port of the host each time; the free ports hold it once even so.
-/
import Kdct.Lib.Codec
import Kdct.Lib.HashMap
import Mathlib.Data.List.Dedup

namespace Kdct

abbrev Port := UInt16

-- What is asked of some ports is decided on those, not on every port there is.
instance (priority := high) {P : Port → Prop} [DecidablePred P] (ports : List Port) :
    Decidable (∀ port ∈ ports, P port) :=
  List.decidableBAll P ports

instance (priority := high) {P : Port → Prop} [DecidablePred P] (port? : Option Port) :
    Decidable (∀ port ∈ port?, P port) :=
  Option.decidableForallMem port?

structure PortPool where
  /-- Bound and not assigned. -/
  free : List Port
  /-- The digest of the client and its local port; a bridge has neither. -/
  assignments : HashMap Port (Bytes × Port)
  listeners : List Port
  total : UInt16

/-- The ports of a range that `PortPool::new` could bind, each once. -/
structure FreshPool where
  ports : List Port
  nodup : ports.Nodup
  nonempty : ports ≠ []

/-- `PortPool::new`. -/
def FreshPool.new (ports : FreshPool) : PortPool where
  free := ports.ports
  assignments := ∅
  listeners := ports.ports
  total := UInt16.ofNat ports.ports.length

namespace PortPool

def popFirst (free : List Port) : Option (Port × List Port) :=
  free.min?.map fun p => (p, free.erase p)

def reserveOne (pool : PortPool) : Option (Port × PortPool) :=
  (popFirst pool.free).map fun q =>
    (q.1, { pool with free := q.2, assignments := pool.assignments.insert q.1 ([], 0) })

def releaseByPort (pool : PortPool) (port : Port) : PortPool :=
  match pool.assignments.lookup port with
  | some _ =>
      { pool with free := pool.free.insert port, assignments := pool.assignments.erase port }
  | none => pool

def Assigned (pool : PortPool) (port : Port) : Prop := (pool.assignments.lookup port).isSome

instance (pool : PortPool) (port : Port) : Decidable (pool.Assigned port) :=
  inferInstanceAs (Decidable ((pool.assignments.lookup port).isSome = true))

variable {pool pool' : PortPool} {p q : Port}

theorem releaseByPort_assigned :
    (pool.releaseByPort p).Assigned q ↔ pool.Assigned q ∧ q ≠ p := by
  unfold releaseByPort Assigned
  split
  · rw [HashMap.lookup_erase_eq]
    split
    · rename_i h
      simp [h]
    · rename_i h
      simp [h]
  · rename_i h
    refine ⟨fun hq => ⟨hq, ?_⟩, And.left⟩
    rintro rfl
    rw [h] at hq
    cases hq

theorem releaseByPort_free :
    q ∈ (pool.releaseByPort p).free ↔ q ∈ pool.free ∨ (q = p ∧ pool.Assigned p) := by
  unfold releaseByPort Assigned
  split
  · rename_i h
    simp only [List.mem_insert_iff, h, Option.isSome_some, and_true]
    exact or_comm
  · rename_i h
    simp [h]

theorem reserveOne_spec (h : pool.reserveOne = some (p, pool')) :
    p ∈ pool.free ∧ (∀ q, pool'.Assigned q ↔ q = p ∨ pool.Assigned q) ∧
      (∀ q, q ∈ pool'.free → q ∈ pool.free) ∧
      (pool.free.Nodup → pool'.free.Nodup ∧ p ∉ pool'.free) := by
  obtain ⟨⟨q, rest⟩, hpop, heq⟩ := Option.map_eq_some_iff.mp h
  obtain ⟨m, hmin, hm⟩ := Option.map_eq_some_iff.mp hpop
  simp only [Prod.mk.injEq] at hm heq
  obtain ⟨rfl, rfl⟩ := hm
  obtain ⟨rfl, rfl⟩ := heq
  refine ⟨List.min?_mem hmin, fun q => ?_, fun q hq => List.mem_of_mem_erase hq, fun hnd => ?_⟩
  · unfold Assigned
    rw [HashMap.lookup_insert_eq]
    split
    · rename_i hq
      simp [hq]
    · rename_i hq
      simp [hq]
  · exact ⟨hnd.erase m, fun hmem => (hnd.mem_erase_iff.mp hmem).1 rfl⟩

theorem releaseByPort_nodup (h : pool.free.Nodup) : (pool.releaseByPort p).free.Nodup := by
  unfold releaseByPort
  split
  · exact h.insert
  · exact h

end PortPool

end Kdct
