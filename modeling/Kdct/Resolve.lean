/-
Which route a request takes.

`resolve` folds over the entries of a hash map and keeps the longest match.  The
fold is Mathlib's `argmax` over the entries that match; two prefixes of one path
of the same length are equal, so the entry it picks does not depend on the order.

`tables` is the route table under the two operations that change it.
-/
import Kdct.Lib.Machine
import Kdct.RouteTable
import Mathlib.Data.List.MinMax

namespace Kdct

namespace RouteTable

/-- The route whose path is the longest among those the request path starts with. -/
structure Longest (t : RouteTable) (path route : String) (port : Port) : Prop where
  registered : t.routes.lookup route = some port
  matching : startsWith path route = true
  longest : ∀ other, (t.routes.lookup other).isSome → startsWith path other = true →
    byteLen other ≤ byteLen route

/-! ## The fold -/

def entryOf (e : Σ _ : String, Port) : String × Port := (e.1, e.2)

/-- The entries the request path starts with. -/
def candidates (t : RouteTable) (path : String) : List (String × Port) :=
  (t.routes.entries.map entryOf).filter fun e => startsWith path e.1

theorem mem_candidates {t : RouteTable} {path route : String} {port : Port} :
    (route, port) ∈ t.candidates path ↔
      t.routes.lookup route = some port ∧ startsWith path route = true := by
  rw [candidates, List.mem_filter, ← Option.mem_def, AList.mem_lookup_iff, List.mem_map]
  constructor
  · rintro ⟨⟨e, he, heq⟩, hpath⟩
    cases heq
    exact ⟨he, hpath⟩
  · rintro ⟨he, hpath⟩
    exact ⟨⟨⟨route, port⟩, he, rfl⟩, hpath⟩

theorem better_eq (path : String) (best : Option (String × Port)) (e : String × Port) :
    better path best e.1 e.2 =
      if startsWith path e.1 then
        List.argAux (fun b c => byteLen (Prod.fst c) < byteLen (Prod.fst b)) best e
      else best := by
  cases best with
  | none => rfl
  | some b =>
      unfold better
      split <;> rfl

theorem foldl_better (t : RouteTable) (path : String) :
    t.routes.foldl (fun best route port => better path best route port) none =
      (t.candidates path).argmax fun e => byteLen e.1 := by
  rw [List.argmax, candidates, List.foldl_filter, List.foldl_map, AList.foldl]
  refine congrArg (fun f => t.routes.entries.foldl f none) (funext fun best => funext fun e => ?_)
  exact better_eq path best (entryOf e)

/-! ## What `resolve` returns -/

theorem Longest.unique {t : RouteTable} {path r r' : String} {p p' : Port}
    (h : t.Longest path r p) (h' : t.Longest path r' p') : p = p' := by
  have hle : byteLen r ≤ byteLen r' := h'.longest r (by rw [h.registered]; rfl) h.matching
  have hge : byteLen r' ≤ byteLen r := h.longest r' (by rw [h'.registered]; rfl) h'.matching
  have hrr' : startsWith r' r = true := startsWith_of_byteLen_le h.matching h'.matching hle
  obtain rfl := eq_of_startsWith hrr' hge
  exact Option.some.inj (h.registered.symm.trans h'.registered)

theorem longest_of_argmax {t : RouteTable} {path : String} {e : String × Port}
    (h : (t.candidates path).argmax (fun e => byteLen e.1) = some e) :
    t.Longest path e.1 e.2 := by
  obtain ⟨hreg, hmatch⟩ := mem_candidates.mp (List.argmax_mem h)
  refine ⟨hreg, hmatch, fun other hother hpath => ?_⟩
  obtain ⟨port, hport⟩ := Option.isSome_iff_exists.mp hother
  have hmem : (other, port) ∈ t.candidates path := mem_candidates.mpr ⟨hport, hpath⟩
  exact @List.le_of_mem_argmax _ _ _ (fun e => byteLen e.1) _ _ _ hmem h

theorem longest_of_lookup {t : RouteTable} {path : String} {port : Port}
    (h : t.routes.lookup path = some port) : t.Longest path path port :=
  ⟨h, startsWith_self path, fun _ _ hother => byteLen_le_of_startsWith hother⟩

theorem longest_of_resolve {t : RouteTable} {path : String} {port : Port}
    (h : t.resolve path = some port) : ∃ route, t.Longest path route port := by
  unfold resolve at h
  split at h
  case h_1 hlookup =>
    obtain rfl := Option.some.inj h
    exact ⟨path, longest_of_lookup hlookup⟩
  case h_2 =>
    rw [foldl_better, Option.map_eq_some_iff] at h
    obtain ⟨e, he, rfl⟩ := h
    exact ⟨e.1, longest_of_argmax he⟩

theorem resolve_eq_none_iff {t : RouteTable} {path : String} :
    t.resolve path = none ↔
      ∀ route, (t.routes.lookup route).isSome → startsWith path route = false := by
  constructor
  · intro h route hroute
    unfold resolve at h
    split at h
    case h_1 => cases h
    case h_2 =>
      rw [foldl_better, Option.map_eq_none_iff, List.argmax_eq_none] at h
      obtain ⟨port, hport⟩ := Option.isSome_iff_exists.mp hroute
      by_contra hpath
      have hmem : (route, port) ∈ t.candidates path :=
        mem_candidates.mpr ⟨hport, by simpa using hpath⟩
      rw [h] at hmem
      exact List.not_mem_nil hmem
  · intro h
    by_contra hsome
    obtain ⟨port, hport⟩ := Option.ne_none_iff_exists'.mp hsome
    obtain ⟨route, hroute⟩ := longest_of_resolve hport
    have hfalse := h route (by rw [hroute.registered]; rfl)
    rw [hroute.matching] at hfalse
    exact Bool.noConfusion hfalse

theorem resolve_eq_some_iff {t : RouteTable} {path : String} {port : Port} :
    t.resolve path = some port ↔ ∃ route, t.Longest path route port := by
  refine ⟨longest_of_resolve, fun ⟨route, hroute⟩ => ?_⟩
  cases hres : t.resolve path with
  | none =>
      have hfalse := resolve_eq_none_iff.mp hres route (by rw [hroute.registered]; rfl)
      rw [hroute.matching] at hfalse
      exact Bool.noConfusion hfalse
  | some port' =>
      obtain ⟨route', hroute'⟩ := longest_of_resolve hres
      exact congrArg some (hroute'.unique hroute)

theorem Longest.of_lookup_eq {t t' : RouteTable}
    (h : ∀ route, t'.routes.lookup route = t.routes.lookup route) {path route : String}
    {port : Port} (hl : t.Longest path route port) : t'.Longest path route port :=
  ⟨(h route).trans hl.registered, hl.matching,
    fun other hother => hl.longest other (by rw [← h other]; exact hother)⟩

/-- Tables with the same routes resolve every path alike, however their hash maps
order the entries. -/
theorem resolve_congr {t t' : RouteTable}
    (h : ∀ route, t'.routes.lookup route = t.routes.lookup route) (path : String) :
    t'.resolve path = t.resolve path := by
  apply Option.ext
  intro port
  rw [resolve_eq_some_iff, resolve_eq_some_iff]
  constructor
  · rintro ⟨route, hroute⟩
    exact ⟨route, hroute.of_lookup_eq fun r => (h r).symm⟩
  · rintro ⟨route, hroute⟩
    exact ⟨route, hroute.of_lookup_eq h⟩

end RouteTable

/-! ## Tables the program can make -/

inductive TableLabel
  | set (path : String) (port : Port)
  | removeByPort (port : Port)

/-- A rejected `set` leaves the table as it is. -/
def tables : Machine RouteTable TableLabel where
  init := .new
  step t
    | .set path port =>
        match t.set path port with
        | .ok t' => some t'
        | .error _ => some t
    | .removeByPort port => some (t.removeByPort port)

namespace RouteTable

/-- No route is under the reserved prefix. -/
def Unreserved (t : RouteTable) : Prop :=
  ∀ route, isAdminPath route = true → t.routes.lookup route = none

theorem set_unreserved {t t' : RouteTable} {path : String} {port : Port} (ht : t.Unreserved)
    (h : t.set path port = .ok t') : t'.Unreserved := by
  intro route hroute
  rw [(set_ok h).2 route]
  split
  · rename_i heq
    rw [set, ← heq, if_pos hroute] at h
    cases h
  · exact ht route hroute

theorem removeByPort_unreserved {t : RouteTable} {port : Port} (ht : t.Unreserved) :
    (t.removeByPort port).Unreserved := by
  intro route hroute
  by_contra hsome
  obtain ⟨p, hp⟩ := Option.ne_none_iff_exists'.mp hsome
  have hold := (removeByPort_lookup.mp hp).1
  rw [ht route hroute] at hold
  cases hold

theorem unreserved_of_reachable {t : RouteTable} (ht : tables.Reachable t) : t.Unreserved := by
  refine Machine.invariant (fun _ _ => rfl) (fun t label t' ht hstep => ?_) ht
  cases label with
  | set path port =>
      simp only [tables] at hstep
      split at hstep
      case h_1 u hset =>
        obtain rfl := Option.some.inj hstep
        exact set_unreserved ht hset
      case h_2 =>
        obtain rfl := Option.some.inj hstep
        exact ht
  | removeByPort port =>
      obtain rfl := Option.some.inj hstep
      exact removeByPort_unreserved ht

/-- A request takes the longest registered route its path starts with, whatever
the order of the hash map, and no route shadows the admin panel. -/
theorem resolve_longest {t : RouteTable} (ht : tables.Reachable t) :
    (∀ path port, t.resolve path = some port ↔ ∃ route, t.Longest path route port) ∧
      (∀ path, t.resolve path = none ↔
        ∀ route, (t.routes.lookup route).isSome → startsWith path route = false) ∧
      (∀ t' : RouteTable, (∀ route, t'.routes.lookup route = t.routes.lookup route) →
        ∀ path, t'.resolve path = t.resolve path) ∧
      ∀ route, isAdminPath route = true → t.routes.lookup route = none :=
  ⟨fun _ _ => resolve_eq_some_iff, fun _ => resolve_eq_none_iff,
    fun _ h path => resolve_congr h path, unreserved_of_reachable ht⟩

/-- Nested routes, one of them removed again. -/
def nestedRoutes : List TableLabel :=
  [.set "/" 9000, .set "/api/v1" 9002, .set "/api" 9001, .set "/admin/api" 9003,
    .removeByPort 9002]

theorem resolve_longest_nested : ∃ t, tables.run .new nestedRoutes = some t ∧
    t.resolve "/api/v1" = some 9001 ∧ ∃ route, t.Longest "/api/v1" route 9001 := by
  have hresolve : ∃ t, tables.run .new nestedRoutes = some t ∧ t.resolve "/api/v1" = some 9001 :=
    ⟨_, rfl, by decide⟩
  obtain ⟨t, ht, hport⟩ := hresolve
  exact ⟨t, ht, hport, ((resolve_longest ⟨nestedRoutes, ht⟩).1 _ _).mp hport⟩

end RouteTable

end Kdct
