/-
Binding the ports of a pool (`PortPool::new` in `crates/tunnel/src/port_pool.rs`).

The ports of the range are bound one after the other, a port that the range lists twice
as well, and a listener for port 0 gets a port that the host picks.  The listeners that
are bound so far are dropped with the map that holds them when one cannot be.
-/
import Kdct.PortRange.Grammar
import Mathlib.Data.List.Perm.Subperm

namespace Kdct

/-- The host without the listeners of the pool. -/
structure Host where
  /-- The ports that other listeners hold. -/
  held : List Port
  /-- The port for a listener that asks for none, given those that are bound. -/
  ephemeral : List Port → Option Port

/-- `TcpListener::bind`, while the listeners of the process have the ports `bound`. -/
def Host.bind (host : Host) (bound : List Port) (port : Port) : Option Port :=
  if port = 0 then host.ephemeral (bound ++ host.held)
  else if port ∈ bound ++ host.held then none
  else some port

/-- The locals of `PortPool::new`, and the ports that the process has bound. -/
structure Binding where
  free : List Port
  /-- The port that each listener has. -/
  listeners : HashMap Port Port
  bound : List Port

namespace Binding

def empty : Binding := ⟨[], ∅, []⟩

/-- A listener that was bound goes into the map, and the one it replaces is dropped. -/
def insert (s : Binding) (port actual : Port) : Binding where
  free := s.free.insert port
  listeners := s.listeners.insert port actual
  bound :=
    match s.listeners.lookup port with
    | none => actual :: s.bound
    | some old => (actual :: s.bound).erase old

/-- The map goes out of scope. -/
def dropListeners (s : Binding) : List Port :=
  s.listeners.entries.foldl (fun bound e => bound.erase e.2) s.bound

/-- The loop over the ports. -/
def bindLoop (host : Host) : List Port → Binding → Option PoolError × Binding
  | [], s => (none, s)
  | port :: ports, s =>
      match host.bind s.bound port with
      | none => (some (.inUse port), s)
      | some actual => bindLoop host ports (s.insert port actual)

end Binding

/-- `PortPool::new`, and the ports that are bound when it returns. -/
def PortPool.new (host : Host) (range : String) : Except PoolError PortPool × List Port :=
  match parsePortRange range with
  | .error e => (.error e, [])
  | .ok ports =>
      if ports.isEmpty then (.error .empty, [])
      else
        match Binding.bindLoop host ports .empty with
        | (some e, s) => (.error e, s.dropListeners)
        | (none, s) =>
            (.ok ⟨s.free, ∅, s.listeners.keys, UInt16.ofNat ports.length⟩, s.bound)

namespace PortPool

/-- The pool is made of exactly the ports of the range, or there is no pool and nothing
is bound. -/
structure NewExactly (host : Host) (range : String) : Prop where
  isOk_iff : (∃ pool, (new host range).1 = .ok pool) ↔
    WellFormed range ∧ ∀ port, port ≠ 0 → Denotes range port → port ∉ host.held
  exactly : ∀ pool, (new host range).1 = .ok pool → pool.free.Nodup ∧
    (∀ port, port ∈ pool.free ↔ port ≠ 0 ∧ Denotes range port) ∧
    pool.total.toNat = pool.free.length
  released : ∀ e, (new host range).1 = .error e → (new host range).2 = []

end PortPool

namespace Binding

variable {host : Host} {ports : List Port} {s t : Binding} {port : Port}

/-! ## The listeners -/

/-- The process has bound what its listeners have. -/
def Inv (s : Binding) : Prop := s.bound.Perm (s.listeners.entries.map Sigma.snd)

/-- The entries without the one that is found. -/
theorem values_perm {entries : List (Sigma fun _ : Port => Port)} {old : Port}
    (h : entries.dlookup port = some old) :
    (entries.map Sigma.snd).Perm (old :: (entries.kerase port).map Sigma.snd) := by
  induction entries with
  | nil => cases h
  | cons e entries ih =>
      by_cases hport : port = e.1
      · subst hport
        rw [List.dlookup_cons_eq] at h
        obtain rfl := Option.some.inj h
        rw [List.kerase_cons_eq rfl, List.map_cons]
      · rw [List.dlookup_cons_ne _ _ hport] at h
        rw [List.kerase_cons_ne hport, List.map_cons, List.map_cons]
        exact ((ih h).cons e.2).trans (List.Perm.swap old e.2 _)

theorem Inv.insert (h : Inv s) (port actual : Port) : Inv (s.insert port actual) := by
  have hentries : (s.insert port actual).listeners.entries =
      ⟨port, actual⟩ :: s.listeners.entries.kerase port := rfl
  unfold Inv
  rw [hentries, List.map_cons, Binding.insert]
  cases hlookup : s.listeners.lookup port with
  | none =>
      have hnew : port ∉ s.listeners.entries.keys := AList.lookup_eq_none.mp hlookup
      rw [List.kerase_of_notMem_keys hnew]
      exact h.cons actual
  | some old =>
      have hbound : s.bound.Perm (old :: (s.listeners.entries.kerase port).map Sigma.snd) :=
        h.trans (values_perm hlookup)
      have hswap := (hbound.cons actual).trans (List.Perm.swap old actual _)
      have herase := hswap.erase old
      rwa [List.erase_cons_head] at herase

theorem dropListeners_eq_nil (h : Inv s) : s.dropListeners = [] := by
  unfold Inv at h
  unfold dropListeners
  generalize s.listeners.entries = entries at h ⊢
  generalize s.bound = bound at h ⊢
  induction entries generalizing bound with
  | nil => exact List.perm_nil.mp h
  | cons e entries ih =>
      have herase := h.erase e.2
      rw [List.map_cons, List.erase_cons_head] at herase
      exact ih _ herase

theorem bindLoop_inv (h : Inv s) : Inv (bindLoop host ports s).2 := by
  induction ports generalizing s with
  | nil => exact h
  | cons port ports ih =>
      rw [bindLoop]
      split
      · exact h
      · exact ih (h.insert _ _)

/-! ## The free ports -/

theorem bindLoop_cons_eq_none {port : Port} (h : (bindLoop host (port :: ports) s).1 = none) :
    ∃ actual, host.bind s.bound port = some actual ∧
      bindLoop host (port :: ports) s = bindLoop host ports (s.insert port actual) := by
  rw [bindLoop] at h
  cases hbind : host.bind s.bound port with
  | none =>
      rw [hbind] at h
      cases h
  | some actual => exact ⟨actual, rfl, by rw [bindLoop, hbind]⟩

theorem mem_free_bindLoop (h : (bindLoop host ports s).1 = none) {q : Port} :
    q ∈ (bindLoop host ports s).2.free ↔ q ∈ s.free ∨ q ∈ ports := by
  induction ports generalizing s with
  | nil => simp [bindLoop]
  | cons port ports ih =>
      obtain ⟨actual, -, hloop⟩ := bindLoop_cons_eq_none h
      rw [hloop] at h ⊢
      rw [ih h, insert, List.mem_insert_iff, List.mem_cons, or_assoc, or_left_comm]

theorem mem_listeners_bindLoop (h : (bindLoop host ports s).1 = none) {q : Port} :
    q ∈ (bindLoop host ports s).2.listeners.keys ↔ q ∈ s.listeners.keys ∨ q ∈ ports := by
  induction ports generalizing s with
  | nil => simp [bindLoop]
  | cons port ports ih =>
      obtain ⟨actual, -, hloop⟩ := bindLoop_cons_eq_none h
      rw [hloop] at h ⊢
      have hkeys : q ∈ (s.insert port actual).listeners.keys ↔ q = port ∨ q ∈ s.listeners.keys := by
        rw [← AList.mem_keys, ← AList.mem_keys]
        exact AList.mem_insert s.listeners
      rw [ih h, hkeys, List.mem_cons, or_assoc, or_left_comm]

theorem nodup_free_bindLoop (h : s.free.Nodup) : (bindLoop host ports s).2.free.Nodup := by
  induction ports generalizing s with
  | nil => exact h
  | cons port ports ih =>
      rw [bindLoop]
      split
      · exact h
      · exact ih h.insert

/-- A port that was bound was not held. -/
theorem not_held_of_bindLoop (h : (bindLoop host ports s).1 = none) :
    ∀ port ∈ ports, port ≠ 0 → port ∉ host.held := by
  induction ports generalizing s with
  | nil => simp
  | cons port ports ih =>
      obtain ⟨actual, hbind, hloop⟩ := bindLoop_cons_eq_none h
      rw [hloop] at h
      intro q hq hzero
      rcases List.mem_cons.mp hq with rfl | hq
      · intro hheld
        rw [Host.bind, if_neg hzero, if_pos (List.mem_append_right _ hheld)] at hbind
        cases hbind
      · exact ih h q hq hzero

/-- Without port 0 the loop does what the loop of a fresh pool does. -/
theorem bindLoop_eq_bindAll (hzero : (0 : Port) ∉ ports)
    (hkeys : ∀ q, (s.listeners.lookup q).isSome → q ∈ s.bound) :
    (bindLoop host ports s).1 =
      match bindAll (s.bound ++ host.held) ports with
      | .error e => some e
      | .ok () => none := by
  induction ports generalizing s with
  | nil => rfl
  | cons port ports ih =>
      obtain ⟨hport, hports⟩ := List.ne_and_not_mem_of_not_mem_cons hzero
      rw [bindLoop, bindAll, Host.bind, if_neg (Ne.symm hport)]
      by_cases hmem : port ∈ s.bound ++ host.held
      · rw [if_pos hmem, if_pos hmem]
      · rw [if_neg hmem, if_neg hmem]
        have hnew : s.listeners.lookup port = none := by
          rw [← Option.not_isSome_iff_eq_none]
          exact fun h => hmem (List.mem_append_left _ (hkeys port h))
        have hbound : (s.insert port port).bound = port :: s.bound := by
          rw [insert, hnew]
        have hrest := ih (s := s.insert port port) hports ?_
        · rw [hbound, List.cons_append] at hrest
          exact hrest
        · intro q hq
          rw [hbound, List.mem_cons]
          rw [insert, HashMap.lookup_insert_eq] at hq
          split at hq
          · exact .inl ‹q = port›
          · exact .inr (hkeys q hq)

end Binding

namespace PortPool

open Binding

variable {host : Host} {range : String}

theorem new_of_parse {ports : List Port} (h : parsePortRange range = .ok ports)
    (hne : ports ≠ []) :
    new host range =
      match bindLoop host ports .empty with
      | (some e, s) => (.error e, s.dropListeners)
      | (none, s) => (.ok ⟨s.free, ∅, s.listeners.keys, UInt16.ofNat ports.length⟩, s.bound) := by
  rw [new, h]
  dsimp only
  rw [if_neg (by simpa using hne)]

/-- What a pool that could be made was made of. -/
theorem new_eq_ok {pool : PortPool} (h : (new host range).1 = .ok pool) :
    ∃ ports, parsePortRange range = .ok ports ∧ (bindLoop host ports .empty).1 = none ∧
      pool.free = (bindLoop host ports .empty).2.free ∧
      pool.listeners = (bindLoop host ports .empty).2.listeners.keys ∧
      pool.total = UInt16.ofNat ports.length := by
  unfold new at h
  cases hparse : parsePortRange range with
  | error e =>
      rw [hparse] at h
      cases h
  | ok ports =>
      rw [hparse] at h
      dsimp only at h
      split at h
      · cases h
      · cases hloop : bindLoop host ports .empty with
        | mk e s =>
            rw [hloop] at h
            cases e with
            | some e => cases h
            | none =>
                obtain rfl := Except.ok.inj h
                exact ⟨ports, rfl, by rw [hloop], by rw [hloop], by rw [hloop], rfl⟩

theorem new_released {e : PoolError} (h : (new host range).1 = .error e) :
    (new host range).2 = [] := by
  unfold new at h ⊢
  cases hparse : parsePortRange range with
  | error e => rfl
  | ok ports =>
      rw [hparse] at h
      dsimp only at h ⊢
      split
      · rfl
      · rename_i hne
        rw [if_neg hne] at h
        have hinv : Inv (bindLoop host ports .empty).2 :=
          bindLoop_inv (List.Perm.refl [])
        cases hloop : bindLoop host ports .empty with
        | mk e s =>
            rw [hloop] at h hinv
            cases e with
            | some e => exact dropListeners_eq_nil hinv
            | none => cases h

theorem ports_ne_nil {ports : List Port} (h : parsePortRange range = .ok ports) : ports ≠ [] := by
  have hwell : WellFormed range := parsePortRange_isOk_iff.mp ⟨ports, h⟩
  obtain ⟨part, hpart⟩ := List.exists_mem_of_ne_nil _ (splitCommas_ne_nil range)
  obtain ⟨first, last, hitem⟩ := hwell part hpart
  have hfirst : first ∈ ports := (mem_ports_iff_denotes h).mpr
    ⟨part, hpart, first, last, hitem, UInt16.le_refl first, hitem.le⟩
  exact List.ne_nil_of_mem hfirst

theorem isOk_of_new (h : ∃ pool, (new host range).1 = .ok pool) :
    WellFormed range ∧ ∀ port, port ≠ 0 → Denotes range port → port ∉ host.held := by
  obtain ⟨pool, hpool⟩ := h
  obtain ⟨ports, hparse, hloop, -⟩ := new_eq_ok hpool
  refine ⟨parsePortRange_isOk_iff.mp ⟨ports, hparse⟩, fun port hzero hdenotes => ?_⟩
  exact not_held_of_bindLoop hloop port ((mem_ports_iff_denotes hparse).mpr hdenotes) hzero

/-- Without port 0 the loop binds what is listed once and not held. -/
theorem bindLoop_eq_none_iff {ports : List Port} (hzero : (0 : Port) ∉ ports) :
    (bindLoop host ports .empty).1 = none ↔ ports.Nodup ∧ ∀ port ∈ ports, port ∉ host.held := by
  have hloop := @bindLoop_eq_bindAll host ports .empty hzero fun q hq => (by cases hq)
  rw [hloop, ← bindAll_ok_iff]
  show (match bindAll host.held ports with
    | .error e => some e
    | .ok () => none) = none ↔ _
  cases bindAll host.held ports <;> simp

theorem length_lt_of_nodup {ports : List Port} (hnodup : ports.Nodup) (hzero : (0 : Port) ∉ ports) :
    ports.length < 65536 := by
  have hnats : (ports.map UInt16.toNat).Nodup :=
    hnodup.map fun _ _ h => UInt16.toNat_inj.mp h
  have hsub : ports.map UInt16.toNat ⊆ List.range' 1 65535 := by
    intro n hn
    obtain ⟨port, hport, rfl⟩ := List.mem_map.mp hn
    have hlt := port.toNat_lt
    have hpos : port.toNat ≠ 0 := fun h =>
      hzero (UInt16.toNat_inj.mp (show port.toNat = (0 : Port).toNat from h) ▸ hport)
    rw [List.mem_range'_1]
    omega
  have hle := (List.Nodup.subperm hnats hsub).length_le
  rw [List.length_map, List.length_range'] at hle
  omega

/-- A range that names every port once, and not port 0, gives its ports. -/
theorem newExactly_of_noOverlap (hdisjoint : NoOverlap range) (hzero : ¬Denotes range 0) :
    NewExactly host range := by
  refine ⟨⟨isOk_of_new, fun ⟨hwell, hfree⟩ => ?_⟩, fun pool hpool => ?_, fun e => new_released⟩
  · obtain ⟨ports, hparse⟩ := parsePortRange_isOk_iff.mpr hwell
    have hmem : ∀ port, port ∈ ports ↔ Denotes range port :=
      fun port => mem_ports_iff_denotes hparse
    have hzero' : (0 : Port) ∉ ports := mt (hmem 0).mp hzero
    have hloop : (bindLoop host ports .empty).1 = none := by
      refine (bindLoop_eq_none_iff hzero').mpr
        ⟨(ports_nodup_iff hparse).mpr hdisjoint, fun port hport => ?_⟩
      exact hfree port (fun h => hzero' (h ▸ hport)) ((hmem port).mp hport)
    rw [new_of_parse hparse (ports_ne_nil hparse)]
    cases hrun : bindLoop host ports .empty with
    | mk e s =>
        rw [hrun] at hloop
        subst hloop
        exact ⟨_, rfl⟩
  · obtain ⟨ports, hparse, hloop, hfree, -, htotal⟩ := new_eq_ok hpool
    have hmem : ∀ port, port ∈ pool.free ↔ port ∈ ports := by
      intro port
      rw [hfree, mem_free_bindLoop hloop]
      exact ⟨fun h => h.resolve_left (List.not_mem_nil), .inr⟩
    have hnodup : pool.free.Nodup := by
      rw [hfree]
      exact nodup_free_bindLoop List.nodup_nil
    have hports : ports.Nodup := (ports_nodup_iff hparse).mpr hdisjoint
    have hzero' : (0 : Port) ∉ ports := mt (mem_ports_iff_denotes hparse).mp hzero
    refine ⟨hnodup, fun port => ?_, ?_⟩
    · rw [hmem, mem_ports_iff_denotes hparse]
      refine ⟨fun h => ⟨fun heq => hzero (heq ▸ h), h⟩, And.right⟩
    · have hlen : pool.free.length = ports.length :=
        ((List.perm_ext_iff_of_nodup hnodup hports).mpr hmem).length_eq
      have hlt := length_lt_of_nodup hports hzero'
      rw [htotal, hlen, UInt16.toNat_ofNat_of_lt' hlt]

/-- The pool is the range exactly when the range is not well formed, when one of its
ports is held, or when it names every port once and not port 0. -/
theorem newExactly_iff (host : Host) (range : String) :
    NewExactly host range ↔
      ¬WellFormed range ∨ (∃ port, port ≠ 0 ∧ Denotes range port ∧ port ∈ host.held) ∨
        (NoOverlap range ∧ ¬Denotes range 0) := by
  constructor
  · intro h
    by_cases hwell : WellFormed range
    · by_cases hheld : ∃ port, port ≠ 0 ∧ Denotes range port ∧ port ∈ host.held
      · exact .inr (.inl hheld)
      · obtain ⟨pool, hpool⟩ := h.isOk_iff.mpr ⟨hwell, fun port hne hdenotes hin =>
          hheld ⟨port, hne, hdenotes, hin⟩⟩
        obtain ⟨ports, hparse, hloop, hfree, -⟩ := new_eq_ok hpool
        have hzero : ¬Denotes range 0 := by
          intro hdenotes
          have hmem : (0 : Port) ∈ pool.free := by
            rw [hfree, mem_free_bindLoop hloop]
            exact .inr ((mem_ports_iff_denotes hparse).mpr hdenotes)
          exact (((h.exactly pool hpool).2.1 0).mp hmem).1 rfl
        have hzero' : (0 : Port) ∉ ports := mt (mem_ports_iff_denotes hparse).mp hzero
        have hnodup := ((bindLoop_eq_none_iff hzero').mp hloop).1
        exact .inr (.inr ⟨(ports_nodup_iff hparse).mp hnodup, hzero⟩)
    · exact .inl hwell
  · have hnone : (¬∃ pool, (new host range).1 = .ok pool) →
        ¬(WellFormed range ∧ ∀ port, port ≠ 0 → Denotes range port → port ∉ host.held) →
        NewExactly host range := fun hnew hspec =>
      ⟨iff_of_false hnew hspec, fun pool hpool => absurd ⟨pool, hpool⟩ hnew,
        fun e => new_released⟩
    rintro (hwell | ⟨port, hne, hdenotes, hheld⟩ | ⟨hdisjoint, hzero⟩)
    · exact hnone (fun h => hwell (isOk_of_new h).1) fun h => hwell h.1
    · exact hnone (fun h => (isOk_of_new h).2 port hne hdenotes hheld)
        fun h => h.2 port hne hdenotes hheld
    · exact newExactly_of_noOverlap hdisjoint hzero

/-- A pool that is bound is the fresh pool that the rest of the development starts from. -/
theorem new_of_fresh {fresh : FreshPool} (hparse : parsePortRange range = .ok fresh.ports)
    (hzero : (0 : Port) ∉ fresh.ports) (hheld : ∀ port ∈ fresh.ports, port ∉ host.held) :
    ∃ pool, (new host range).1 = .ok pool ∧ pool.free.Perm fresh.new.free ∧
      pool.listeners.Perm fresh.new.listeners ∧ pool.total = fresh.new.total := by
  have hdisjoint : NoOverlap range := (ports_nodup_iff hparse).mp fresh.nodup
  have hzero' : ¬Denotes range 0 := mt (mem_ports_iff_denotes hparse).mpr hzero
  have hwell : WellFormed range := parsePortRange_isOk_iff.mp ⟨_, hparse⟩
  have hexact : NewExactly host range := newExactly_of_noOverlap hdisjoint hzero'
  obtain ⟨pool, hpool⟩ := hexact.isOk_iff.mpr ⟨hwell, fun port _ hdenotes =>
    hheld port ((mem_ports_iff_denotes hparse).mpr hdenotes)⟩
  obtain ⟨ports, hparse', hloop, hfree, hlisteners, htotal⟩ := new_eq_ok hpool
  obtain rfl := Except.ok.inj (hparse.symm.trans hparse')
  refine ⟨pool, hpool, ?_, ?_, htotal⟩
  · rw [hfree]
    refine (List.perm_ext_iff_of_nodup (nodup_free_bindLoop List.nodup_nil) fresh.nodup).mpr ?_
    intro port
    rw [mem_free_bindLoop hloop]
    exact ⟨fun h => h.resolve_left List.not_mem_nil, .inr⟩
  · rw [hlisteners]
    refine (List.perm_ext_iff_of_nodup (AList.keys_nodup _) fresh.nodup).mpr fun port => ?_
    rw [mem_listeners_bindLoop hloop]
    exact ⟨fun h => h.resolve_left List.not_mem_nil, .inr⟩

/-- A host on which nothing is bound. -/
def freeHost : Host := ⟨[], fun bound => if 32768 ∈ bound then none else some 32768⟩

theorem overlapping_not_newExactly : ¬NewExactly freeHost "9000-9010,9005" := by
  intro h
  have hparse : parsePortRange "9000-9010,9005" = .ok
      [9000, 9001, 9002, 9003, 9004, 9005, 9006, 9007, 9008, 9009, 9010, 9005] := by
    decide +kernel
  have hwell : WellFormed "9000-9010,9005" := parsePortRange_isOk_iff.mp ⟨_, hparse⟩
  obtain ⟨pool, hpool⟩ := h.isOk_iff.mpr ⟨hwell, fun port _ _ hheld => (by cases hheld)⟩
  have hloop : (bindLoop freeHost
      [9000, 9001, 9002, 9003, 9004, 9005, 9006, 9007, 9008, 9009, 9010, 9005] .empty).1 =
        some (.inUse 9005) := by
    decide +kernel
  obtain ⟨ports, hports, hnone, -⟩ := new_eq_ok hpool
  obtain rfl := Except.ok.inj (hparse.symm.trans hports)
  rw [hloop] at hnone
  cases hnone

end PortPool

end Kdct
