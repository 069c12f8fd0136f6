/-
The port pool as a whole (`crates/tunnel/src/port_pool.rs`).

Four operations move ports between the free ports and the assignments, each under
both locks.  `Partitions` says that every bound port is in exactly one of the two;
it is kept by taking the first free port and by giving an assigned port back, and
the loops of the operations do nothing else.
-/
import Kdct.Lib.Machine
import Kdct.PortRange

namespace Kdct

structure NotEnoughPorts where
  need : Nat
  available : Nat
  deriving DecidableEq

def NotEnoughPorts.text (e : NotEnoughPorts) : String :=
  "Not enough free ports: need " ++ toString e.need ++ ", have " ++ toString e.available

namespace PortPool

/-- The loop of `assign`; `none` is the panic of its `unwrap`. -/
def assignLoop (serviceDigest : Bytes) :
    List Port → PortPool → HashMap Port Port → Option (HashMap Port Port × PortPool)
  | [], pool, mapping => some (mapping, pool)
  | localPort :: localPorts, pool, mapping =>
      (popFirst pool.free).bind fun (serverPort, free) =>
        assignLoop serviceDigest localPorts
          { pool with
            free := free
            assignments := pool.assignments.insert serverPort (serviceDigest, localPort) }
          (mapping.insert localPort serverPort)

def assign (pool : PortPool) (serviceDigest : Bytes) (localPorts : List Port) :
    Option (Except NotEnoughPorts (HashMap Port Port) × PortPool) :=
  if pool.free.length < localPorts.length then
    some (.error ⟨localPorts.length, pool.free.length⟩, pool)
  else (assignLoop serviceDigest localPorts pool ∅).map fun (mapping, pool) => (.ok mapping, pool)

/-- The ports that are assigned to a client. -/
def clientPorts (pool : PortPool) (serviceDigest : Bytes) : List Port :=
  (pool.assignments.entries.filter fun e => e.2.1 == serviceDigest).map Sigma.fst

def releaseClient (pool : PortPool) (serviceDigest : Bytes) : PortPool :=
  (pool.clientPorts serviceDigest).foldl
    (fun pool port =>
      { pool with free := pool.free.insert port, assignments := pool.assignments.erase port })
    pool

end PortPool

inductive PoolLabel
  | assign (serviceDigest : Bytes) (localPorts : List Port)
  | releaseClient (serviceDigest : Bytes)
  | releaseByPort (port : Port)
  | reserveOne

/-- A pool and what is done with it. -/
def pools (ports : FreshPool) : Machine PortPool PoolLabel where
  init := ports.new
  step pool
    | .assign serviceDigest localPorts => (pool.assign serviceDigest localPorts).map Prod.snd
    | .releaseClient serviceDigest => some (pool.releaseClient serviceDigest)
    | .releaseByPort port => some (pool.releaseByPort port)
    | .reserveOne => some ((pool.reserveOne.map Prod.snd).getD pool)

namespace PortPool

/-- Every bound port is free or assigned, and none is both. -/
structure Partitions (pool : PortPool) : Prop where
  nodup : pool.free.Nodup
  apart : ∀ port ∈ pool.free, ¬pool.Assigned port
  covers : ∀ port, port ∈ pool.listeners ↔ port ∈ pool.free ∨ pool.Assigned port

variable {pool pool' : PortPool} {port : Port} {free : List Port} {serviceDigest : Bytes}

theorem partitions_new (ports : FreshPool) : ports.new.Partitions :=
  ⟨ports.nodup, fun _ _ h => (by cases h),
    fun _ => ⟨.inl, fun h => h.elim id fun h => (by cases h)⟩⟩

/-! ## One port at a time -/

theorem popFirst_spec {rest : List Port} (h : popFirst free = some (port, rest))
    (hnodup : free.Nodup) :
    port ∈ free ∧ rest.Nodup ∧ ∀ q, q ∈ rest ↔ q ∈ free ∧ q ≠ port := by
  obtain ⟨m, hmin, hm⟩ := Option.map_eq_some_iff.mp h
  obtain ⟨rfl, hfree⟩ := Prod.mk.inj hm
  rw [← hfree]
  exact ⟨List.min?_mem hmin, hnodup.erase m, fun q => by rw [hnodup.mem_erase_iff, and_comm]⟩

theorem popFirst_isSome (h : free ≠ []) : (popFirst free).isSome := by
  rw [popFirst, Option.isSome_map, Option.isSome_iff_ne_none, ne_eq, List.min?_eq_none_iff]
  exact h

theorem popFirst_length {rest : List Port} (h : popFirst free = some (port, rest)) :
    rest.length = free.length - 1 := by
  obtain ⟨m, hmin, hm⟩ := Option.map_eq_some_iff.mp h
  obtain ⟨rfl, rfl⟩ := Prod.mk.inj hm
  exact List.length_erase_of_mem (List.min?_mem hmin)

theorem insert_assigned {value : Bytes × Port} {q : Port}
    (h : pool'.assignments = pool.assignments.insert port value) :
    pool'.Assigned q ↔ q = port ∨ pool.Assigned q := by
  unfold Assigned
  rw [h, HashMap.lookup_insert_eq]
  split
  · rename_i hq
    simp [hq]
  · rename_i hq
    simp [hq]

/-- The first free port is assigned. -/
theorem Partitions.take {value : Bytes × Port} (h : pool.Partitions)
    (hpop : popFirst pool.free = some (port, pool'.free))
    (hassignments : pool'.assignments = pool.assignments.insert port value)
    (hlisteners : pool'.listeners = pool.listeners) : pool'.Partitions := by
  obtain ⟨hport, hnodup, hfree⟩ := popFirst_spec hpop h.nodup
  refine ⟨hnodup, fun q hq hassigned => ?_, fun q => ?_⟩
  · obtain ⟨hq, hne⟩ := (hfree q).mp hq
    exact ((insert_assigned hassignments).mp hassigned).elim hne (h.apart q hq)
  · rw [hlisteners, h.covers q, hfree q, insert_assigned hassignments]
    by_cases hq : q = port
    · subst hq
      exact ⟨fun _ => .inr (.inl rfl), fun _ => .inl hport⟩
    · simp [hq]

/-- An assigned port is given back. -/
theorem Partitions.give (h : pool.Partitions) (hport : pool.Assigned port)
    (hfree : pool'.free = pool.free.insert port)
    (hassignments : pool'.assignments = pool.assignments.erase port)
    (hlisteners : pool'.listeners = pool.listeners) : pool'.Partitions := by
  have hassigned : ∀ q, pool'.Assigned q ↔ q ≠ port ∧ pool.Assigned q := by
    intro q
    unfold Assigned
    rw [hassignments, HashMap.lookup_erase_eq]
    split
    · rename_i hq
      simp [hq]
    · rename_i hq
      simp [hq]
  refine ⟨hfree ▸ h.nodup.insert, fun q hq hq' => ?_, fun q => ?_⟩
  · obtain ⟨hne, hold⟩ := (hassigned q).mp hq'
    rw [hfree, List.mem_insert_iff] at hq
    exact hq.elim hne fun hq => h.apart q hq hold
  · rw [hlisteners, h.covers q, hfree, List.mem_insert_iff, hassigned q]
    by_cases hq : q = port
    · subst hq
      exact ⟨fun _ => .inl (.inl rfl), fun _ => .inr hport⟩
    · simp [hq]

/-! ## The loops -/

/-- Enough free ports are enough for `assign`, which hands out free ports only, each
once. -/
theorem assignLoop_spec (serviceDigest : Bytes) (localPorts : List Port)
    (mapping : HashMap Port Port) (h : pool.Partitions)
    (hlen : localPorts.length ≤ pool.free.length)
    (hmapping : ∀ localPort q, mapping.lookup localPort = some q → q ∉ pool.free) :
    ∃ mapping' pool', assignLoop serviceDigest localPorts pool mapping = some (mapping', pool') ∧
      pool'.Partitions ∧ pool'.listeners = pool.listeners ∧
      (∀ localPort q, mapping'.lookup localPort = some q →
        mapping.lookup localPort = some q ∨ q ∈ pool.free) ∧
      ∀ l l' q, mapping'.lookup l = some q → mapping'.lookup l' = some q →
        l = l' ∨ mapping.lookup l = some q ∧ mapping.lookup l' = some q := by
  induction localPorts generalizing pool mapping with
  | nil => exact ⟨mapping, pool, rfl, h, rfl, fun _ _ => .inl, fun _ _ _ hl hl' => .inr ⟨hl, hl'⟩⟩
  | cons localPort localPorts ih =>
      have hne : pool.free ≠ [] := by
        intro hnil
        rw [hnil] at hlen
        exact absurd hlen (Nat.not_succ_le_zero _)
      obtain ⟨⟨port, free⟩, hpop⟩ := Option.isSome_iff_exists.mp (popFirst_isSome hne)
      let next : PortPool :=
        { pool with
          free := free
          assignments := pool.assignments.insert port (serviceDigest, localPort) }
      obtain ⟨hport, -, hfree⟩ := popFirst_spec hpop h.nodup
      have hlen' : localPorts.length ≤ next.free.length := by
        have hrest : next.free.length = pool.free.length - 1 := popFirst_length hpop
        rw [List.length_cons] at hlen
        omega
      have hmapping' : ∀ l q, (mapping.insert localPort port).lookup l = some q →
          q ∉ next.free := by
        intro l q hq hin
        rw [HashMap.lookup_insert_eq] at hq
        split at hq
        · exact ((hfree q).mp hin).2 (Option.some.inj hq).symm
        · exact hmapping l q hq ((hfree q).mp hin).1
      obtain ⟨mapping', pool', hloop, hparts, hlisteners, hmap, hinj⟩ :=
        ih _ (h.take hpop rfl rfl : next.Partitions) hlen' hmapping'
      refine ⟨mapping', pool', ?_, hparts, hlisteners, fun l q hq => ?_, fun l l' q hq hq' => ?_⟩
      · rw [assignLoop, hpop]
        exact hloop
      · rcases hmap l q hq with hq | hq
        · rw [HashMap.lookup_insert_eq] at hq
          split at hq
          · exact .inr (Option.some.inj hq ▸ hport)
          · exact .inl hq
        · exact .inr ((hfree q).mp hq).1
      · rcases hinj l l' q hq hq' with heq | ⟨hold, hold'⟩
        · exact .inl heq
        · rw [HashMap.lookup_insert_eq] at hold hold'
          split at hold
          · obtain rfl := Option.some.inj hold
            split at hold'
            · exact .inl (by simp [*])
            · exact absurd hport (hmapping l' port hold')
          · split at hold'
            · obtain rfl := Option.some.inj hold'
              exact absurd hport (hmapping l port hold)
            · exact .inr ⟨hold, hold'⟩

/-- Ports that are assigned are given back one by one. -/
theorem give_all {ports : List Port} (h : pool.Partitions) (hnodup : ports.Nodup)
    (hports : ∀ q ∈ ports, pool.Assigned q) :
    let pool' := ports.foldl
      (fun pool port =>
        { pool with free := pool.free.insert port, assignments := pool.assignments.erase port })
      pool
    pool'.Partitions ∧ pool'.listeners = pool.listeners := by
  induction ports generalizing pool with
  | nil => exact ⟨h, rfl⟩
  | cons port ports ih =>
      obtain ⟨hport, hnodup⟩ := List.nodup_cons.mp hnodup
      let next : PortPool :=
        { pool with free := pool.free.insert port, assignments := pool.assignments.erase port }
      have hnext : next.Partitions := h.give (hports port List.mem_cons_self) rfl rfl rfl
      refine ih hnext hnodup fun q hq => ?_
      have hne : q ≠ port := fun heq => hport (heq ▸ hq)
      have hold := hports q (List.mem_cons_of_mem _ hq)
      unfold Assigned at hold ⊢
      rwa [HashMap.lookup_erase_eq, if_neg hne]

/-- They are free afterwards, and nothing else has changed. -/
theorem give_all_spec (ports : List Port) (q : Port) :
    let pool' := ports.foldl
      (fun pool port =>
        { pool with free := pool.free.insert port, assignments := pool.assignments.erase port })
      pool
    (q ∈ pool'.free ↔ q ∈ ports ∨ q ∈ pool.free) ∧
      pool'.assignments.lookup q = if q ∈ ports then none else pool.assignments.lookup q := by
  induction ports generalizing pool with
  | nil => simp
  | cons port ports ih =>
      let next : PortPool :=
        { pool with free := pool.free.insert port, assignments := pool.assignments.erase port }
      obtain ⟨hfree, hlookup⟩ := @ih next
      refine ⟨hfree.trans ?_, hlookup.trans ?_⟩
      · rw [List.mem_insert_iff, List.mem_cons, or_assoc, or_left_comm]
      · rw [HashMap.lookup_erase_eq]
        by_cases hq : q = port
        · simp [hq]
        · simp [hq]

theorem mem_clientPorts : port ∈ pool.clientPorts serviceDigest ↔
    ∃ localPort, pool.assignments.lookup port = some (serviceDigest, localPort) := by
  unfold clientPorts
  rw [List.mem_map]
  constructor
  · rintro ⟨⟨q, digest, localPort⟩, he, rfl⟩
    obtain ⟨hentry, hdigest⟩ := List.mem_filter.mp he
    obtain rfl : digest = serviceDigest := beq_iff_eq.mp hdigest
    exact ⟨localPort, AList.mem_lookup_iff.mpr hentry⟩
  · rintro ⟨localPort, hlookup⟩
    exact ⟨⟨port, serviceDigest, localPort⟩,
      List.mem_filter.mpr ⟨AList.mem_lookup_iff.mp hlookup, beq_self_eq_true _⟩, rfl⟩

theorem clientPorts_nodup : (pool.clientPorts serviceDigest).Nodup :=
  pool.assignments.nodupKeys.sublist List.filter_sublist

/-! ## The operations -/

theorem assign_spec (serviceDigest : Bytes) (localPorts : List Port) (h : pool.Partitions) :
    ∃ result pool', pool.assign serviceDigest localPorts = some (result, pool') ∧
      pool'.Partitions ∧ pool'.listeners = pool.listeners ∧
      (∀ e, result = .error e → pool' = pool) ∧
      ∀ mapping, result = .ok mapping →
        (∀ l q, mapping.lookup l = some q → q ∈ pool.free) ∧
          ∀ l l' q, mapping.lookup l = some q → mapping.lookup l' = some q → l = l' := by
  unfold assign
  split
  · exact ⟨_, pool, rfl, h, rfl, fun _ _ => rfl, fun _ hok => by cases hok⟩
  · rename_i hlen
    obtain ⟨mapping, pool', hloop, hparts, hlisteners, hmap, hinj⟩ :=
      assignLoop_spec serviceDigest localPorts ∅ h (Nat.not_lt.mp hlen)
        fun _ _ hq => by cases hq
    rw [hloop]
    refine ⟨_, pool', rfl, hparts, hlisteners, fun _ herror => (by cases herror), ?_⟩
    rintro _ ⟨⟩
    exact ⟨fun l q hq => (hmap l q hq).resolve_left fun hq => (by cases hq),
      fun l l' q hq hq' => (hinj l l' q hq hq').resolve_right fun hq => (by cases hq.1)⟩

theorem releaseClient_spec (h : pool.Partitions) :
    (pool.releaseClient serviceDigest).Partitions ∧
      (pool.releaseClient serviceDigest).listeners = pool.listeners :=
  give_all h clientPorts_nodup fun q hq => by
    obtain ⟨localPort, hlookup⟩ := mem_clientPorts.mp hq
    exact Option.isSome_iff_exists.mpr ⟨_, hlookup⟩

/-- What a client had is free, and others keep what they have. -/
theorem releaseClient_lookup {value : Bytes × Port} :
    (pool.releaseClient serviceDigest).assignments.lookup port = some value ↔
      pool.assignments.lookup port = some value ∧ value.1 ≠ serviceDigest := by
  have hlookup := (@give_all_spec pool (pool.clientPorts serviceDigest) port).2
  refine (iff_of_eq (congrArg (· = some value) hlookup)).trans ?_
  split
  · rename_i hmem
    obtain ⟨localPort, hport⟩ := mem_clientPorts.mp hmem
    refine iff_of_false (fun h => by cases h) fun ⟨hvalue, hne⟩ => hne ?_
    rw [← Option.some.inj (hport.symm.trans hvalue)]
  · rename_i hmem
    refine (and_iff_left_of_imp fun hvalue heq => hmem ?_).symm
    exact mem_clientPorts.mpr ⟨value.2, hvalue.trans (by rw [← heq])⟩

theorem releaseClient_free :
    port ∈ (pool.releaseClient serviceDigest).free ↔
      port ∈ pool.free ∨
        ∃ localPort, pool.assignments.lookup port = some (serviceDigest, localPort) := by
  rw [← mem_clientPorts, or_comm]
  exact (@give_all_spec pool (pool.clientPorts serviceDigest) port).1

theorem releaseByPort_unassigned (h : ¬pool.Assigned port) : pool.releaseByPort port = pool := by
  unfold releaseByPort
  split
  · rename_i hlookup
    exact absurd (Option.isSome_iff_exists.mpr ⟨_, hlookup⟩) h
  · rfl

theorem releaseClient_unknown
    (h : ∀ port localPort, pool.assignments.lookup port ≠ some (serviceDigest, localPort)) :
    pool.releaseClient serviceDigest = pool := by
  have hnone : pool.clientPorts serviceDigest = [] := by
    refine List.eq_nil_iff_forall_not_mem.mpr fun port hport => ?_
    obtain ⟨localPort, hlookup⟩ := mem_clientPorts.mp hport
    exact h port localPort hlookup
  rw [releaseClient, hnone]
  rfl

theorem releaseByPort_partitions (h : pool.Partitions) :
    (pool.releaseByPort port).Partitions ∧
      (pool.releaseByPort port).listeners = pool.listeners := by
  by_cases hport : pool.Assigned port
  · obtain ⟨value, hlookup⟩ := Option.isSome_iff_exists.mp hport
    rw [releaseByPort, hlookup]
    exact ⟨h.give hport rfl rfl rfl, rfl⟩
  · rw [releaseByPort_unassigned hport]
    exact ⟨h, rfl⟩

theorem reserveOne_partitions (h : pool.Partitions)
    (hreserve : pool.reserveOne = some (port, pool')) :
    port ∈ pool.free ∧ pool'.Partitions ∧ pool'.listeners = pool.listeners := by
  obtain ⟨⟨q, free⟩, hpop, heq⟩ := Option.map_eq_some_iff.mp hreserve
  obtain ⟨rfl, rfl⟩ := Prod.mk.inj heq
  exact ⟨(popFirst_spec hpop h.nodup).1, h.take hpop rfl rfl,
    rfl⟩

/-- What a run of the operations keeps. -/
theorem partitions_of_reachable {ports : FreshPool} (h : (pools ports).Reachable pool) :
    pool.Partitions ∧ pool.listeners = ports.ports := by
  refine Machine.invariant (I := fun pool => pool.Partitions ∧ pool.listeners = ports.ports)
    ⟨partitions_new ports, rfl⟩ ?_ h
  rintro pool label pool' ⟨hparts, hlisteners⟩ hstep
  cases label with
  | assign serviceDigest localPorts =>
      obtain ⟨⟨result, next⟩, hassign, rfl⟩ := Option.map_eq_some_iff.mp hstep
      obtain ⟨result', next', heq, hparts', hsame, -⟩ :=
        assign_spec serviceDigest localPorts hparts
      obtain ⟨-, rfl⟩ := Prod.mk.inj (Option.some.inj (hassign.symm.trans heq))
      exact ⟨hparts', hsame.trans hlisteners⟩
  | releaseClient serviceDigest =>
      obtain rfl := Option.some.inj hstep
      exact ⟨(releaseClient_spec hparts).1, (releaseClient_spec hparts).2.trans hlisteners⟩
  | releaseByPort port =>
      obtain rfl := Option.some.inj hstep
      exact ⟨(releaseByPort_partitions hparts).1,
        (releaseByPort_partitions hparts).2.trans hlisteners⟩
  | reserveOne =>
      obtain rfl := Option.some.inj hstep
      cases hreserve : pool.reserveOne with
      | none => exact ⟨hparts, hlisteners⟩
      | some q =>
          obtain ⟨-, hparts', hsame⟩ := reserveOne_partitions hparts hreserve
          exact ⟨hparts', hsame.trans hlisteners⟩

/-- In every pool that operations have led to, the free and the assigned ports
partition the bound ones.  No operation hands out an assigned port, none panics,
releasing what is not assigned or failing to assign changes nothing, and releasing a client
frees its ports and no others. -/
theorem pool_partition {ports : FreshPool} (h : (pools ports).Reachable pool) :
    (∀ port ∈ pool.free, ¬pool.Assigned port) ∧
      (∀ port, port ∈ ports.ports ↔ port ∈ pool.free ∨ pool.Assigned port) ∧
      pool.listeners = ports.ports ∧
      (∀ port pool', pool.reserveOne = some (port, pool') → ¬pool.Assigned port) ∧
      (∀ serviceDigest localPorts, ∃ result pool',
        pool.assign serviceDigest localPorts = some (result, pool') ∧
          (∀ e, result = .error e → pool' = pool) ∧
          ∀ mapping, result = .ok mapping →
            (∀ l q, mapping.lookup l = some q → ¬pool.Assigned q) ∧
              ∀ l l' q, mapping.lookup l = some q → mapping.lookup l' = some q → l = l') ∧
      (∀ port, ¬pool.Assigned port → pool.releaseByPort port = pool) ∧
      (∀ serviceDigest,
        (∀ port localPort, pool.assignments.lookup port ≠ some (serviceDigest, localPort)) →
          pool.releaseClient serviceDigest = pool) ∧
      ∀ serviceDigest port,
        (port ∈ (pool.releaseClient serviceDigest).free ↔ port ∈ pool.free ∨
          ∃ localPort, pool.assignments.lookup port = some (serviceDigest, localPort)) ∧
        ∀ value, (pool.releaseClient serviceDigest).assignments.lookup port = some value ↔
          pool.assignments.lookup port = some value ∧ value.1 ≠ serviceDigest := by
  obtain ⟨hparts, hlisteners⟩ := partitions_of_reachable h
  refine ⟨hparts.apart, fun port => hlisteners ▸ hparts.covers port, hlisteners,
    fun port pool' hreserve => hparts.apart port (reserveOne_partitions hparts hreserve).1,
    fun serviceDigest localPorts => ?_, fun _ => releaseByPort_unassigned,
    fun _ => releaseClient_unknown,
    fun _ _ => ⟨releaseClient_free, fun _ => releaseClient_lookup⟩⟩
  obtain ⟨result, pool', hassign, -, -, herror, hok⟩ :=
    assign_spec serviceDigest localPorts hparts
  refine ⟨result, pool', hassign, herror, fun mapping hmapping => ?_⟩
  obtain ⟨hfree, hinj⟩ := hok mapping hmapping
  exact ⟨fun l q hq => hparts.apart q (hfree l q hq), hinj⟩

/-- A client and a bridge share a pool of three ports. -/
def threePorts : FreshPool where
  ports := [9000, 9001, 9002]
  nodup := by decide
  nonempty := by decide

theorem pool_partition_threePorts : ∃ pool,
    (pools threePorts).run threePorts.new [.assign [1] [80, 443], .reserveOne, .releaseByPort 9001,
      .releaseByPort 8000] = some pool ∧
      pool.free = [9001] ∧ (∀ port ∈ pool.free, ¬pool.Assigned port) ∧
      9000 ∈ (pool.releaseClient [1]).free ∧
      (pool.releaseClient [1]).assignments.lookup 9002 = some ([], 0) := by
  have hrun : ∃ pool, (pools threePorts).run threePorts.new
      [.assign [1] [80, 443], .reserveOne, .releaseByPort 9001, .releaseByPort 8000] = some pool ∧
        pool.free = [9001] ∧ pool.assignments.lookup 9000 = some ([1], 80) ∧
          pool.assignments.lookup 9002 = some ([], 0) :=
    ⟨_, rfl, by decide, by decide, by decide⟩
  obtain ⟨pool, hpool, hfree, hclient, hbridge⟩ := hrun
  obtain ⟨hapart, -, -, -, -, -, -, hrelease⟩ := pool_partition ⟨_, hpool⟩
  exact ⟨pool, hpool, hfree, hapart, (hrelease [1] 9000).1.mpr (.inr ⟨80, hclient⟩),
    ((hrelease [1] 9002).2 _).mpr ⟨hbridge, by decide⟩⟩

end PortPool

end Kdct
