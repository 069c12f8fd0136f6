/-
The deployments of a node that has gone, `remove_by_node`
(`crates/kdcts/src/deployment_tracker.rs`).

The sync task takes the call apart into its steps.  Here the call is one function,
which says what it does to the tracker, the routes and the pool, and the steps of the
task are run through to it.
-/
import Kdct.Server.Machine

namespace Kdct

namespace Shared

/-- One turn of the outer loop of `remove_by_node`. -/
def removeKey (s : Shared) (key : DeploymentKey) : Shared :=
  match s.tracker.lookup key with
  | none => s
  | some d => d.serverPorts.foldl releasePort { s with tracker := s.tracker.erase key }

def removeByNode (s : Shared) (uuid : NodeUuid) : Shared :=
  (s.nodeKeys uuid).foldl removeKey s

/-- The ports that satisfy `P` are released. -/
structure Released (s t : Shared) (P : Port → Prop) : Prop where
  routes : ∀ path port, t.routes.routes.lookup path = some port ↔
    s.routes.routes.lookup path = some port ∧ ¬P port
  assignments : ∀ port value, t.pool.assignments.lookup port = some value ↔
    s.pool.assignments.lookup port = some value ∧ ¬P port
  free : ∀ port, port ∈ t.pool.free ↔ port ∈ s.pool.free ∨ s.pool.Assigned port ∧ P port
  rest : t =
    { s with tracker := t.tracker
             routes := t.routes
             pool := { s.pool with free := t.pool.free, assignments := t.pool.assignments } }

/-- A deployment of the node has the port. -/
def HasPort (s : Shared) (uuid : NodeUuid) (port : Port) : Prop :=
  ∃ key d, s.tracker.lookup key = some d ∧ d.nodeUuid = uuid ∧ port ∈ d.serverPorts

variable {s t u : Shared} {P Q : Port → Prop} {uuid : NodeUuid}

theorem mem_nodeKeys {key : DeploymentKey} :
    key ∈ s.nodeKeys uuid ↔ ∃ d, s.tracker.lookup key = some d ∧ d.nodeUuid = uuid := by
  unfold nodeKeys
  rw [List.mem_map]
  constructor
  · rintro ⟨⟨k, d⟩, he, rfl⟩
    obtain ⟨hentry, huuid⟩ := List.mem_filter.mp he
    exact ⟨d, AList.mem_lookup_iff.mpr hentry, beq_iff_eq.mp huuid⟩
  · rintro ⟨d, hlookup, huuid⟩
    exact ⟨⟨key, d⟩, List.mem_filter.mpr ⟨AList.mem_lookup_iff.mp hlookup, beq_iff_eq.mpr huuid⟩,
      rfl⟩

/-! ## Releasing ports -/

theorem Released.congr (h : s.Released t P) (hPQ : ∀ port, P port ↔ Q port) : s.Released t Q := by
  obtain rfl : P = Q := funext fun port => propext (hPQ port)
  exact h

theorem Released.assigned (h : s.Released t P) (port : Port) :
    t.pool.Assigned port ↔ s.pool.Assigned port ∧ ¬P port := by
  unfold PortPool.Assigned
  rw [Option.isSome_iff_exists, Option.isSome_iff_exists]
  constructor
  · rintro ⟨value, hvalue⟩
    obtain ⟨hold, hP⟩ := (h.assignments port value).mp hvalue
    exact ⟨⟨value, hold⟩, hP⟩
  · rintro ⟨⟨value, hold⟩, hP⟩
    exact ⟨value, (h.assignments port value).mpr ⟨hold, hP⟩⟩

theorem Released.none (htracker : t = { s with tracker := t.tracker }) :
    s.Released t fun _ => False := by
  rw [htracker]
  exact ⟨by simp, by simp, by simp, rfl⟩

theorem Released.trans (h : s.Released t P) (h' : t.Released u Q) :
    s.Released u fun port => P port ∨ Q port := by
  refine ⟨fun path port => ?_, fun port value => ?_, fun port => ?_, ?_⟩
  · rw [h'.routes, h.routes, and_assoc, not_or]
  · rw [h'.assignments, h.assignments, and_assoc, not_or]
  · rw [h'.free, h.free, h.assigned]
    by_cases hP : P port <;> simp [hP]
  · refine h'.rest.trans ?_
    rw [h.rest]

theorem released_releasePort (port : Port) : s.Released (s.releasePort port) (· = port) := by
  refine ⟨fun path q => RouteTable.removeByPort_lookup, fun q value => ?_,
    fun q => ?_, ?_⟩
  · show (s.pool.releaseByPort port).assignments.lookup q = some value ↔ _
    unfold PortPool.releaseByPort
    split
    · rw [HashMap.lookup_erase_eq]
      split
      · rename_i hq
        simp [hq]
      · rename_i hq
        simp [hq]
    · rename_i hnone
      refine ⟨fun h => ⟨h, ?_⟩, And.left⟩
      rintro rfl
      rw [hnone] at h
      cases h
  · show q ∈ (s.pool.releaseByPort port).free ↔ _
    rw [PortPool.releaseByPort_free]
    constructor
    · rintro (hq | ⟨rfl, hassigned⟩)
      · exact .inl hq
      · exact .inr ⟨hassigned, rfl⟩
    · rintro (hq | ⟨hassigned, rfl⟩)
      · exact .inl hq
      · exact .inr ⟨rfl, hassigned⟩
  · unfold releasePort PortPool.releaseByPort
    split <;> rfl

theorem released_ports (ports : List Port) :
    s.Released (ports.foldl releasePort s) (· ∈ ports) ∧
      (ports.foldl releasePort s).tracker = s.tracker := by
  induction ports generalizing s with
  | nil =>
      refine ⟨(Released.none (t := s) rfl).congr fun port => ?_, rfl⟩
      simp
  | cons port ports ih =>
      obtain ⟨hrest, htracker⟩ := ih (s := s.releasePort port)
      refine ⟨((released_releasePort port).trans hrest).congr fun q => ?_, htracker⟩
      rw [List.mem_cons]

/-! ## Removing deployments -/

theorem removeKey_spec (key : DeploymentKey) :
    s.Released (s.removeKey key)
        (fun port => ∃ d, s.tracker.lookup key = some d ∧ port ∈ d.serverPorts) ∧
      ∀ k, (s.removeKey key).tracker.lookup k = if k = key then none else s.tracker.lookup k := by
  unfold removeKey
  split
  · rename_i hnone
    refine ⟨(Released.none (t := s) rfl).congr fun port => ?_, fun k => ?_⟩
    · simp [hnone]
    · split
      · rename_i hk
        rw [hk, hnone]
      · rfl
  · rename_i d hd
    let t : Shared := { s with tracker := s.tracker.erase key }
    obtain ⟨hports, htracker⟩ := released_ports (s := t) d.serverPorts
    refine ⟨((Released.none (s := s) (t := t) rfl).trans hports).congr fun port => ?_, fun k => ?_⟩
    · simp [hd]
    · rw [htracker]
      exact HashMap.lookup_erase_eq ..

theorem removeKeys_spec (keys : List DeploymentKey) :
    s.Released (keys.foldl removeKey s)
        (fun port => ∃ key ∈ keys, ∃ d, s.tracker.lookup key = some d ∧ port ∈ d.serverPorts) ∧
      ∀ k, (keys.foldl removeKey s).tracker.lookup k =
        if k ∈ keys then none else s.tracker.lookup k := by
  induction keys generalizing s with
  | nil => exact ⟨(Released.none (t := s) rfl).congr fun port => by simp, fun k => rfl⟩
  | cons key keys ih =>
      obtain ⟨hfirst, htracker⟩ := s.removeKey_spec key
      obtain ⟨hrest, hlookup⟩ := ih (s := s.removeKey key)
      refine ⟨(hfirst.trans hrest).congr fun port => ?_, fun k => ?_⟩
      · simp only [List.exists_mem_cons_iff]
        refine or_congr_right' fun hnot => exists_congr fun k => and_congr_right fun hk => ?_
        refine exists_congr fun d => ?_
        rw [htracker]
        split
        · rename_i heq
          subst heq
          exact ⟨fun h => (by cases h.1), fun h => absurd ⟨d, h⟩ hnot⟩
        · rfl
      · rw [List.foldl_cons, hlookup, htracker]
        simp only [List.mem_cons]
        by_cases hk : k = key <;> simp [hk]

/-- `remove_by_node` drops the deployments of the node and what they have, and
nothing else, and has nothing left to do a second time. -/
theorem removeByNode_exact (s : Shared) (uuid : NodeUuid) :
    (∀ key d, (s.removeByNode uuid).tracker.lookup key = some d ↔
        s.tracker.lookup key = some d ∧ d.nodeUuid ≠ uuid) ∧
      s.Released (s.removeByNode uuid) (s.HasPort uuid) ∧
      (s.removeByNode uuid).removeByNode uuid = s.removeByNode uuid := by
  obtain ⟨hreleased, hlookup⟩ := s.removeKeys_spec (s.nodeKeys uuid)
  have htracker : ∀ key d, (s.removeByNode uuid).tracker.lookup key = some d ↔
      s.tracker.lookup key = some d ∧ d.nodeUuid ≠ uuid := by
    intro key d
    rw [removeByNode, hlookup]
    split
    · rename_i hkey
      obtain ⟨d', hd', huuid⟩ := mem_nodeKeys.mp hkey
      refine ⟨fun h => (by cases h), fun ⟨hd, hne⟩ => ?_⟩
      obtain rfl := Option.some.inj (hd'.symm.trans hd)
      exact absurd huuid hne
    · rename_i hkey
      refine ⟨fun hd => ⟨hd, fun huuid => hkey (mem_nodeKeys.mpr ⟨d, hd, huuid⟩)⟩, And.left⟩
  refine ⟨htracker, hreleased.congr fun port => ?_, ?_⟩
  · constructor
    · rintro ⟨key, hkey, d, hd, hport⟩
      obtain ⟨d', hd', huuid⟩ := mem_nodeKeys.mp hkey
      obtain rfl := Option.some.inj (hd'.symm.trans hd)
      exact ⟨key, d', hd, huuid, hport⟩
    · rintro ⟨key, d, hd, huuid, hport⟩
      exact ⟨key, mem_nodeKeys.mpr ⟨d, hd, huuid⟩, d, hd, hport⟩
  · have hnil : (s.removeByNode uuid).nodeKeys uuid = [] := by
      refine List.eq_nil_iff_forall_not_mem.mpr fun key hkey => ?_
      obtain ⟨d, hd, huuid⟩ := mem_nodeKeys.mp hkey
      exact ((htracker key d).mp hd).2 huuid
    show ((s.removeByNode uuid).nodeKeys uuid).foldl removeKey (s.removeByNode uuid) = _
    rw [hnil]
    rfl

/-! ## The steps of the sync task -/

/-- A lock of the table that is taken and given back. -/
theorem foldl_releasePort_locked (h : s.tableLock = none) (ports : List Port)
    (lock : Option Holder) :
    { ports.foldl releasePort { s with tableLock := lock } with tableLock := none } =
      ports.foldl releasePort s := by
  induction ports generalizing s with
  | nil =>
      show { s with tableLock := none } = s
      rw [← h]
  | cons port ports ih => exact ih (s := s.releasePort port) h

/-- A lock of the tracker that is held all along. -/
theorem foldl_removeKey_locked (keys : List DeploymentKey) (lock : Option Holder) :
    keys.foldl removeKey { s with trackerLock := lock } =
      { keys.foldl removeKey s with trackerLock := lock } := by
  have hports : ∀ (ports : List Port) (s : Shared),
      ports.foldl releasePort { s with trackerLock := lock } =
        { ports.foldl releasePort s with trackerLock := lock } := by
    intro ports
    induction ports with
    | nil => exact fun _ => rfl
    | cons port ports ih => exact fun s => ih (s.releasePort port)
  have hkey : ∀ (s : Shared) (key : DeploymentKey),
      removeKey { s with trackerLock := lock } key =
        { s.removeKey key with trackerLock := lock } := by
    intro s key
    unfold removeKey
    dsimp only
    split
    · rfl
    · rename_i d _
      exact hports d.serverPorts { s with tracker := s.tracker.erase key }
  induction keys generalizing s with
  | nil => rfl
  | cons key keys ih =>
      rw [List.foldl_cons, hkey, ih]
      rfl

theorem removeKey_tableLock (key : DeploymentKey) : (s.removeKey key).tableLock = s.tableLock := by
  have hrest := (s.removeKey_spec key).1.rest
  rw [hrest]

end Shared

namespace Server

variable {ports : FreshPool} {localAddr : LocalAddr} {s t u : Server} {uuid : NodeUuid}

/-- The sync task takes some steps and nobody else any. -/
def Syncs (ports : FreshPool) (localAddr : LocalAddr) (s t : Server) : Prop :=
  ∃ n, (kdcts ports localAddr).run s (List.replicate n (.sync false)) = some t

theorem Syncs.trans (h : s.Syncs ports localAddr t) (h' : t.Syncs ports localAddr u) :
    s.Syncs ports localAddr u := by
  obtain ⟨m, hm⟩ := h
  obtain ⟨n, hn⟩ := h'
  refine ⟨m + n, ?_⟩
  rw [List.replicate_add, Machine.run_append, hm]
  exact hn

theorem Syncs.step (shared : Shared) (pc : SyncPc)
    (h : s.shared.syncStep false s.sync = some (shared, pc)) :
    s.Syncs ports localAddr { s with shared := shared, sync := pc } := by
  refine ⟨1, ?_⟩
  show ((s.shared.syncStep false s.sync).map _).bind _ = _
  rw [h]
  rfl

theorem syncs_release {serverPorts : List Port} {rest : List DeploymentKey}
    (hsync : s.sync = .release uuid serverPorts rest) :
    s.Syncs ports localAddr
      { s with shared := { serverPorts.foldl Shared.releasePort s.shared with tableLock := none }
               sync := .keys uuid rest } := by
  induction serverPorts generalizing s with
  | nil => exact .step _ _ (by rw [hsync]; rfl)
  | cons port serverPorts ih =>
      refine Syncs.trans (.step (s.shared.releasePort port) (.release uuid serverPorts rest)
        (by rw [hsync]; rfl)) ?_
      exact ih rfl

theorem syncs_keys {keys : List DeploymentKey} (hsync : s.sync = .keys uuid keys)
    (htable : s.shared.tableLock = none) :
    s.Syncs ports localAddr
      { s with shared := { keys.foldl Shared.removeKey s.shared with trackerLock := none }
               sync := .idle } := by
  induction keys generalizing s with
  | nil => exact .step _ _ (by rw [hsync]; rfl)
  | cons key keys ih =>
      have hfirst : s.Syncs ports localAddr
          { s with shared := s.shared.removeKey key, sync := .keys uuid keys } := by
        unfold Shared.removeKey
        split
        · rename_i hnone
          exact .step _ _ (by rw [hsync, Shared.syncStep, hnone])
        · rename_i d hd
          let erased : Shared := { s.shared with tracker := s.shared.tracker.erase key }
          have hlock : { s with shared := erased, sync := .table uuid d keys }.Syncs ports localAddr
              { s with shared := { erased with tableLock := some .sync }
                       sync := .release uuid d.serverPorts keys } :=
            .step _ _ (by simp [Shared.syncStep, erased, htable])
          refine Syncs.trans (.step erased (.table uuid d keys)
            (by rw [hsync, Shared.syncStep, hd])) (hlock.trans ?_)
          have hrelease : Syncs ports localAddr
              { s with shared := { erased with tableLock := some .sync }
                       sync := .release uuid d.serverPorts keys } _ := syncs_release rfl
          have htable' : erased.tableLock = none := htable
          rwa [Shared.foldl_releasePort_locked htable' d.serverPorts (some .sync)] at hrelease
      refine hfirst.trans ?_
      exact ih rfl ((Shared.removeKey_tableLock key).trans htable)

/-- The sync task does what `remove_by_node` says. -/
theorem syncs_removeByNode (hsync : s.sync = .tracker uuid) (htable : s.shared.tableLock = none)
    (htracker : s.shared.trackerLock = none) :
    s.Syncs ports localAddr { s with shared := s.shared.removeByNode uuid, sync := .idle } := by
  let locked : Shared := { s.shared with trackerLock := some .sync }
  refine Syncs.trans (.step locked (.keys uuid (s.shared.nodeKeys uuid))
    (by rw [hsync]; simp [Shared.syncStep, htracker, locked])) ?_
  have hkept : (s.shared.removeByNode uuid).trackerLock = none := by
    have hrest := (s.shared.removeKeys_spec (s.shared.nodeKeys uuid)).1.rest
    exact (congrArg Shared.trackerLock hrest).trans htracker
  have hkeys : Syncs ports localAddr
      { s with shared := locked, sync := .keys uuid (s.shared.nodeKeys uuid) } _ :=
    syncs_keys rfl htable
  have hshared : { (s.shared.nodeKeys uuid).foldl Shared.removeKey locked with
      trackerLock := none } = s.shared.removeByNode uuid := by
    rw [Shared.foldl_removeKey_locked, ← hkept]
    rfl
  rwa [hshared] at hkeys

end Server

end Kdct
