/-
The calls of the synchronisation task on a migrated file and on a fresh one
(`upsert_node`, `set_node_offline` and `get_node_by_uuid` in
`crates/kdcts/src/db.rs`).

A fresh file has the UNIQUE column and a migrated one the partial index.
`upsert_node` names its conflict target without a `WHERE`, so it only works on the
first; the callers ignore its error.
-/
import Kdct.Migration

namespace Kdct

inductive NodeCall
  | upsertNode (nodeUuid serviceDigest : String) (info : NodeInfo) (now : Int)
  | setNodeOffline (nodeUuid : String)
  | getNodeByUuid (nodeUuid : String)
  deriving DecidableEq

def NodeCall.isUpsert : NodeCall → Bool
  | .upsertNode .. => true
  | .setNodeOffline _ | .getNodeByUuid _ => false

/-- The row that `get_node_by_uuid` returns, without the digest. -/
structure FoundNode where
  id : RowId
  info : NodeInfo
  status : NodeState
  nodeUuid : String
  lastSeen : Int
  deriving DecidableEq

def NodeRow.found (r : NodeRow) : FoundNode where
  id := r.id
  info := r.info
  status := r.status
  nodeUuid := r.nodeUuid.getD ""
  lastSeen := r.lastSeen

inductive CallResult
  | done
  | failed
  | node (n : Option FoundNode)
  deriving DecidableEq

namespace Stored

def getNodeByUuid (s : Stored) (nodeUuid : String) : Option FoundNode :=
  (s.nodeRow? nodeUuid).map NodeRow.found

def call (s : Stored) : NodeCall → CallResult × Stored
  | .upsertNode nodeUuid serviceDigest info now =>
      match s.upsertNode nodeUuid serviceDigest info now with
      | some t => (.done, t)
      | none => (.failed, s)
  | .setNodeOffline nodeUuid => (.done, s.setNodeOffline nodeUuid)
  | .getNodeByUuid nodeUuid => (.node (s.getNodeByUuid nodeUuid), s)

def calls (s : Stored) : List NodeCall → List CallResult × Stored
  | [] => ([], s)
  | c :: cs =>
      let (result, s) := s.call c
      let (results, s) := s.calls cs
      (result :: results, s)

/-- One row was added, or one that has the uuid was changed. -/
def OneRow (nodeUuid : String) (before after : List NodeRow) : Prop :=
  (∃ r, after = before ++ [r] ∧ r.nodeUuid = some nodeUuid ∧
      ∀ r₀ ∈ before, r₀.nodeUuid ≠ some nodeUuid) ∨
    ∃ r ∈ before, ∃ r', r.nodeUuid = some nodeUuid ∧ r'.nodeUuid = some nodeUuid ∧ r'.id = r.id ∧
      after = before.map fun x => if x.id = r.id then r' else x

/-- The file serves the calls as the other one does, and every `upsert_node` writes one
row. -/
structure ServesAs (s fresh : Stored) (cs : List NodeCall) : Prop where
  results : (s.calls cs).1 = (fresh.calls cs).1
  rows : (s.calls cs).2.clientNodes.rows = (fresh.calls cs).2.clientNodes.rows
  upserts : ∀ pre nodeUuid serviceDigest info now post,
    cs = pre ++ .upsertNode nodeUuid serviceDigest info now :: post →
      ∃ t, (s.calls pre).2.upsertNode nodeUuid serviceDigest info now = some t ∧
        OneRow nodeUuid (s.calls pre).2.clientNodes.rows t.clientNodes.rows

variable {s t fresh : Stored} {uuids : Nat → String} {cs : List NodeCall}

/-! ## What a call leaves -/

theorem call_schema (s : Stored) (c : NodeCall) : (s.call c).2.schema = s.schema := by
  cases c with
  | upsertNode nodeUuid serviceDigest info now =>
      cases hupsert : s.upsertNode nodeUuid serviceDigest info now with
      | some t =>
          rw [call, hupsert]
          exact upsertNode_schema hupsert
      | none => rw [call, hupsert]
  | setNodeOffline nodeUuid => rfl
  | getNodeByUuid nodeUuid => rfl

theorem calls_schema (s : Stored) (cs : List NodeCall) : (s.calls cs).2.schema = s.schema := by
  induction cs generalizing s with
  | nil => rfl
  | cons c cs ih => exact (ih (s.call c).2).trans (s.call_schema c)

theorem backfill_schema {ids : List RowId} (h : backfill uuids ids s = some t) :
    t.schema = s.schema := by
  induction ids generalizing s uuids with
  | nil =>
      obtain rfl := Option.some.inj h
      rfl
  | cons id ids ih =>
      obtain ⟨s₁, hset, hrest⟩ := Option.bind_eq_some_iff.mp h
      rw [ih hrest]
      unfold setNodeUuid at hset
      split at hset
      · cases hset
      · obtain rfl := Option.some.inj hset
        rfl

/-- The index of a migrated file is the partial one. -/
theorem migrate_schema (hlegacy : s.schema = .legacy) (h : s.migrate uuids = some t) :
    t.schema = .partialIndex := by
  unfold migrate ensureColumn at h
  rw [if_pos hlegacy] at h
  obtain ⟨u, hfill, rfl⟩ := Option.map_eq_some_iff.mp h
  exact backfill_schema hfill

/-- Without `upsert_node` the schema makes no difference. -/
theorem call_congr (hrows : s.clientNodes.rows = fresh.clientNodes.rows) {c : NodeCall}
    (hc : c.isUpsert = false) : (s.call c).1 = (fresh.call c).1 ∧
      (s.call c).2.clientNodes.rows = (fresh.call c).2.clientNodes.rows := by
  cases c with
  | upsertNode nodeUuid serviceDigest info now => cases hc
  | setNodeOffline nodeUuid => exact ⟨rfl, congrArg (List.map _) hrows⟩
  | getNodeByUuid nodeUuid =>
      refine ⟨?_, hrows⟩
      show CallResult.node (s.getNodeByUuid nodeUuid) = .node (fresh.getNodeByUuid nodeUuid)
      rw [getNodeByUuid, nodeRow?, hrows]
      rfl

theorem calls_congr (hrows : s.clientNodes.rows = fresh.clientNodes.rows)
    (hcs : ∀ c ∈ cs, c.isUpsert = false) : (s.calls cs).1 = (fresh.calls cs).1 ∧
      (s.calls cs).2.clientNodes.rows = (fresh.calls cs).2.clientNodes.rows := by
  induction cs generalizing s fresh with
  | nil => exact ⟨rfl, hrows⟩
  | cons c cs ih =>
      rw [List.forall_mem_cons] at hcs
      obtain ⟨hresult, hnext⟩ := call_congr hrows hcs.1
      obtain ⟨hresults, hlast⟩ := ih hnext hcs.2
      exact ⟨congrArg₂ List.cons hresult hresults, hlast⟩

theorem calls_append (s : Stored) (as bs : List NodeCall) :
    (s.calls (as ++ bs)).1 = (s.calls as).1 ++ ((s.calls as).2.calls bs).1 := by
  induction as generalizing s with
  | nil => rfl
  | cons a as ih => exact congrArg (List.cons (s.call a).1) (ih (s.call a).2)

theorem calls_length (s : Stored) (cs : List NodeCall) : (s.calls cs).1.length = cs.length := by
  induction cs generalizing s with
  | nil => rfl
  | cons c cs ih => exact congrArg Nat.succ (ih (s.call c).2)

/-- What two files answer to one call in the middle. -/
theorem call_eq_of_calls {pre post : List NodeCall} {c : NodeCall}
    (h : (s.calls (pre ++ c :: post)).1 = (fresh.calls (pre ++ c :: post)).1) :
    ((s.calls pre).2.call c).1 = ((fresh.calls pre).2.call c).1 := by
  rw [calls_append, calls_append] at h
  have hlength : (s.calls pre).1.length = (fresh.calls pre).1.length := by
    rw [calls_length, calls_length]
  exact List.head_eq_of_cons_eq (List.append_inj_right h hlength)

/-! ## The schemas -/

theorem upsertNode_of_partialIndex (h : s.schema = .partialIndex)
    (nodeUuid serviceDigest : String) (info : NodeInfo) (now : Int) :
    s.upsertNode nodeUuid serviceDigest info now = none :=
  dif_neg fun hunique => by
    rw [h] at hunique
    cases hunique

/-- A migrated file serves the calls as a fresh file with its rows exactly when none of
them is `upsert_node`. -/
theorem servesAs_iff (hlegacy : s.schema = .legacy) (hmigrate : s.migrate uuids = some t)
    (hfresh : fresh.schema = .unique) (hrows : fresh.clientNodes.rows = t.clientNodes.rows)
    (cs : List NodeCall) : t.ServesAs fresh cs ↔ ∀ c ∈ cs, c.isUpsert = false := by
  constructor
  · intro h c hc
    cases c with
    | upsertNode nodeUuid serviceDigest info now =>
        obtain ⟨pre, post, hsplit⟩ := List.append_of_mem hc
        have hanswers := call_eq_of_calls (hsplit ▸ h.results)
        have hschema := (t.calls_schema pre).trans (migrate_schema hlegacy hmigrate)
        obtain ⟨t', hupsert⟩ := upsertNode_of_unique ((fresh.calls_schema pre).trans hfresh)
          nodeUuid serviceDigest info now
        rw [call, upsertNode_of_partialIndex hschema, call, hupsert] at hanswers
        cases hanswers
    | setNodeOffline nodeUuid => rfl
    | getNodeByUuid nodeUuid => rfl
  · intro hcs
    obtain ⟨hresults, hlast⟩ := calls_congr hrows.symm hcs
    refine ⟨hresults, hlast, ?_⟩
    rintro pre nodeUuid serviceDigest info now post rfl
    have hno := hcs (.upsertNode nodeUuid serviceDigest info now) (by simp)
    cases hno

/-! ## A fresh file -/

theorem distinct_of_map {g : NodeRow → NodeRow}
    (hrows : t.clientNodes.rows = s.clientNodes.rows.map g)
    (hg : ∀ r, (g r).nodeUuid = r.nodeUuid) (h : s.Distinct) : t.Distinct := by
  intro r hr r' hr' u hu hu'
  rw [hrows] at hr hr'
  obtain ⟨r₀, hr₀, rfl⟩ := List.mem_map.mp hr
  obtain ⟨r₀', hr₀', rfl⟩ := List.mem_map.mp hr'
  rw [hg] at hu hu'
  rw [h r₀ hr₀ r₀' hr₀' u hu hu']

theorem nodeRow?_none {nodeUuid : String} (h : s.nodeRow? nodeUuid = none) :
    ∀ r ∈ s.clientNodes.rows, r.nodeUuid ≠ some nodeUuid := by
  intro r hr hu
  exact List.find?_eq_none.mp h r hr (beq_iff_eq.mpr hu)

/-- An `upsert_node` that succeeds writes one row. -/
theorem upsertNode_spec {nodeUuid serviceDigest : String} {info : NodeInfo} {now : Int}
    (h : s.Distinct) (hupsert : s.upsertNode nodeUuid serviceDigest info now = some t) :
    t.Distinct ∧ OneRow nodeUuid s.clientNodes.rows t.clientNodes.rows := by
  unfold upsertNode at hupsert
  split at hupsert
  · cases hfind : s.nodeRow? nodeUuid with
    | some r =>
        rw [hfind] at hupsert
        obtain rfl := Option.some.inj hupsert
        have hr := List.mem_of_find?_eq_some hfind
        have hu : r.nodeUuid = some nodeUuid := beq_iff_eq.mp
          (List.find?_some (p := fun r : NodeRow => r.nodeUuid == some nodeUuid) hfind)
        let written : NodeRow :=
          { r with info := info, authDigest := some serviceDigest, status := .online,
                   lastSeen := now }
        refine ⟨distinct_of_map rfl (fun r => by split <;> rfl) h,
          .inr ⟨r, hr, written, hu, hu, rfl, List.map_congr_left fun x hx => ?_⟩⟩
        by_cases hid : x.id = r.id
        · obtain rfl := Table.eq_of_key hx hr hid
          rw [if_pos (beq_iff_eq.mpr hu), if_pos rfl]
        · have hother : x.nodeUuid ≠ some nodeUuid := fun hx' =>
            hid (congrArg NodeRow.id (h x hx r hr nodeUuid hx' hu))
          rw [if_neg (by rwa [beq_iff_eq]), if_neg hid]
    | none =>
        rw [hfind] at hupsert
        obtain rfl := Option.some.inj hupsert
        have hnone := nodeRow?_none hfind
        refine ⟨fun r hr r' hr' u hu hu' => ?_, .inl ⟨_, rfl, rfl, hnone⟩⟩
        rcases Table.mem_insert.mp hr with hold | rfl <;>
          rcases Table.mem_insert.mp hr' with hold' | rfl
        · exact h r hold r' hold' u hu hu'
        · exact absurd (hu.trans hu'.symm) (hnone r hold)
        · exact absurd (hu'.trans hu.symm) (hnone r' hold')
        · rfl
  · cases hupsert

theorem call_distinct (h : s.Distinct) (c : NodeCall) : (s.call c).2.Distinct := by
  cases c with
  | upsertNode nodeUuid serviceDigest info now =>
      cases hupsert : s.upsertNode nodeUuid serviceDigest info now with
      | none =>
          rw [call, hupsert]
          exact h
      | some t =>
          rw [call, hupsert]
          exact (upsertNode_spec h hupsert).1
  | setNodeOffline nodeUuid => exact distinct_of_map rfl (fun r => by split <;> rfl) h
  | getNodeByUuid nodeUuid => exact h

theorem calls_distinct (h : s.Distinct) (cs : List NodeCall) : (s.calls cs).2.Distinct := by
  induction cs generalizing s with
  | nil => exact h
  | cons c cs ih => exact ih (call_distinct h c)

/-- A fresh file serves every sequence of calls so. -/
theorem servesAs_self (hunique : s.schema = .unique) (hdistinct : s.Distinct)
    (cs : List NodeCall) : s.ServesAs s cs := by
  refine ⟨rfl, rfl, fun pre nodeUuid serviceDigest info now post _ => ?_⟩
  obtain ⟨t, hupsert⟩ := upsertNode_of_unique ((s.calls_schema pre).trans hunique) nodeUuid
    serviceDigest info now
  exact ⟨t, hupsert, (upsertNode_spec (calls_distinct hdistinct pre) hupsert).2⟩

/-! ## A node that reconnects after the upgrade -/

/-- The old file after its migration, and a fresh file with the same rows. -/
def upgraded : Stored := (oldFile.migrate sampleUuid).getD oldFile

def freshCopy : Stored :=
  { upgraded with schema := .unique, noColumn := fun h => by cases h }

/-- The node comes back with the uuid that it was given. -/
def reconnect : List NodeCall :=
  [.upsertNode (sampleUuid 0) "9f86d081" ⟨"alpha", "linux", "x86_64", "27", 3000, 3999, 4, 8192⟩ 1,
   .getNodeByUuid (sampleUuid 0)]

theorem servesAs_iff_offline :
    upgraded.ServesAs freshCopy
      [.setNodeOffline (sampleUuid 0), .getNodeByUuid (sampleUuid 0)] := by
  have hlegacy : oldFile.schema = .legacy := rfl
  have hmigrate : oldFile.migrate sampleUuid = some upgraded := rfl
  have hfresh : freshCopy.schema = .unique := rfl
  have hrows : freshCopy.clientNodes.rows = upgraded.clientNodes.rows := rfl
  exact (servesAs_iff hlegacy hmigrate hfresh hrows _).mpr (by decide)

theorem upgraded_reconnect_fails : ¬upgraded.ServesAs freshCopy reconnect := by
  intro h
  have hanswers := h.results
  revert hanswers
  decide

end Stored

end Kdct
