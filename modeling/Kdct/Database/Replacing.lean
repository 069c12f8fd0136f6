/-
Statements that replace rows (`set_bridge_envs` and `insert_image` in
`crates/kdcts/src/db.rs`).

Both delete before they insert.  An environment is replaced in several statements, of
which the last may fail after the first has run; an image is replaced in one, but the
foreign keys of the connections follow the deletion.
-/
import Kdct.Database

namespace Kdct

namespace Database

/-! ## Environments -/

/-- Whether `set_bridge_envs` returns `Ok`. -/
def setBridgeEnvsOk (db : Database) (bridgeId : RowId) (envs : List (String × String)) :
    Nat → Bool
  | 0 => false
  | good + 1 =>
      ({ db with bridgeEnvs := db.bridgeEnvs.deleteWhere fun r => r.bridgeId == bridgeId }
        |>.insertBridgeEnvs bridgeId envs good).1

/-- The environment is the given one after a success and the old one after a failure. -/
def SetsAtomically (db : Database) (bridgeId : RowId) (envs : List (String × String))
    (good : Nat) : Prop :=
  if db.setBridgeEnvsOk bridgeId envs good then
    ((db.setBridgeEnvs bridgeId envs good).getBridgeEnvs bridgeId).Perm envs
  else
    ((db.setBridgeEnvs bridgeId envs good).getBridgeEnvs bridgeId).Perm
      (db.getBridgeEnvs bridgeId)

instance (db : Database) (bridgeId : RowId) (envs : List (String × String)) (good : Nat) :
    Decidable (db.SetsAtomically bridgeId envs good) := by
  unfold SetsAtomically
  infer_instance

/-- The pairs before the first that repeats a key. -/
def distinctPrefix (seen : List String) : List (String × String) → List (String × String)
  | [] => []
  | (key, value) :: rest =>
      if key ∈ seen then [] else (key, value) :: distinctPrefix (key :: seen) rest

/-- The environment of a bridge, in the order of its rows. -/
def envPairs (db : Database) (bridgeId : RowId) : List (String × String) :=
  (db.bridgeEnvs.rows.filter fun r => r.bridgeId == bridgeId).map fun r => (r.key, r.value)

variable {db db' : Database} {bridgeId : RowId} {key value : String}
  {envs : List (String × String)} {good : Nat}

theorem getBridgeEnvs_perm (db : Database) (bridgeId : RowId) :
    (db.getBridgeEnvs bridgeId).Perm (db.envPairs bridgeId) :=
  (List.perm_insertionSort _ _).map _

theorem insertBridgeEnv_none (hbridge : (db.bridges.find? bridgeId).isSome) :
    db.insertBridgeEnv bridgeId key value = none ↔ key ∈ (db.envPairs bridgeId).map Prod.fst := by
  unfold insertBridgeEnv envPairs
  rw [if_neg (by rw [Option.isNone_iff_eq_none]; exact Option.isSome_iff_ne_none.mp hbridge)]
  simp [List.any_eq_true, and_assoc]

theorem insertBridgeEnv_some (h : db.insertBridgeEnv bridgeId key value = some db') :
    db'.bridges = db.bridges ∧ db'.envPairs bridgeId = db.envPairs bridgeId ++ [(key, value)] := by
  unfold insertBridgeEnv at h
  repeat' split at h
  · cases h
  · cases h
  · obtain rfl := Option.some.inj h
    refine ⟨rfl, ?_⟩
    simp [envPairs, Table.insert, List.filter_append]

/-- The inserts stop at the first repeated key or failing statement. -/
theorem insertBridgeEnvs_spec (envs : List (String × String)) (seen : List String) (good : Nat)
    (hbridge : (db.bridges.find? bridgeId).isSome)
    (hseen : ∀ k, k ∈ seen ↔ k ∈ (db.envPairs bridgeId).map Prod.fst) :
    (db.insertBridgeEnvs bridgeId envs good).2.envPairs bridgeId =
        db.envPairs bridgeId ++ (distinctPrefix seen envs).take good ∧
      ((db.insertBridgeEnvs bridgeId envs good).1 = true ↔
        (distinctPrefix seen envs).take good = envs) := by
  induction envs generalizing db seen good with
  | nil =>
      cases good <;> simp [insertBridgeEnvs, distinctPrefix]
  | cons pair rest ih =>
      obtain ⟨key, value⟩ := pair
      cases good with
      | zero => simp [insertBridgeEnvs]
      | succ good =>
          rw [insertBridgeEnvs, distinctPrefix]
          cases hinsert : db.insertBridgeEnv bridgeId key value with
          | none =>
              rw [if_pos ((hseen key).mpr ((insertBridgeEnv_none hbridge).mp hinsert))]
              simp
          | some db' =>
              obtain ⟨hbridges, hpairs⟩ := insertBridgeEnv_some hinsert
              have hnew : key ∉ seen := by
                intro hmem
                rw [(insertBridgeEnv_none hbridge).mpr ((hseen key).mp hmem)] at hinsert
                cases hinsert
              have hseen' : ∀ k, k ∈ key :: seen ↔ k ∈ (db'.envPairs bridgeId).map Prod.fst := by
                intro k
                rw [hpairs, List.map_append, List.mem_append, List.mem_cons, hseen k, or_comm]
                simp
              obtain ⟨henv, hok⟩ := ih (key :: seen) good (hbridges ▸ hbridge) hseen'
              rw [if_neg hnew, List.take_succ_cons]
              refine ⟨?_, ?_⟩
              · show (db'.insertBridgeEnvs bridgeId rest good).2.envPairs bridgeId = _
                rw [henv, hpairs, List.append_assoc]
                rfl
              · rw [List.cons_inj_right]
                exact hok

theorem distinctPrefix_eq_self {seen : List String} : distinctPrefix seen envs = envs ↔
    (envs.map Prod.fst).Nodup ∧ ∀ k ∈ envs.map Prod.fst, k ∉ seen := by
  induction envs generalizing seen with
  | nil => simp [distinctPrefix]
  | cons pair rest ih =>
      obtain ⟨key, value⟩ := pair
      rw [distinctPrefix, List.map_cons, List.nodup_cons, List.forall_mem_cons]
      split
      · rename_i hmem
        simp [hmem]
      · rename_i hnew
        rw [List.cons_inj_right, ih]
        constructor
        · rintro ⟨hnodup, hseen⟩
          refine ⟨⟨fun hin => ?_, hnodup⟩, hnew, fun k hk hin => ?_⟩
          · exact hseen key hin List.mem_cons_self
          · exact hseen k hk (List.mem_cons_of_mem _ hin)
        · rintro ⟨⟨hnot, hnodup⟩, -, hseen⟩
          refine ⟨hnodup, fun k hk hin => ?_⟩
          rcases List.mem_cons.mp hin with rfl | hin
          · exact hnot hk
          · exact hseen k hk hin

theorem distinctPrefix_length {seen : List String} :
    (distinctPrefix seen envs).length ≤ envs.length := by
  induction envs generalizing seen with
  | nil => exact Nat.le_refl 0
  | cons pair rest ih =>
      obtain ⟨key, value⟩ := pair
      rw [distinctPrefix]
      split
      · exact Nat.zero_le _
      · exact Nat.succ_le_succ ih

theorem take_distinctPrefix_eq_self : (distinctPrefix [] envs).take good = envs ↔
    (envs.map Prod.fst).Nodup ∧ envs.length ≤ good := by
  have hself : distinctPrefix [] envs = envs ↔ (envs.map Prod.fst).Nodup := by
    rw [distinctPrefix_eq_self]
    simp
  constructor
  · intro h
    have hlen := congrArg List.length h
    rw [List.length_take] at hlen
    have hle : (distinctPrefix [] envs).length ≤ envs.length := distinctPrefix_length
    have htake : (distinctPrefix [] envs).take good = distinctPrefix [] envs :=
      List.take_of_length_le (by omega)
    refine ⟨hself.mp (htake ▸ h), ?_⟩
    omega
  · rintro ⟨hnodup, hlen⟩
    rw [hself.mpr hnodup]
    exact List.take_of_length_le hlen

theorem setBridgeEnvs_spec (envs : List (String × String)) (good : Nat)
    (hbridge : (db.bridges.find? bridgeId).isSome) :
    (db.setBridgeEnvs bridgeId envs (good + 1)).envPairs bridgeId =
        (distinctPrefix [] envs).take good ∧
      (db.setBridgeEnvsOk bridgeId envs (good + 1) = true ↔
        (envs.map Prod.fst).Nodup ∧ envs.length ≤ good) := by
  let cleared : Database :=
    { db with bridgeEnvs := db.bridgeEnvs.deleteWhere fun r => r.bridgeId == bridgeId }
  have hnone : cleared.envPairs bridgeId = [] := by
    simp [envPairs, cleared, Table.deleteWhere, List.filter_filter]
  have hcleared : (cleared.bridges.find? bridgeId).isSome := hbridge
  obtain ⟨henv, hok⟩ := insertBridgeEnvs_spec envs [] good hcleared (by simp [hnone])
  rw [hnone, List.nil_append] at henv
  exact ⟨henv, hok.trans take_distinctPrefix_eq_self⟩

/-- An environment is replaced atomically exactly if the first statement fails, none
does and no key is repeated, or the old environment happens to be what is inserted
before the failure. -/
theorem setsAtomically_iff (hbridge : (db.bridges.find? bridgeId).isSome) :
    db.SetsAtomically bridgeId envs good ↔
      good = 0 ∨ ((envs.map Prod.fst).Nodup ∧ envs.length < good) ∨
        (db.getBridgeEnvs bridgeId).Perm ((distinctPrefix [] envs).take (good - 1)) := by
  unfold SetsAtomically
  cases good with
  | zero => exact iff_of_true (List.Perm.refl _) (.inl rfl)
  | succ good =>
      obtain ⟨henv, hok⟩ := setBridgeEnvs_spec envs good hbridge
      have hafter := getBridgeEnvs_perm (db.setBridgeEnvs bridgeId envs (good + 1)) bridgeId
      rw [henv] at hafter
      rw [Nat.add_sub_cancel, Nat.lt_succ_iff]
      split
      · rename_i hsucceeds
        have hboth := hok.mp hsucceeds
        rw [take_distinctPrefix_eq_self.mpr hboth] at hafter
        exact iff_of_true hafter (.inr (.inl hboth))
      · rename_i hfails
        constructor
        · exact fun h => .inr (.inr (h.symm.trans hafter))
        · rintro (h | h | h)
          · cases h
          · exact absurd (hok.mpr h) hfails
          · exact hafter.trans h.symm

/-- A bridge with one variable. -/
def oneEnv : Option Database :=
  (empty.insertBridge "web").map fun db => db.setBridgeEnvs 1 [("PORT", "80")] 9

theorem setsAtomically_iff_oneEnv : ∃ db, oneEnv = some db ∧
    db.SetsAtomically 1 [("A", "1"), ("B", "2")] 3 :=
  ⟨_, rfl, (setsAtomically_iff (by decide)).mpr (.inr (.inl (by decide)))⟩

/-- A repeated key loses the old environment and keeps the first pair. -/
theorem repeatedKey_halfReplaces : ∃ db, oneEnv = some db ∧
    db.setBridgeEnvsOk 1 [("A", "1"), ("A", "2")] 3 = false ∧
      db.getBridgeEnvs 1 = [("PORT", "80")] ∧
      (db.setBridgeEnvs 1 [("A", "1"), ("A", "2")] 3).getBridgeEnvs 1 = [("A", "1")] ∧
      ¬db.SetsAtomically 1 [("A", "1"), ("A", "2")] 3 :=
  ⟨_, rfl, by decide, by decide, by decide, by decide⟩

/-! ## Images -/

/-- A connection has an image of the name. -/
def UsesImage (db : Database) (name : String) (c : Connection) : Prop :=
  ∃ id ∈ c.imageId, ∃ i ∈ db.images.find? id, i.name = name

instance (db : Database) (name : String) (c : Connection) : Decidable (db.UsesImage name c) :=
  inferInstanceAs (Decidable (∃ id ∈ c.imageId, ∃ i ∈ db.images.find? id, i.name = name))

/-- Connections and what may be deployed stay as they are, and one image has the name
and the new source. -/
structure KeepsUsers (db : Database) (name source sourceType : String) : Prop where
  connections : (db.insertImage name source sourceType).connections.rows = db.connections.rows
  connectable : (db.insertImage name source sourceType).getConnectableConnections =
    db.getConnectableConnections
  image : ∃ image, image.source = source ∧ image.sourceType = sourceType ∧
    ∀ i, i ∈ (db.insertImage name source sourceType).images.rows ∧ i.name = name ↔ i = image

variable {name source sourceType : String}

theorem insertImage_image : ∃ image : ImageNode, image.source = source ∧
    image.sourceType = sourceType ∧
      ∀ i, i ∈ (db.insertImage name source sourceType).images.rows ∧ i.name = name ↔ i = image := by
  refine ⟨{ id := db.images.seq + 1, name := name, source := source, sourceType := sourceType },
    rfl, rfl, fun i => ?_⟩
  show i ∈ (Table.insert _ _ _).rows ∧ _ ↔ _
  rw [Table.mem_insert, Table.mem_deleteWhere]
  constructor
  · rintro ⟨⟨-, hne⟩ | rfl, hname⟩
    · rw [hname, beq_self_eq_true] at hne
      cases hne
    · rfl
  · rintro rfl
    exact ⟨.inr rfl, rfl⟩

theorem usesImage_iff {c : Connection} : db.UsesImage name c ↔
    (c.imageId.any fun i => (db.images.find? i).any fun r => r.name == name) = true := by
  unfold UsesImage
  simp [Option.any_eq_true]

/-- The connections of the replaced image lose it. -/
theorem insertImage_connections (source sourceType : String) :
    (db.insertImage name source sourceType).connections.rows = db.connections.rows ↔
      ∀ c ∈ db.connections.rows, ¬db.UsesImage name c := by
  show db.connections.rows.map _ = _ ↔ _
  conv_lhs => rw [← List.map_id db.connections.rows, List.map_map]
  rw [List.map_inj_left]
  refine forall₂_congr fun c _ => ?_
  rw [usesImage_iff, Function.comp_apply, id_eq]
  split
  · rename_i huses
    refine iff_of_false (fun heq => ?_) (not_not.mpr huses)
    have hnone : none = c.imageId := congrArg Connection.imageId heq
    dsimp only at huses
    rw [← hnone] at huses
    cases huses
  · rename_i huses
    exact iff_of_true rfl huses

/-- Loading an image under a name keeps its users exactly if it has none. -/
theorem keepsUsers_iff (db : Database) (name source sourceType : String) :
    db.KeepsUsers name source sourceType ↔
      ∀ c ∈ db.connections.rows, ¬db.UsesImage name c := by
  rw [← insertImage_connections source sourceType]
  refine ⟨KeepsUsers.connections, fun h => ⟨h, ?_, insertImage_image⟩⟩
  unfold getConnectableConnections
  rw [h]
  rfl

/-- A pending connection on a node that is online, and its image is loaded again. -/
def readyConnection : Database :=
  let db := ((empty.upsertNode "u" "d" "h" 3000 3999).insertImage "web" "nginx:1" "docker_hub")
  let db := (db.insertBridge "web").getD db |>.insertConnection "a"
  (db.updateConnection 1 (some (some 1)) (some (some 1)) (some (some 1))).getD db

/-- The connection loses its image and is deployed no more. -/
theorem reload_losesUsers : readyConnection.getConnectableConnections = [1] ∧
    (readyConnection.insertImage "web" "nginx:2" "docker_hub").getConnectableConnections = [] ∧
      ¬readyConnection.KeepsUsers "web" "nginx:2" "docker_hub" := by
  have hbefore : readyConnection.getConnectableConnections = [1] := by decide
  have hafter : (readyConnection.insertImage "web" "nginx:2"
      "docker_hub").getConnectableConnections = [] := by decide
  refine ⟨hbefore, hafter, fun h => ?_⟩
  have hsame := h.connectable
  rw [hbefore, hafter] at hsame
  cases hsame

end Database

end Kdct
