/-
What a stop takes from whom.

A stop looks its deployment up by name and node and removes what is on the ports it
finds there, whoever made it.  A `Footprint` is a tracker key with the ports under it.
Deploys that have recorded themselves, records, stops that have looked up their
deployment and rows that are deployed each have one, and `Parting` keeps those of
different connections apart from the moment a deploy records itself.
-/
import Kdct.Server.Live

namespace Kdct

structure Footprint where
  key : DeploymentKey
  ports : List Port
  deriving DecidableEq

namespace Footprint

def covers (F : Footprint) : Entry → Bool
  | .record key _ => key = F.key
  | .route _ port | .forward port _ => port ∈ F.ports

/-- No entry is covered by both. -/
def Apart (F G : Footprint) : Prop := F.key ≠ G.key ∧ ∀ port ∈ F.ports, port ∉ G.ports

instance (F G : Footprint) : Decidable (F.Apart G) :=
  inferInstanceAs (Decidable (_ ∧ _))

variable {F G : Footprint} {e : Entry}

theorem Apart.covers (h : F.Apart G) (hF : F.covers e = true) : G.covers e = false := by
  cases e with
  | record key d =>
      have hkey : key = F.key := by simpa [Footprint.covers] using hF
      simpa [Footprint.covers, hkey] using h.1
  | route path port | forward port sender =>
      have hport : port ∈ F.ports := by simpa [Footprint.covers] using hF
      simpa [Footprint.covers] using h.2 port hport

theorem covers_mono (hkey : F.key = G.key) (hports : ∀ port ∈ F.ports, port ∈ G.ports)
    (h : F.covers e = true) : G.covers e = true := by
  cases e with
  | record key d => simpa [covers, hkey] using h
  | route path port | forward port sender =>
      have hport : port ∈ F.ports := by simpa [covers] using h
      simpa [covers] using hports port hport

end Footprint

def Plan.footprint (plan : Plan) : Footprint where
  key := plan.key
  ports := plan.serverPorts

/-- The deploy of a task that has recorded itself. -/
def DeployPc.recorded? : DeployPc → Option Deploy
  | .lock d | .register d _ | .push d _ _ | .finish d => some d
  | _ => none

/-- What a stop that has looked up its deployment is about to remove. -/
def StopPc.footprint? : StopPc → Option Footprint
  | .lock info nodeUuid d | .forwards info nodeUuid d =>
      some { key := (info.connectionName, nodeUuid), ports := d.serverPorts }
  | .release info nodeUuid d rest =>
      some { key := (info.connectionName, nodeUuid), ports := rest ++ d.serverPorts }
  | .untrack info nodeUuid => some { key := (info.connectionName, nodeUuid), ports := [] }
  | _ => none

/-- Under which key a stop of the connection looks. -/
def Database.key? (db : Database) (c : Connection) : Option DeploymentKey :=
  (c.nodeId.bind db.nodeUuid?).map fun uuid => (c.name, uuid)

/-- The connection whose deploy made the entry. -/
def Shared.owner (s : Shared) (e : Entry) : Option RowId := (s.creator e).map Prod.snd

namespace Server

variable (s : Server)

/-- The footprints of connections. -/
def footprints : List (RowId × Footprint) :=
  ((List.range s.nextCall).filterMap fun call =>
      (s.deploys call).bind fun q => q.2.recorded?.map fun d => (q.1, d.plan.footprint)) ++
    (s.stopping.bind fun q => q.2.2.footprint?.map fun F => (q.2.1, F)).toList ++
      (s.shared.tracker.entries.filterMap fun r => (s.shared.owner (.record r.1 r.2)).map fun id =>
        (id, { key := r.1, ports := r.2.serverPorts })) ++
        s.shared.db.connections.rows.filterMap fun c =>
          if c.status = .deployed then
            (s.shared.db.key? c).map fun key => (c.id, { key := key, ports := [] })
          else none

/-- A deploy of the connection has recorded itself and goes on. -/
def Recorded (id : RowId) : Prop := s.Running (fun pc => pc.recorded?.isSome) id

/-- Nothing of the connection is there. -/
def Bare (id : RowId) : Prop := ∀ e ∈ s.shared.entries, s.shared.owner e ≠ some id

/-- A stop takes what its connection has made, all of it, and nothing else. -/
structure StopsOwn : Prop where
  others : ∀ call id pc, s.stopping = some (call, id, pc) → ∀ fault t next,
    s.shared.stopStep call id fault pc = some (t, next) → ∀ e ∈ s.shared.entries,
      s.shared.owner e ≠ some id → e ∈ t.entries ∧ t.owner e = s.shared.owner e
  own : ∀ call id info, s.stopping = some (call, id, .finish info) → s.Bare id

/-! ## What the steps have to respect -/

/-- The deploy may record itself: other connections stay off its key and its ports, and
there is nothing of its own beside them. -/
structure Admits (id : RowId) (d : Deploy) : Prop where
  apart : ∀ q ∈ s.footprints, q.1 ≠ id → q.2.Apart d.plan.footprint
  entries : ∀ e ∈ s.shared.entries,
    d.plan.footprint.covers e = true ↔ s.shared.owner e = some id
  alone : ¬s.Recorded id
  unstopped : s.foundStop id = none
  row : ∀ c ∈ s.shared.db.connections.rows, c.id = id → c.status = .deployed →
    s.shared.db.key? c = some d.plan.key

/-- A deploy that records itself. -/
def PartsRecord (label : Label) : Prop :=
  match s.movesDeploy label with
  | some (_, id, .record d) => s.Admits id d
  | _ => True

/-- A stop that looks up its deployment: its row is still what it has read. -/
def PartsStop (label : Label) : Prop :=
  match s.movesStop label with
  | some (_, id, .node info) =>
      label.fault = true ∨ info.nodeId.bind s.shared.db.getNodeById = none →
        ¬s.Recorded id ∧ s.Bare id
  | some (_, id, .find info nodeUuid) =>
      ¬s.Recorded id ∧
        ((∃ c ∈ s.shared.db.connections.rows, c.id = id ∧ c.status = .deployed ∧
            s.shared.db.key? c = some (info.connectionName, nodeUuid)) ∨
          s.shared.tracker.lookup (info.connectionName, nodeUuid) = none ∧ s.Bare id)
  | _ => True

/-- A disconnect that erases a record: its connection has been set back. -/
def PartsSync (label : Label) : Prop :=
  match label, s.sync with
  | .sync _, .keys _ (key :: _) => ∀ dep ∈ s.shared.tracker.lookup key,
      ∀ id ∈ s.shared.owner (.record key dep),
        ¬s.Recorded id ∧ (s.shared.db.Deployed id → (s.foundStop id).isSome = true)
  | _, _ => True

/-- A node slot is only written while the connection is not deployed. -/
def PartsRow (label : Label) : Prop :=
  match label with
  | .api false => ∀ id ∈ s.api.patches, ¬s.shared.db.Deployed id
  | _ => True

structure Parting (label : Label) : Prop where
  record : s.PartsRecord label
  stop : s.PartsStop label
  sync : s.PartsSync label
  row : s.PartsRow label

section

variable {s : Server} {label : Label} {id : RowId}

instance : Decidable (s.Recorded id) := inferInstanceAs (Decidable (s.Running _ id))

instance : Decidable (s.Bare id) := by
  unfold Bare
  infer_instance

instance {d : Deploy} : Decidable (s.Admits id d) :=
  decidable_of_iff ((∀ q ∈ s.footprints, q.1 ≠ id → q.2.Apart d.plan.footprint) ∧
      (∀ e ∈ s.shared.entries, d.plan.footprint.covers e = true ↔ s.shared.owner e = some id) ∧
      ¬s.Recorded id ∧ s.foundStop id = none ∧
      ∀ c ∈ s.shared.db.connections.rows, c.id = id → c.status = .deployed →
        s.shared.db.key? c = some d.plan.key)
    ⟨fun ⟨ha, he, hr, hs, hc⟩ => ⟨ha, he, hr, hs, hc⟩,
      fun ⟨ha, he, hr, hs, hc⟩ => ⟨ha, he, hr, hs, hc⟩⟩

instance : Decidable (s.PartsRecord label) := by
  unfold PartsRecord
  rcases s.movesDeploy label with _ | ⟨_, id, pc⟩
  · exact .isTrue trivial
  · rcases pc with _ | _
    case record d => exact inferInstanceAs (Decidable (s.Admits id d))
    all_goals exact .isTrue trivial

instance : Decidable (s.PartsStop label) := by
  unfold PartsStop
  rcases s.movesStop label with _ | ⟨_, id, pc⟩
  · exact .isTrue trivial
  · rcases pc with _ | _
    case node | find => dsimp only; infer_instance
    all_goals exact .isTrue trivial

instance : Decidable (s.PartsSync label) := by
  unfold PartsSync
  rcases label with _ | _
  case sync fault =>
    rcases s.sync with _ | _
    case keys uuid rest => rcases rest with _ | _ <;> dsimp only <;> infer_instance
    all_goals exact .isTrue trivial
  all_goals exact .isTrue trivial

instance : Decidable (s.PartsRow label) := by
  unfold PartsRow
  rcases label with _ | _
  case api fault => rcases fault with _ | _ <;> dsimp only <;> infer_instance
  all_goals exact .isTrue trivial

instance : Decidable (s.Parting label) :=
  decidable_of_iff (s.PartsRecord label ∧ s.PartsStop label ∧ s.PartsSync label ∧ s.PartsRow label)
    ⟨fun ⟨hd, hs, hy, hr⟩ => ⟨hd, hs, hy, hr⟩, fun ⟨hd, hs, hy, hr⟩ => ⟨hd, hs, hy, hr⟩⟩

end

end Server

/-! ## Names and nodes -/

namespace Database

/-- A connection keeps its name, and a new one gets a new id. -/
structure KeepsNames (db db' : Database) : Prop where
  rows : ∀ c' ∈ db'.connections.rows,
    (∃ c ∈ db.connections.rows, c.id = c'.id ∧ c.name = c'.name) ∨ db.connections.seq < c'.id
  seq : db.connections.seq ≤ db'.connections.seq

/-- The connection, if it is there, has the name. -/
def Names (db : Database) (id : RowId) (name : String) : Prop :=
  id ≤ db.connections.seq ∧ ∀ c ∈ db.connections.rows, c.id = id → c.name = name

variable {db db' : Database} {id : RowId}

theorem Names.mono {name : String} (h : db.Names id name) (hkeeps : db.KeepsNames db') :
    db'.Names id name := by
  refine ⟨h.1.trans hkeeps.seq, fun c' hc' hid => ?_⟩
  rcases hkeeps.rows c' hc' with ⟨c, hc, hcid, hname⟩ | hnew
  · exact hname ▸ h.2 c hc (hcid.trans hid)
  · exact absurd (hid ▸ h.1) (Nat.not_le.mpr hnew)

theorem names_of_getConnection {info : ConnectionInfo} (h : db.getConnection id = some info) :
    db.Names id info.row.name := by
  obtain ⟨hrow, hid⟩ := getConnection_row h
  refine ⟨hid ▸ db.connections.bounded info.row hrow, fun c hc hcid => ?_⟩
  rw [Table.eq_of_key hc hrow (hcid.trans hid.symm)]

theorem nodeUuid?_of_getNodeById {node : ClientNode} (h : db.getNodeById id = some node) :
    db.nodeUuid? node.id = some node.nodeUuid := by
  rw [(Table.find?_eq_some.mp h).2, nodeUuid?, h]
  rfl

end Database

/-- The name a deploy has read. -/
def DeployPc.name? : DeployPc → Option String
  | .node info _ _ | .image info _ _ | .ports info _ _ _ => some info.row.name
  | .conflicts plan | .registry plan => some plan.connectionName
  | pc => pc.deploy?.map fun d => d.plan.connectionName

/-- The node a deploy has read. -/
def DeployPc.node? : DeployPc → Option ClientNode
  | .image _ _ n | .ports _ _ n _ => some n
  | .conflicts plan | .registry plan => some plan.node
  | pc => pc.deploy?.map fun d => d.plan.node

/-- What a deploy has read that does not change. -/
structure DeployPc.Named (db : Database) (id : RowId) (pc : DeployPc) : Prop where
  name : ∀ name ∈ pc.name?, db.Names id name
  uuid : ∀ n ∈ pc.node?, db.nodeUuid? n.id = some n.nodeUuid

namespace Shared

variable {s t : Shared} {call : CallId} {id : RowId} {fault : Bool}

theorem DeployStep.named {pc next : DeployPc} (h : DeployStep s call id fault pc t (.goto next))
    (hpc : pc.Named s.db id) : next.Named s.db id := by
  cases h
  case checked => exact ⟨fun _ h => (by cases h), fun _ h => (by cases h)⟩
  case connection info bridgeId nodeId hrow hbridge hnode =>
    refine ⟨?_, fun _ h => (by cases h)⟩
    rintro name ⟨⟩
    exact Database.names_of_getConnection hrow
  case node info bridgeId nodeId node hnode honline =>
    refine ⟨hpc.name, ?_⟩
    rintro _ ⟨⟩
    exact Database.nodeUuid?_of_getNodeById hnode
  case ports info bridgeId node image plan hplan =>
    rw [(planPorts_ok hplan).1]
    exact ⟨hpc.name, hpc.uuid⟩
  all_goals exact ⟨hpc.name, hpc.uuid⟩

end Shared

namespace Server

variable {ports : FreshPool} {localAddr : LocalAddr} {s s' : Server} {label : Label}

theorem Move.keepsNames (h : s.Move ports localAddr label s') :
    s.shared.db.KeepsNames s'.shared.db := by
  rcases h.continues with ⟨-, hcontinues⟩ | ⟨call, id, d, -, -, -, hset, -⟩
  · exact ⟨hcontinues.names, hcontinues.seq⟩
  · refine ⟨fun c' hc' => .inl ?_, ?_⟩
    · rcases Database.mem_updateConnectionNode hset hc' with
        ⟨-, hold⟩ | ⟨hid, -, -, c, hc, hcid, hname⟩
      · exact ⟨c', hold, rfl, rfl⟩
      · exact ⟨c, hc, hcid.trans hid.symm, hname⟩
    · rw [Database.updateConnectionNode_eq hset]
      exact Nat.le_refl _

/-- What every deploy has read is still so. -/
def Named (s : Server) : Prop :=
  ∀ call id pc, s.deploys call = some (id, pc) → pc.Named s.shared.db id

theorem Move.named (h : s.Move ports localAddr label s') (hs : s.Named) : s'.Named := by
  intro call id pc hpc
  obtain ⟨hname, hnode⟩ := h.each (Q := fun _ id pc => pc.Named s.shared.db id)
    (fun _ _ => ⟨fun _ h => (by cases h), fun _ h => (by cases h)⟩)
    (fun hstep hpc => hstep.named hpc) hs call id pc hpc
  exact ⟨fun name hin => (hname name hin).mono h.keepsNames,
    fun n hin => h.keepsNodes _ _ (hnode n hin)⟩

/-! ## Who has to do with an entry -/

theorem assignPorts_snd (clientPort : Port) (ports : List BridgePort) :
    (Plan.assignPorts clientPort ports).map Prod.snd = ports.map fun p => p.poolPort.getD 0 := by
  induction ports generalizing clientPort with
  | nil => rfl
  | cons p ps ih => exact congrArg _ (ih _)

theorem mem_serverPorts {plan : Plan} {p : BridgePort × Port} (hp : p ∈ plan.forwards) :
    p.1.poolPort.getD 0 ∈ plan.serverPorts := by
  rw [Plan.serverPorts, Plan.portMap, assignPorts_snd]
  exact List.mem_map_of_mem (List.of_mem_zip hp).1

/-- What a deploy adds is in its footprint. -/
theorem covers_of_adds {pc : DeployPc} {d : Deploy} {e : Entry} (hends : pc.Ends)
    (hd : pc.deploy? = some d) (h : pc.adds e = true) : d.plan.footprint.covers e = true := by
  cases pc with
  | record d' =>
      obtain rfl := Option.some.inj hd
      obtain rfl : e = .record d'.plan.key d'.plan.deployment := by simpa [DeployPc.adds] using h
      simp [Footprint.covers, Plan.footprint]
  | register d' rest =>
      obtain rfl := Option.some.inj hd
      cases rest with
      | nil => cases h
      | cons p rest =>
          cases e with
          | route path port =>
              obtain ⟨-, rfl⟩ : p.1.route = some path ∧ port = p.1.poolPort.getD 0 := by
                simpa [DeployPc.adds] using h
              exact decide_eq_true (mem_serverPorts (hends.subset List.mem_cons_self))
          | _ => cases h
  | push d' p rest =>
      obtain rfl := Option.some.inj hd
      obtain rfl : e = .forward (p.1.poolPort.getD 0) (d'.sender p.1) := by
        simpa [DeployPc.adds] using h
      exact decide_eq_true (mem_serverPorts (hends.subset List.mem_cons_self))
  | _ => cases h

/-- An entry is old, or a deploy has made it and goes on. -/
theorem Move.entries (h : s.Move ports localAddr label s') (hb : s.Belongs) {e : Entry}
    (he : e ∈ s'.shared.entries) :
    e ∈ s.shared.entries ∧ s'.shared.owner e = s.shared.owner e ∨
      ∃ call id pc pc', s.movesDeploy label = some (call, id, pc) ∧
        s.deploys call = some (id, pc) ∧ s'.deploys call = some (id, pc') ∧
          s.shared.DeployStep call id label.fault pc s'.shared (.goto pc') ∧
            pc.adds e = true ∧ pc'.enters = true ∧ s'.shared.owner e = some id := by
  have hshrinks : s.shared.Shrinks s'.shared →
      e ∈ s.shared.entries ∧ s'.shared.owner e = s.shared.owner e := fun hshrinks =>
    ⟨(hshrinks e he).1, by rw [Shared.owner, (hshrinks e he).2, Shared.owner]⟩
  cases h with
  | @deploy _ _ call id pc t next hmoves hpc hdeploy hshared hdeploys =>
      rw [hshared] at he ⊢
      rcases hdeploy.entries (hb call id pc hpc) e he with
        ⟨hold, hcreator⟩ | ⟨hadds, hcreator, pc', rfl, henters⟩
      · exact .inl ⟨hold, by rw [Shared.owner, hcreator, Shared.owner]⟩
      · refine .inr ⟨call, id, pc, pc', hmoves, hpc, ?_, hdeploy, hadds, henters, ?_⟩
        · rw [hdeploys, Function.update_self]
          rfl
        · rw [Shared.owner, hcreator]
          rfl
  | stop _ _ _ hstop hshared => exact .inl (hshrinks (hshared ▸ hstop.entries.1))
  | sync hsync hshared => exact .inl (hshrinks (hshared ▸ hsync.entries))
  | start _ hshared | startStop _ hshared => exact .inl (hshrinks (hshared ▸ .of_same rfl rfl))
  | @request fault r _ _ hshared =>
      obtain ⟨db, pool, hframe⟩ := s.shared.request_frame fault r
      exact .inl (hshrinks (by rw [hshared, hframe]; exact .of_same rfl rfl))
  | handler hhandler hshared =>
      obtain ⟨db, pool, hframe⟩ := Shared.handlerStep_frame hhandler
      exact .inl (hshrinks (by rw [hshared, hframe]; exact .of_same rfl rfl))
  | @event fault update _ _ hshared =>
      obtain ⟨clientNodes, hframe⟩ := s.shared.syncEvent_frame fault update
      exact .inl (hshrinks (by rw [hshared, hframe]; exact .of_same rfl rfl))
  | surroundings _ hsurr => exact .inl (hshrinks hsurr.entries)
  | restart => exact absurd he List.not_mem_nil

/-- Where the footprints of connections come from. -/
inductive HasFootprint (s : Server) : RowId → Footprint → Prop
  | deploy {call id pc d} (hpc : s.deploys call = some (id, pc)) (hd : pc.recorded? = some d) :
      HasFootprint s id d.plan.footprint
  | stop {call id pc F} (hpc : s.stopping = some (call, id, pc)) (hF : pc.footprint? = some F) :
      HasFootprint s id F
  | record {key dep id} (hdep : s.shared.tracker.lookup key = some dep)
      (howner : s.shared.owner (.record key dep) = some id) :
      HasFootprint s id { key := key, ports := dep.serverPorts }
  | row {c key} (hc : c ∈ s.shared.db.connections.rows) (hstatus : c.status = .deployed)
      (hkey : s.shared.db.key? c = some key) : HasFootprint s c.id { key := key, ports := [] }

theorem HasFootprint.mem (hf : s.Fresh) {id : RowId} {F : Footprint} (h : s.HasFootprint id F) :
    (id, F) ∈ s.footprints := by
  unfold footprints
  cases h with
  | @deploy call _ pc d hpc hd =>
      refine List.mem_append_left _ (List.mem_append_left _ (List.mem_append_left _ ?_))
      exact List.mem_filterMap.mpr ⟨call, List.mem_range.mpr (hf.lt hpc), by simp [hpc, hd]⟩
  | stop hpc hF =>
      refine List.mem_append_left _ (List.mem_append_left _ (List.mem_append_right _ ?_))
      simp [hpc, hF]
  | @record key dep _ hdep howner =>
      refine List.mem_append_left _ (List.mem_append_right _ ?_)
      exact List.mem_filterMap.mpr ⟨⟨key, dep⟩, AList.mem_lookup_iff.mp hdep, by simp [howner]⟩
  | @row c key hc hstatus hkey =>
      exact List.mem_append_right _ (List.mem_filterMap.mpr ⟨c, hc, by simp [hstatus, hkey]⟩)

/-- The connection has made the entry, or it is covered by one of its footprints. -/
def Touches (s : Server) (id : RowId) (e : Entry) : Prop :=
  (∃ F, s.HasFootprint id F ∧ F.covers e = true) ∨
    e ∈ s.shared.entries ∧ s.shared.owner e = some id

/-- What is still to be removed is covered. -/
theorem covers_of_removes {pc : StopPc} {e : Entry} (h : pc.removes e = true) :
    ∃ F, pc.footprint? = some F ∧ F.covers e = true := by
  cases pc
  case lock info nodeUuid d | forwards info nodeUuid d | untrack info nodeUuid =>
    refine ⟨_, rfl, ?_⟩
    cases e <;> first | exact h | cases h
  case release info nodeUuid d rest =>
    refine ⟨_, rfl, ?_⟩
    cases e with
    | record key dep => exact h
    | route path port | forward port sender =>
        have hport := of_decide_eq_true h
        simp [Footprint.covers, hport]
  all_goals cases e <;> cases h

theorem removes_of_drops {pc : StopPc} {e : Entry} (h : pc.drops e = true) :
    pc.removes e = true := by
  cases pc
  case release info nodeUuid d rest =>
    cases rest with
    | nil => cases e <;> cases h
    | cons port rest =>
        cases e with
        | route path p =>
            have hp := of_decide_eq_true h
            simp [StopPc.removes, hp]
        | _ => cases h
  all_goals cases e <;> first | exact h | cases h

/-! ## Every step -/

/-- A deploy that has recorded itself has all entries of its connection in its footprint. -/
structure Holds (s : Server) (id : RowId) (d : Deploy) : Prop where
  unstopped : s.foundStop id = none
  row : ∀ c ∈ s.shared.db.connections.rows, c.id = id → c.status = .deployed →
    s.shared.db.key? c = some d.plan.key
  record : s.shared.tracker.lookup d.plan.key = some d.plan.deployment
  entries : ∀ e ∈ s.shared.entries, s.shared.owner e = some id → d.plan.footprint.covers e = true

structure PartInv (s : Server) : Prop where
  fresh : s.Fresh
  belongs : s.Belongs
  ends : ∀ call id pc, s.deploys call = some (id, pc) → pc.Ends
  named : s.Named
  owned : ∀ e ∈ s.shared.entries, (s.shared.owner e).isSome = true
  /-- Two connections have nothing to do with the same entry. -/
  one : ∀ e i j, s.Touches i e → s.Touches j e → i = j
  holds : ∀ call id pc d, s.deploys call = some (id, pc) → pc.recorded? = some d → s.Holds id d
  alone : ∀ call call' id pc pc', s.deploys call = some (id, pc) →
    s.deploys call' = some (id, pc') →
    pc.recorded?.isSome = true → pc'.recorded?.isSome = true → call = call'
  stop : ∀ id pc, s.foundStop id = some pc → ∀ e ∈ s.shared.entries, s.shared.owner e = some id →
    pc.removes e = true
  row : ∀ c ∈ s.shared.db.connections.rows, c.status = .deployed → ∃ key,
    s.shared.db.key? c = some key ∧ (s.foundStop c.id = none → ∀ e ∈ s.shared.entries,
      s.shared.owner e = some c.id → ∃ dep, s.shared.tracker.lookup key = some dep ∧
        Footprint.covers { key := key, ports := dep.serverPorts } e = true)

theorem recorded_of_deploy {call : CallId} {id : RowId} {fault : Bool} {t : Shared}
    {pc pc' : DeployPc} {d : Deploy} (h : s.shared.DeployStep call id fault pc t (.goto pc'))
    (hd : pc'.recorded? = some d) : pc = .record d ∨ pc.recorded? = some d := by
  cases h
  case recorded d' hlock =>
    obtain rfl := Option.some.inj hd
    exact .inl rfl
  all_goals exact .inr hd

theorem Holds.of_recorded (h : s.PartInv) {id : RowId} (hid : s.Recorded id) :
    ∃ call pc d, s.deploys call = some (id, pc) ∧ pc.recorded? = some d ∧ s.Holds id d := by
  obtain ⟨call, -, ⟨i, pc⟩, hpc, rfl, hsome⟩ := hid
  obtain ⟨d, hd⟩ := Option.isSome_iff_exists.mp hsome
  exact ⟨call, pc, d, hpc, hd, h.holds call i pc d hpc hd⟩

theorem PartInv.recorded (h : s.PartInv) {call : CallId} {id : RowId} {pc : DeployPc} {d : Deploy}
    (hpc : s.deploys call = some (id, pc)) (hd : pc.recorded? = some d) : s.Recorded id :=
  ⟨call, h.fresh.lt hpc, (id, pc), hpc, rfl, Option.isSome_of_eq_some hd⟩

/-- A deploy adds its record, and then other entries. -/
theorem recorded_of_adds {pc : DeployPc} {e : Entry} (h : pc.adds e = true) :
    (∃ d, pc = .record d) ∨
      ∃ d, pc.recorded? = some d ∧ pc.deploy? = some d ∧ ∀ key dep, e ≠ .record key dep := by
  cases pc
  case record d => exact .inl ⟨d, rfl⟩
  case register d rest =>
    refine .inr ⟨d, rfl, rfl, ?_⟩
    rintro key dep rfl
    cases rest <;> cases h
  case push d p rest =>
    refine .inr ⟨d, rfl, rfl, ?_⟩
    rintro key dep rfl
    simp [DeployPc.adds] at h
  all_goals cases h

theorem footprint_of_stop {call : CallId} {id : RowId} {fault : Bool} {t : Shared} {pc pc' : StopPc}
    {F : Footprint} (h : s.shared.StopStep call id fault pc t (some pc'))
    (hF : pc'.footprint? = some F) :
    (∃ G, pc.footprint? = some G ∧ ∀ e, F.covers e = true → G.covers e = true) ∨
      ∃ info nodeUuid d, pc = .find info nodeUuid ∧
        s.shared.tracker.lookup (info.connectionName, nodeUuid) = some d ∧
          F = { key := (info.connectionName, nodeUuid), ports := d.serverPorts } := by
  cases h
  case found info nodeUuid d hlock hfound =>
    exact .inr ⟨info, nodeUuid, d, rfl, hfound, (Option.some.inj hF).symm⟩
  case locked | release | released | forwards =>
    obtain rfl := Option.some.inj hF
    exact .inl ⟨_, rfl, fun e => Footprint.covers_mono rfl (by simp +contextual)⟩
  all_goals cases hF

theorem Move.stopping (h : s.Move ports localAddr label s') {call : CallId} {id : RowId}
    {pc' : StopPc} (hpc' : s'.stopping = some (call, id, pc')) :
    s.stopping = some (call, id, pc') ∨ pc' = .start ∨
      ∃ pc, s.movesStop label = some (call, id, pc) ∧ s.stopping = some (call, id, pc) ∧
        s.shared.StopStep call id label.fault pc s'.shared (some pc') := by
  cases h with
  | @stop _ _ c i pc after t next _ hmoves hpc hstop hshared _ hstopping =>
      rw [hstopping] at hpc'
      obtain ⟨p, rfl, heq⟩ := Option.map_eq_some_iff.mp hpc'
      obtain ⟨rfl, rfl, rfl⟩ : c = call ∧ i = id ∧ p = pc' := by simpa using heq
      exact .inr (.inr ⟨pc, hmoves, hpc, hshared ▸ hstop⟩)
  | startStop _ _ _ _ hstopping =>
      rw [hstopping] at hpc'
      obtain ⟨-, heq⟩ := Prod.mk.inj (Option.some.inj hpc')
      exact .inr (.inl (Prod.mk.inj heq).2.symm)
  | request _ _ _ _ hstopping | handler _ _ _ _ hstopping =>
      rw [hstopping] at hpc'
      cases hpc'
  | restart => cases hpc'
  | deploy _ _ _ _ _ hstopping | start _ _ _ hstopping | event _ _ _ hstopping
  | sync _ _ _ hstopping | surroundings _ _ _ hstopping => exact .inl (hstopping ▸ hpc')

theorem foundStop_eq_some {id : RowId} {pc : StopPc} :
    s.foundStop id = some pc ↔ ∃ call, s.stopping = some (call, id, pc) ∧ pc.found = true := by
  unfold foundStop
  cases s.stopping with
  | none => simp
  | some q =>
      obtain ⟨call, i, p⟩ := q
      simp only [Option.bind_some, Option.ite_none_right_eq_some, Option.some.injEq, Prod.mk.injEq]
      grind

theorem key?_mono {db db' : Database} (hnodes : db.KeepsNodes db') {c c' : Connection}
    (hname : c'.name = c.name) (hnode : c'.nodeId = c.nodeId) {key : DeploymentKey}
    (hkey : db.key? c = some key) : db'.key? c' = some key := by
  obtain ⟨uuid, huuid, rfl⟩ := Option.map_eq_some_iff.mp hkey
  obtain ⟨n, hn, hnuuid⟩ := Option.bind_eq_some_iff.mp huuid
  refine Option.map_eq_some_iff.mpr ⟨uuid, ?_, by rw [hname]⟩
  rw [hnode, hn]
  exact hnodes n uuid hnuuid

/-- A write of slots that fails changes nothing. -/
theorem patches_of_fault {id : RowId} (h : s.step ports localAddr (.api true) = some s')
    (hpatches : s.api.patches = some id) : s'.shared = s.shared := by
  simp only [step, apiStep] at h
  unfold ApiPc.patches at hpatches
  split at hpatches
  · rename_i i slots hapi
    simp only [hapi] at h
    unfold Shared.handlerStep at h
    simp only [if_true] at h
    obtain rfl := Option.some.inj h
    rfl
  · rename_i i slots hapi
    simp only [hapi] at h
    unfold Shared.handlerStep at h
    simp only [if_true] at h
    split at h
    all_goals
      obtain rfl := Option.some.inj h
      rfl
  · cases hpatches

/-- A stop that has looked up its deployment touches only what its connection touches. -/
theorem PartInv.stopping_id (h : s.PartInv) {call : CallId} {id i : RowId} {pc : StopPc} {e : Entry}
    (hpc : s.stopping = some (call, i, pc)) (hremoves : pc.removes e = true)
    (htouches : s.Touches id e) : i = id ∧ s.foundStop id = some pc := by
  obtain ⟨F, hF, hcovers⟩ := covers_of_removes hremoves
  obtain rfl := h.one e i id (.inl ⟨F, .stop hpc hF, hcovers⟩) htouches
  refine ⟨rfl, ?_⟩
  rw [foundStop, hpc]
  refine if_pos ⟨rfl, ?_⟩
  cases pc <;> first | rfl | (cases e <;> cases hremoves)

section

variable (h : s.PartInv) (hC : s.Parting label) (hstep : s.step ports localAddr label = some s')
  (hmove : s.Move ports localAddr label s') (hne : label ≠ .restart)
  (hrecord : ∀ call id d, s.movesDeploy label ≠ some (call, id, .record d))

include hmove hrecord in
/-- No deploy but the one that records itself is new among those that have. -/
theorem recorded_before {call : CallId} {id : RowId} {pc' : DeployPc} {d : Deploy}
    (hpc' : s'.deploys call = some (id, pc')) (hd : pc'.recorded? = some d) :
    ∃ pc, s.deploys call = some (id, pc) ∧ pc.recorded? = some d := by
  cases hmove with
  | @deploy _ _ c i pc t next hmoves hpc hdeploy hshared hdeploys =>
      rw [hdeploys] at hpc'
      by_cases hc : call = c
      · subst hc
        obtain ⟨rfl, rfl⟩ := goto_of_update_self hpc'
        rcases recorded_of_deploy hdeploy hd with rfl | hd'
        · exact absurd hmoves (hrecord _ _ _)
        · exact ⟨pc, hpc, hd'⟩
      · rw [Function.update_of_ne hc] at hpc'
        exact ⟨pc', hpc', hd⟩
  | start _ _ hdeploys =>
      rw [hdeploys] at hpc'
      by_cases hc : call = s.nextCall
      · subst hc
        rw [Function.update_self] at hpc'
        obtain ⟨rfl, rfl⟩ := Prod.mk.inj (Option.some.inj hpc')
        cases hd
      · rw [Function.update_of_ne hc] at hpc'
        exact ⟨pc', hpc', hd⟩
  | restart => cases hpc'
  | stop _ _ _ _ _ hdeploys | startStop _ _ hdeploys | request _ _ hdeploys | handler _ _ hdeploys
  | event _ _ hdeploys | sync _ _ hdeploys | surroundings _ _ hdeploys =>
      rw [hdeploys] at hpc'
      exact ⟨pc', hpc', hd⟩

include h hC hmove hne hrecord in
/-- The record of a connection stays that a deploy or its row stands for. -/
theorem record_stays {key : DeploymentKey} {dep : ActiveDeployment} {id : RowId}
    (hdep : s.shared.tracker.lookup key = some dep) (htouches : s.Touches id (.record key dep))
    (hfound : s.foundStop id = none) (hstays : s.Recorded id ∨ s.shared.db.Deployed id) :
    s'.shared.tracker.lookup key = some dep := by
  have hmem := Shared.mem_entries_record.mpr hdep
  refine Shared.mem_entries_record.mp ((hmove.keeps hne) _ hmem ?_).1
  refine Bool.eq_false_iff.mpr fun hdrops => ?_
  rcases (Bool.or_eq_true _ _).mp hdrops with hdrops | hsync
  · rcases (Bool.or_eq_true _ _).mp hdrops with hdeploy | hstop
    · obtain ⟨⟨call, i, pc⟩, hmoves, hpc⟩ := (Option.any_eq_true _ _).mp hdeploy
      cases pc with
      | record d => exact hrecord call i d hmoves
      | _ => cases hpc
    · obtain ⟨⟨call, i, pc⟩, hmoves, hpc⟩ := (Option.any_eq_true _ _).mp hstop
      have hstopping : s.stopping = some (call, i, pc) := by
        cases label with
        | api fault => exact hmoves
        | _ => cases hmoves
      have hthis := (h.stopping_id hstopping (removes_of_drops hpc) htouches).2
      rw [hfound] at hthis
      cases hthis
  · cases label with
    | sync fault =>
        have hsyncC := hC.sync
        unfold PartsSync at hsyncC
        dsimp only at hsync
        split at hsyncC
        · rename_i uuid k rest _ hpc
          rw [hpc] at hsync
          obtain rfl : key = k := by simpa [SyncPc.drops] using hsync
          obtain ⟨i, hi⟩ := Option.isSome_iff_exists.mp (h.owned _ hmem)
          obtain rfl := h.one _ _ _ (.inr ⟨hmem, hi⟩) htouches
          obtain ⟨hnone, hback⟩ := hsyncC dep hdep i hi
          rcases hstays with hrecorded | hdeployed
          · exact hnone hrecorded
          · have hsome := hback hdeployed
            rw [hfound] at hsome
            cases hsome
        · rename_i hno
          cases hpc : s.sync with
          | keys uuid rest =>
              cases rest with
              | nil => rw [hpc] at hsync; cases hsync
              | cons k rest => exact hno fault uuid k rest rfl hpc
          | release uuid ports rest =>
              rw [hpc] at hsync
              cases ports <;> cases hsync
          | _ => rw [hpc] at hsync; cases hsync
    | _ => cases hsync

include h hC hstep hmove in
/-- A row that is deployed was so before, under the same key, or its deploy ends. -/
theorem row_before {c' : Connection} (hc' : c' ∈ s'.shared.db.connections.rows)
    (hstatus : c'.status = .deployed) :
    (∃ c ∈ s.shared.db.connections.rows, c.id = c'.id ∧ c.status = .deployed ∧ ∃ key,
        s.shared.db.key? c = some key ∧ s'.shared.db.key? c' = some key) ∨
      ∃ call d, s.movesDeploy label = some (call, c'.id, .finish d) ∧
        s.deploys call = some (c'.id, .finish d) ∧ s'.shared.db.key? c' = some d.plan.key := by
  have hsame : ∀ {c}, c ∈ s.shared.db.connections.rows → c.id = c'.id → c.status = .deployed →
      c'.name = c.name → c'.nodeId = c.nodeId → ∃ key, s.shared.db.key? c = some key ∧
        s'.shared.db.key? c' = some key := by
    intro c hc hid hold hname hnode
    obtain ⟨key, hkey, -⟩ := h.row c hc hold
    exact ⟨key, hkey, key?_mono hmove.keepsNodes hname hnode hkey⟩
  rcases hmove.continues with ⟨-, hcontinues⟩ | ⟨call, id, d, -, hmoves, hpc, hset, -⟩
  · obtain ⟨c, hc, hid, hold, hnode⟩ := hcontinues.rows c' hc' hstatus
    refine .inl ⟨c, hc, hid, hold, ?_⟩
    have hname : c'.name = c.name := by
      rcases hcontinues.names c' hc' with ⟨c₀, hc₀, hid₀, hname⟩ | hnew
      · rw [← hname, Table.eq_of_key hc₀ hc (hid₀.trans hid.symm)]
      · exact absurd (hid ▸ s.shared.db.connections.bounded c hc) (Nat.not_le.mpr hnew)
    rcases hnode with hnode | hpatched
    · exact hsame hc hid hold hname hnode
    · cases label with
      | api fault =>
          cases fault with
          | false => exact absurd ⟨c, hc, hid, hold⟩ (hC.row c'.id hpatched)
          | true =>
              rw [patches_of_fault hstep hpatched] at hc'
              obtain rfl := Table.eq_of_key hc' hc hid.symm
              exact hsame hc rfl hold rfl rfl
      | _ => cases hpatched
  · rcases Database.mem_updateConnectionNode hset hc' with ⟨hne, hold⟩ |
      ⟨hid, hnode, -, c₀, hc₀, hid₀, hname⟩
    · exact .inl ⟨c', hold, rfl, hstatus, hsame hold rfl hstatus rfl rfl⟩
    · subst hid
      obtain ⟨hreads, huuid⟩ := h.named call _ _ hpc
      refine .inr ⟨call, d, hmoves, hpc, Option.map_eq_some_iff.mpr ⟨d.plan.node.nodeUuid, ?_, ?_⟩⟩
      · rw [hnode]
        exact hmove.keepsNodes _ _ (huuid d.plan.node rfl)
      · rw [← hname, (hreads d.plan.connectionName rfl).2 c₀ hc₀ hid₀]
        rfl

include h hC hmove in
/-- What the stop of a connection has looked up is the connection's own. -/
theorem stop_before {call : CallId} {id : RowId} {pc' : StopPc} {F : Footprint} {e : Entry}
    (hpc' : s'.stopping = some (call, id, pc')) (hF : pc'.footprint? = some F)
    (hcovers : F.covers e = true) : s.Touches id e := by
  rcases hmove.stopping hpc' with hold | rfl | ⟨pc, hmoves, hpc, hstop⟩
  · exact .inl ⟨F, .stop hold hF, hcovers⟩
  · cases hF
  · rcases footprint_of_stop hstop hF with ⟨G, hG, hle⟩ | ⟨info, nodeUuid, d, rfl, hdep, rfl⟩
    · exact .inl ⟨G, .stop hpc hG, hle e hcovers⟩
    · have hstopC := hC.stop
      simp only [PartsStop, hmoves, hdep] at hstopC
      obtain ⟨-, ⟨c, hc, rfl, hstatus, hkey⟩ | ⟨hno, -⟩⟩ := hstopC
      · have hmem := Shared.mem_entries_record.mpr hdep
        obtain ⟨i, hi⟩ := Option.isSome_iff_exists.mp (h.owned _ hmem)
        obtain rfl : i = c.id := h.one _ _ _ (.inr ⟨hmem, hi⟩)
          (.inl ⟨_, .row hc hstatus hkey, by simp [Footprint.covers]⟩)
        exact .inl ⟨_, .record hdep hi, hcovers⟩
      · cases hno

include h hC hstep hmove hrecord in
/-- But for a deploy that records itself, nobody has to do with more than before. -/
theorem touches_before {id : RowId} {e : Entry} (htouches : s'.Touches id e) : s.Touches id e := by
  have hentry : ∀ {e id}, e ∈ s'.shared.entries → s'.shared.owner e = some id →
      e ∈ s.shared.entries ∧ s.shared.owner e = some id ∨
        (∃ d : Deploy, s.HasFootprint id d.plan.footprint ∧ d.plan.footprint.covers e = true) ∧
          ∀ key dep, e ≠ .record key dep := by
    intro e id he howner
    rcases hmove.entries h.belongs he with
      ⟨hold, hsame⟩ | ⟨call, i, pc, pc', hmoves, hpc, -, -, hadds, -, hi⟩
    · exact .inl ⟨hold, hsame ▸ howner⟩
    · obtain rfl := Option.some.inj (hi.symm.trans howner)
      rcases recorded_of_adds hadds with ⟨d, rfl⟩ | ⟨d, hrec, hd, hne⟩
      · exact absurd hmoves (hrecord _ _ _)
      · exact .inr ⟨⟨d, .deploy hpc hrec, covers_of_adds (h.ends _ _ _ hpc) hd hadds⟩, hne⟩
  rcases htouches with ⟨F, hF, hcovers⟩ | ⟨he, howner⟩
  · cases hF with
    | deploy hpc' hd =>
        obtain ⟨pc, hpc, hd'⟩ := recorded_before hmove hrecord hpc' hd
        exact .inl ⟨_, .deploy hpc hd', hcovers⟩
    | stop hpc' hF => exact stop_before h hC hmove hpc' hF hcovers
    | @record key dep _ hdep howner =>
        rcases hentry (Shared.mem_entries_record.mpr hdep) howner with ⟨hold, hid⟩ | ⟨-, hno⟩
        · exact .inl ⟨_, .record (Shared.mem_entries_record.mp hold) hid, hcovers⟩
        · exact absurd rfl (hno _ _)
    | row hc' hstatus hkey' =>
        rcases row_before h hC hstep hmove hc' hstatus with
          ⟨c, hc, hid, hold, key, hkey, hsame⟩ | ⟨call, d, hmoves, hpc, hkey⟩
        · obtain rfl := Option.some.inj (hsame.symm.trans hkey')
          exact .inl ⟨_, hid ▸ .row hc hold hkey, hcovers⟩
        · obtain rfl := Option.some.inj (hkey.symm.trans hkey')
          refine .inl ⟨_, .deploy hpc rfl, ?_⟩
          exact Footprint.covers_mono (F := { key := d.plan.key, ports := [] }) rfl
            (by simp) hcovers
  · rcases hentry he howner with hold | ⟨⟨d, hF, hcovers⟩, -⟩
    · exact .inr hold
    · exact .inl ⟨_, hF, hcovers⟩

include h hC in
/-- A stop that looks up its deployment finds all its connection has made. -/
theorem finds_own {call : CallId} {id : RowId} {pc pc' : StopPc} {t : Shared}
    (hmoves : s.movesStop label = some (call, id, pc)) (hfound : s.foundStop id = none)
    (hstop : s.shared.StopStep call id label.fault pc t (some pc')) (hpc : pc.found = false)
    (hpc' : pc'.found = true) :
    ¬s.Recorded id ∧ ∀ e ∈ s.shared.entries, s.shared.owner e = some id → pc'.removes e = true := by
  have hstopC := hC.stop
  unfold PartsStop at hstopC
  simp only [hmoves] at hstopC
  cases hstop
  case nodeGone info hgone =>
    obtain ⟨hrecorded, hbare⟩ := hstopC hgone
    exact ⟨hrecorded, fun e he howner => absurd howner (hbare e he)⟩
  case unrecorded info nodeUuid hnone =>
    obtain ⟨hrecorded, ⟨c, hc, rfl, hstatus, hkey⟩ | ⟨-, hbare⟩⟩ := hstopC
    · refine ⟨hrecorded, fun e he howner => ?_⟩
      obtain ⟨key, hkey', hall⟩ := h.row c hc hstatus
      obtain rfl := Option.some.inj (hkey'.symm.trans hkey)
      obtain ⟨dep, hdep, -⟩ := hall hfound e he howner
      rw [hnone] at hdep
      cases hdep
    · exact ⟨hrecorded, fun e he howner => absurd howner (hbare e he)⟩
  case found info nodeUuid d hlock hdep =>
    obtain ⟨hrecorded, ⟨c, hc, rfl, hstatus, hkey⟩ | ⟨hnone, -⟩⟩ := hstopC
    · refine ⟨hrecorded, fun e he howner => ?_⟩
      obtain ⟨key, hkey', hall⟩ := h.row c hc hstatus
      obtain rfl := Option.some.inj (hkey'.symm.trans hkey)
      obtain ⟨dep, hdep', hcovers⟩ := hall hfound e he howner
      obtain rfl := Option.some.inj (hdep'.symm.trans hdep)
      cases e <;> exact hcovers
    · rw [hdep] at hnone
      cases hnone
  all_goals first
    | cases hpc
      done
    | cases hpc'

include h hC hmove in
theorem stop_after {id : RowId} {pc' : StopPc} (hpc' : s'.foundStop id = some pc') :
    ¬s.Recorded id ∧ ∀ e ∈ s'.shared.entries, e ∈ s.shared.entries → s.shared.owner e = some id →
      pc'.removes e = true := by
  obtain ⟨call, hstopping, hfound'⟩ := foundStop_eq_some.mp hpc'
  have hunrecorded : ∀ {pc}, s.foundStop id = some pc → ¬s.Recorded id := by
    intro pc hpc hrecorded
    obtain ⟨_, _, _, -, -, hholds⟩ := Holds.of_recorded h hrecorded
    rw [hholds.unstopped] at hpc
    cases hpc
  rcases hmove.stopping hstopping with hold | rfl | ⟨pc, hmoves, hpc, hstop⟩
  · have hthis : s.foundStop id = some pc' := foundStop_eq_some.mpr ⟨call, hold, hfound'⟩
    exact ⟨hunrecorded hthis, fun e _ he howner => h.stop id pc' hthis e he howner⟩
  · cases hfound'
  · cases hfound : pc.found with
    | true =>
        have hthis : s.foundStop id = some pc := foundStop_eq_some.mpr ⟨call, hpc, hfound⟩
        refine ⟨hunrecorded hthis, fun e he' he howner => ?_⟩
        obtain ⟨p, heq, -, hremoves⟩ := hstop.entries.2 e he' (h.stop id pc hthis e he howner)
        exact Option.some.inj heq ▸ hremoves
    | false =>
        have hnone : s.foundStop id = none := by
          refine Option.eq_none_iff_forall_ne_some.mpr fun p hp => ?_
          obtain ⟨c, hc, hp⟩ := foundStop_eq_some.mp hp
          rw [hpc] at hc
          obtain ⟨-, rfl⟩ := Prod.mk.inj (Prod.mk.inj (Option.some.inj hc)).2
          rw [hfound] at hp
          cases hp
        obtain ⟨hrecorded, hall⟩ := finds_own h hC hmoves hnone hstop hfound hfound'
        exact ⟨hrecorded, fun e _ he howner => hall e he howner⟩

include h hmove hrecord in
/-- An entry of a connection is old, or its deploy has just made it. -/
theorem entry_before {e : Entry} {id : RowId} (he : e ∈ s'.shared.entries)
    (howner : s'.shared.owner e = some id) :
    e ∈ s.shared.entries ∧ s.shared.owner e = some id ∨
      ∃ call pc d, s.deploys call = some (id, pc) ∧ pc.recorded? = some d ∧
        s.movesDeploy label = some (call, id, pc) ∧ pc.adds e = true ∧
          d.plan.footprint.covers e = true := by
  rcases hmove.entries h.belongs he with
    ⟨hold, hsame⟩ | ⟨call, i, pc, pc', hmoves, hpc, -, -, hadds, -, hi⟩
  · exact .inl ⟨hold, hsame ▸ howner⟩
  · obtain rfl := Option.some.inj (hi.symm.trans howner)
    rcases recorded_of_adds hadds with ⟨d, rfl⟩ | ⟨d, hrec, hd, -⟩
    · exact absurd hmoves (hrecord _ _ _)
    · exact .inr ⟨call, pc, d, hpc, hrec, hmoves, hadds, covers_of_adds (h.ends _ _ _ hpc) hd hadds⟩

include h hC hstep hmove hne hrecord in
theorem holds_after {call : CallId} {id : RowId} {pc' : DeployPc} {d : Deploy}
    (hpc' : s'.deploys call = some (id, pc')) (hd : pc'.recorded? = some d) : s'.Holds id d := by
  obtain ⟨pc, hpc, hd₀⟩ := recorded_before hmove hrecord hpc' hd
  have hholds := h.holds call id pc d hpc hd₀
  have hrecorded := h.recorded hpc hd₀
  have hself : ∀ {call' pc₂ d₂}, s.deploys call' = some (id, pc₂) → pc₂.recorded? = some d₂ →
      call' = call ∧ d₂ = d := by
    intro call' pc₂ d₂ hpc₂ hd₂
    obtain rfl := h.alone call' call id pc₂ pc hpc₂ hpc (Option.isSome_of_eq_some hd₂)
      (Option.isSome_of_eq_some hd₀)
    obtain ⟨-, rfl⟩ := Prod.mk.inj (Option.some.inj (hpc₂.symm.trans hpc))
    exact ⟨rfl, Option.some.inj (hd₂.symm.trans hd₀)⟩
  refine ⟨?_, ?_, ?_, ?_⟩
  · exact Option.eq_none_iff_forall_ne_some.mpr fun p hp => (stop_after h hC hmove hp).1 hrecorded
  · intro c' hc' hid hstatus
    subst hid
    rcases row_before h hC hstep hmove hc' hstatus with
      ⟨c, hc, hid, hold, key, hkey, hsame⟩ | ⟨call', d', hmoves, hpc₂, hkey⟩
    · rw [hsame, ← hkey]
      exact hholds.row c hc hid hold
    · obtain ⟨-, rfl⟩ := hself hpc₂ rfl
      exact hkey
  · refine record_stays h hC hmove hne hrecord hholds.record ?_ hholds.unstopped (.inl hrecorded)
    exact .inl ⟨_, .deploy hpc hd₀, by simp [Footprint.covers, Plan.footprint]⟩
  · intro e he howner
    rcases entry_before h hmove hrecord he howner with ⟨hold, hid⟩ |
      ⟨_, _, _, hpc₂, hd₂, -, -, hcovers⟩
    · exact hholds.entries e hold hid
    · obtain ⟨-, rfl⟩ := hself hpc₂ hd₂
      exact hcovers

include h hC hstep hmove hne hrecord in
theorem row_after {c' : Connection} (hc' : c' ∈ s'.shared.db.connections.rows)
    (hstatus : c'.status = .deployed) :
    ∃ key, s'.shared.db.key? c' = some key ∧ (s'.foundStop c'.id = none → ∀ e ∈ s'.shared.entries,
      s'.shared.owner e = some c'.id → ∃ dep, s'.shared.tracker.lookup key = some dep ∧
        Footprint.covers { key := key, ports := dep.serverPorts } e = true) := by
  have hstays : ∀ {call pc d}, s.deploys call = some (c'.id, pc) → pc.recorded? = some d →
      s'.shared.tracker.lookup d.plan.key = some d.plan.deployment := by
    intro call pc d hpc hd
    have hholds := h.holds _ _ _ _ hpc hd
    refine record_stays h hC hmove hne hrecord hholds.record ?_ hholds.unstopped
      (.inl (h.recorded hpc hd))
    exact .inl ⟨_, .deploy hpc hd, by simp [Footprint.covers, Plan.footprint]⟩
  rcases row_before h hC hstep hmove hc' hstatus with
    ⟨c, hc, hid, hold, key, hkey, hsame⟩ | ⟨call, d, hmoves, hpc, hkey⟩
  · refine ⟨key, hsame, fun hnone e he howner => ?_⟩
    rcases entry_before h hmove hrecord he howner with ⟨he₀, hown⟩ |
      ⟨_, _, d, hpc, hd, -, -, hcovers⟩
    · cases hfound : s.foundStop c'.id with
      | none =>
          obtain ⟨key', hkey', hall⟩ := h.row c hc hold
          obtain rfl := Option.some.inj (hkey'.symm.trans hkey)
          rw [hid] at hall
          obtain ⟨dep, hdep, hcovers⟩ := hall hfound e he₀ hown
          have hfoot : s.HasFootprint c'.id { key := key', ports := [] } := hid ▸ .row hc hold hkey
          have hkept := record_stays h hC hmove hne hrecord hdep
            (.inl ⟨_, hfoot, by simp [Footprint.covers]⟩) hfound (.inr ⟨c, hc, hid, hold⟩)
          exact ⟨dep, hkept, hcovers⟩
      | some pc =>
          rcases hmove.foundStop hfound hnone hne with hno | ⟨-, call, info, hmoves, -⟩
          · exact absurd ⟨c', hc', rfl, hstatus⟩ hno
          · obtain ⟨call', hstopping, -⟩ := foundStop_eq_some.mp hfound
            have hpc : pc = .finish info := by
              cases label with
              | api fault =>
                  have heq := hstopping.symm.trans hmoves
                  exact (Prod.mk.inj (Prod.mk.inj (Option.some.inj heq)).2).2
              | _ => cases hmoves
            subst hpc
            have hremoves := h.stop _ _ hfound e he₀ hown
            cases e <;> cases hremoves
    · have hkey' := (h.holds _ _ _ _ hpc hd).row c hc hid hold
      obtain rfl := Option.some.inj (hkey'.symm.trans hkey)
      exact ⟨_, hstays hpc hd, hcovers⟩
  · refine ⟨_, hkey, fun _ e he howner => ⟨_, hstays hpc rfl, ?_⟩⟩
    rcases entry_before h hmove hrecord he howner with ⟨he₀, hown⟩ |
      ⟨_, _, _, -, -, hmoves', hadds, -⟩
    · exact (h.holds _ _ _ d hpc rfl).entries e he₀ hown
    · obtain ⟨-, heq⟩ := Prod.mk.inj (Option.some.inj (hmoves.symm.trans hmoves'))
      obtain ⟨-, rfl⟩ := Prod.mk.inj heq
      cases hadds

include h hC hstep hmove hne hrecord in
theorem partInv_other (hfresh : s'.Fresh) : s'.PartInv where
  fresh := hfresh
  belongs := hmove.belongs h.belongs
  ends := hmove.each (Q := fun _ _ pc => pc.Ends) (fun _ _ => trivial) (fun hdeploy => hdeploy.rest)
    h.ends
  named := hmove.named h.named
  owned e he := by
    rcases hmove.entries h.belongs he with ⟨hold, hsame⟩ | ⟨_, _, _, _, -, -, -, -, -, -, hi⟩
    · rw [hsame]
      exact h.owned e hold
    · exact Option.isSome_of_eq_some hi
  one e i j hi hj := h.one e i j (touches_before h hC hstep hmove hrecord hi)
    (touches_before h hC hstep hmove hrecord hj)
  holds _ _ _ _ hpc hd := holds_after h hC hstep hmove hne hrecord hpc hd
  alone call call' id pc pc' hpc hpc' hsome hsome' := by
    obtain ⟨d, hd⟩ := Option.isSome_iff_exists.mp hsome
    obtain ⟨d', hd'⟩ := Option.isSome_iff_exists.mp hsome'
    obtain ⟨p, hp, hd⟩ := recorded_before hmove hrecord hpc hd
    obtain ⟨p', hp', hd'⟩ := recorded_before hmove hrecord hpc' hd'
    exact h.alone call call' id p p' hp hp' (Option.isSome_of_eq_some hd)
      (Option.isSome_of_eq_some hd')
  stop id pc hpc e he howner := by
    obtain ⟨hrecorded, hall⟩ := stop_after h hC hmove hpc
    rcases entry_before h hmove hrecord he howner with ⟨hold, hid⟩ | ⟨_, _, _, hpc', hd, -⟩
    · exact hall e he hold hid
    · exact absurd (h.recorded hpc' hd) hrecorded
  row _ hc hstatus := row_after h hC hstep hmove hne hrecord hc hstatus

end

/-- Nobody else has to do with what a deploy that may record itself covers. -/
theorem Admits.touches {id i : RowId} {d : Deploy} (h : s.Admits id d) (hf : s.Fresh) {e : Entry}
    (hi : s.Touches i e) (hcovers : d.plan.footprint.covers e = true) : i = id := by
  by_contra hne
  rcases hi with ⟨F, hF, hFe⟩ | ⟨he, howner⟩
  · have hno := (h.apart (i, F) (hF.mem hf) hne).covers hFe
    rw [hcovers] at hno
    cases hno
  · have hid := (h.entries e he).mp hcovers
    rw [howner] at hid
    exact hne (Option.some.inj hid)

/-- A deploy records itself. -/
theorem partInv_record (h : s.PartInv) (hC : s.Parting label)
    (hmove : s.Move ports localAddr label s') (hfresh : s'.Fresh) {call : CallId} {id : RowId}
    {d : Deploy} (hmoves : s.movesDeploy label = some (call, id, .record d)) : s'.PartInv := by
  have hadmits : s.Admits id d := by
    have hthis := hC.record
    unfold PartsRecord at hthis
    rwa [hmoves] at hthis
  obtain ⟨t, next, hdeploy, hpc, hshared, hstopping, hdeploys⟩ := hmove.deploy_step hmoves
  obtain ⟨hcall, hid⟩ := h.belongs call id _ hpc
  cases hdeploy
  case refused e hrefuses => cases hrefuses
  case recorded hlock =>
  have hentries : ∀ {e}, e ∈ s'.shared.entries → e = .record d.plan.key d.plan.deployment ∨
      e ∈ s.shared.entries ∧ ∀ dep, e ≠ .record d.plan.key dep := by
    intro e he
    rw [hshared] at he
    exact (Shared.mem_entries_insertRecord (s := s.shared)).mp he
  have hnew : ∀ {dep}, s'.shared.owner (.record d.plan.key dep) = some id := by
    intro dep
    rw [hshared, ← hid]
    exact congrArg (Option.map Prod.snd) Shared.creator_noteRecorded
  have hold : ∀ {e}, (∀ dep, e ≠ .record d.plan.key dep) →
      s'.shared.owner e = s.shared.owner e := by
    intro e he
    rw [hshared]
    exact congrArg (Option.map Prod.snd) (Shared.creator_noteRecorded_of_ne he)
  have hlookup : ∀ k, s'.shared.tracker.lookup k =
      if k = d.plan.key then some d.plan.deployment else s.shared.tracker.lookup k := by
    intro k
    rw [hshared]
    exact HashMap.lookup_insert_eq _ _ _ _
  have hdb : s'.shared.db = s.shared.db := by rw [hshared]; rfl
  have hfound := foundStop_congr hstopping
  have hcovers : ∀ {dep}, d.plan.footprint.covers (.record d.plan.key dep) = true := by
    simp [Footprint.covers, Plan.footprint]
  have hdeployed : ∀ {c i pc'}, s'.deploys c = some (i, pc') →
      c = call ∧ i = id ∧ pc' = .lock d ∨ c ≠ call ∧ s.deploys c = some (i, pc') := by
    intro c i pc' hpc'
    rw [hdeploys] at hpc'
    by_cases hc : c = call
    · subst hc
      rw [Function.update_self] at hpc'
      obtain ⟨rfl, rfl⟩ := Prod.mk.inj (Option.some.inj hpc')
      exact .inl ⟨rfl, rfl, rfl⟩
    · rw [Function.update_of_ne hc] at hpc'
      exact .inr ⟨hc, hpc'⟩
  have hothers : ∀ {c i pc' d'}, s.deploys c = some (i, pc') →
    pc'.recorded? = some d' → i ≠ id := by
    rintro c i pc' d' hpc' hd rfl
    exact hadmits.alone (h.recorded hpc' hd)
  have hapart : ∀ {i key dep}, s.Touches i (.record key dep) → i ≠ id → key ≠ d.plan.key := by
    rintro i key dep hi hne rfl
    exact hne (hadmits.touches h.fresh hi hcovers)
  have htouches : ∀ {i e}, s'.Touches i e →
      s.Touches i e ∨ i = id ∧ d.plan.footprint.covers e = true := by
    rintro i e (⟨F, hF, hFe⟩ | ⟨he, howner⟩)
    · cases hF with
      | deploy hpc' hd =>
          rcases hdeployed hpc' with ⟨-, rfl, rfl⟩ | ⟨-, hold⟩
          · obtain rfl := Option.some.inj hd
            exact .inr ⟨rfl, hFe⟩
          · exact .inl (.inl ⟨_, .deploy hold hd, hFe⟩)
      | stop hpc' hF => exact .inl (.inl ⟨F, .stop (hstopping ▸ hpc') hF, hFe⟩)
      | @record key dep _ hdep howner =>
          rw [hlookup] at hdep
          split at hdep
          · rename_i hkey
            subst hkey
            obtain rfl := Option.some.inj hdep
            exact .inr ⟨Option.some.inj (howner.symm.trans hnew), hFe⟩
          · rename_i hkey
            rw [hold fun dep' heq => hkey (Entry.record.inj heq).1] at howner
            exact .inl (.inl ⟨_, .record hdep howner, hFe⟩)
      | row hc hstatus hkey =>
          rw [hdb] at hc hkey
          exact .inl (.inl ⟨_, .row hc hstatus hkey, hFe⟩)
    · rcases hentries he with rfl | ⟨he, hne⟩
      · exact .inr ⟨Option.some.inj (howner.symm.trans hnew), hcovers⟩
      · exact .inl (.inr ⟨he, hold hne ▸ howner⟩)
  -- What the connection has made already is covered.
  have hown : ∀ e ∈ s'.shared.entries, s'.shared.owner e = some id →
      d.plan.footprint.covers e = true := by
    intro e he howner
    rcases hentries he with rfl | ⟨he, hne⟩
    · exact hcovers
    · exact (hadmits.entries e he).mpr (hold hne ▸ howner)
  have hother : ∀ {i e}, e ∈ s'.shared.entries → s'.shared.owner e = some i → i ≠ id →
      e ∈ s.shared.entries ∧ s.shared.owner e = some i := by
    intro i e he howner hi
    rcases hentries he with rfl | ⟨he, hne⟩
    · exact absurd (Option.some.inj (howner.symm.trans hnew)) hi
    · exact ⟨he, hold hne ▸ howner⟩
  refine ⟨hfresh, hmove.belongs h.belongs, ?_, hmove.named h.named, ?_, ?_, ?_, ?_, ?_, ?_⟩
  · exact hmove.each (Q := fun _ _ pc => pc.Ends) (fun _ _ => trivial)
      (fun hdeploy => hdeploy.rest) h.ends
  · intro e he
    rcases hentries he with rfl | ⟨he, hne⟩
    · exact Option.isSome_of_eq_some hnew
    · rw [hold hne]
      exact h.owned e he
  · intro e i j hi hj
    rcases htouches hi with hi | ⟨rfl, hi⟩ <;> rcases htouches hj with hj | ⟨rfl, hj⟩
    · exact h.one e i j hi hj
    · exact hadmits.touches h.fresh hi hj
    · exact (hadmits.touches h.fresh hj hi).symm
    · rfl
  · intro c i pc' d' hpc' hd
    rcases hdeployed hpc' with ⟨-, rfl, rfl⟩ | ⟨-, hpc'⟩
    · obtain rfl := Option.some.inj hd
      refine ⟨by rw [hfound]; exact hadmits.unstopped, by rw [hdb]; exact hadmits.row, ?_, hown⟩
      rw [hlookup, if_pos rfl]
    · have hi := hothers hpc' hd
      obtain ⟨hunstopped, hrow, hrec, hall⟩ := h.holds c i pc' d' hpc' hd
      refine ⟨by rw [hfound]; exact hunstopped, by rw [hdb]; exact hrow, ?_, fun e he howner => ?_⟩
      · rw [hlookup, if_neg (hapart (.inl ⟨_, .deploy hpc' hd, ?_⟩) hi)]
        · exact hrec
        · exact d'.plan.deployment
        · simp [Footprint.covers, Plan.footprint]
      · obtain ⟨he, howner⟩ := hother he howner hi
        exact hall e he howner
  · intro c c' i p p' hp hp' hsome hsome'
    obtain ⟨d₁, hd₁⟩ := Option.isSome_iff_exists.mp hsome
    obtain ⟨d₂, hd₂⟩ := Option.isSome_iff_exists.mp hsome'
    rcases hdeployed hp with ⟨rfl, rfl, -⟩ | ⟨-, hp⟩ <;>
      rcases hdeployed hp' with ⟨rfl, hi, -⟩ | ⟨-, hp'⟩
    · rfl
    · exact absurd rfl (hothers hp' hd₂)
    · exact absurd hi (hothers hp hd₁)
    · exact h.alone c c' i p p' hp hp' hsome hsome'
  · intro i pc' hpc' e he howner
    rw [hfound] at hpc'
    by_cases hi : i = id
    · rw [hi, hadmits.unstopped] at hpc'
      cases hpc'
    · obtain ⟨he, howner⟩ := hother he howner hi
      exact h.stop i pc' hpc' e he howner
  · intro c hc hstatus
    rw [hdb] at hc
    obtain ⟨key, hkey, hall⟩ := h.row c hc hstatus
    refine ⟨key, by rw [hdb]; exact hkey, fun hnone e he howner => ?_⟩
    by_cases hi : c.id = id
    · obtain rfl := Option.some.inj ((hadmits.row c hc hi hstatus).symm.trans hkey)
      exact ⟨d.plan.deployment, by rw [hlookup, if_pos rfl], hown e he (hi ▸ howner)⟩
    · obtain ⟨he, howner⟩ := hother he howner hi
      obtain ⟨dep, hdep, hFe⟩ := hall (hfound ▸ hnone) e he howner
      refine ⟨dep, ?_, hFe⟩
      rw [hlookup, if_neg (hapart (.inl ⟨_, .row hc hstatus hkey, ?_⟩) hi)]
      · exact hdep
      · exact dep
      · simp [Footprint.covers]

theorem partInv_step (h : s.PartInv) (hC : s.Parting label)
    (hstep : s.step ports localAddr label = some s') : s'.PartInv := by
  obtain ⟨hmove, hfresh⟩ := step_move h.fresh hstep
  by_cases hne : label = .restart
  · subst hne
    obtain rfl := Option.some.inj hstep
    have htouches : ∀ {i e}, (s.restart ports).Touches i e → s.Touches i e := by
      rintro i e (⟨F, hF, hFe⟩ | ⟨he, -⟩)
      · cases hF with
        | @row c key hc hstatus hkey =>
            obtain ⟨key', hkey', -⟩ := h.row c hc hstatus
            have hsame := key?_mono hmove.keepsNodes (rfl : c.name = c.name) rfl hkey'
            obtain rfl := Option.some.inj (hsame.symm.trans hkey)
            exact .inl ⟨_, .row hc hstatus hkey', hFe⟩
        | deploy hpc => cases hpc
        | stop hpc => cases hpc
        | record hdep => cases hdep
      · exact absurd he List.not_mem_nil
    refine ⟨hfresh, hmove.belongs h.belongs, fun _ _ _ hpc => (by cases hpc), hmove.named h.named,
      fun _ he => absurd he List.not_mem_nil,
        fun e i j hi hj => h.one e i j (htouches hi) (htouches hj),
      fun _ _ _ _ hpc => (by cases hpc), fun _ _ _ _ _ hpc => (by cases hpc),
      fun _ _ _ _ he => absurd he List.not_mem_nil, fun c hc hstatus => ?_⟩
    obtain ⟨key, hkey, -⟩ := h.row c hc hstatus
    exact ⟨key, key?_mono hmove.keepsNodes rfl rfl hkey, fun _ _ he => absurd he List.not_mem_nil⟩
  · by_cases hrecord : ∃ call id d, s.movesDeploy label = some (call, id, .record d)
    · obtain ⟨call, id, d, hmoves⟩ := hrecord
      exact partInv_record h hC hmove hfresh hmoves
    · exact partInv_other h hC hstep hmove hne
        (fun call id d hmoves => hrecord ⟨call, id, d, hmoves⟩) hfresh

theorem partInv_boot (ports : FreshPool) : (boot .empty ports).PartInv := by
  refine ⟨(tidyInv_boot ports).fresh, (tidyInv_boot ports).belongs, fun _ _ _ h => (by cases h),
    fun _ _ _ h => (by cases h), fun _ he => absurd he List.not_mem_nil, ?_,
    fun _ _ _ _ h => (by cases h), fun _ _ _ _ _ h => (by cases h),
    fun _ _ _ _ he => absurd he List.not_mem_nil, fun _ hc => absurd hc List.not_mem_nil⟩
  rintro e i j (⟨F, hF, -⟩ | ⟨he, -⟩)
  · cases hF with
    | row hc => exact absurd hc List.not_mem_nil
    | deploy hpc => cases hpc
    | stop hpc => cases hpc
    | record hdep => cases hdep
  · exact absurd he List.not_mem_nil

theorem PartInv.stopsOwn (h : s.PartInv) : s.StopsOwn where
  others call id pc hpc fault t next hstep e he howner := by
    have hkeeps := (Shared.stopStep_cases hstep).keeps
    obtain ⟨i, hi⟩ := Option.isSome_iff_exists.mp (h.owned e he)
    obtain ⟨hmem, hcreator⟩ := hkeeps e he <| Bool.eq_false_iff.mpr fun hdrops => by
      obtain ⟨rfl, -⟩ := h.stopping_id hpc (removes_of_drops hdrops) (.inr ⟨he, hi⟩)
      exact howner hi
    exact ⟨hmem, by rw [Shared.owner, hcreator, Shared.owner]⟩
  own call id info hpc e he howner := by
    have hfound : s.foundStop id = some (.finish info) := foundStop_eq_some.mpr ⟨call, hpc, rfl⟩
    have hremoves := h.stop id _ hfound e he howner
    cases e <;> cases hremoves

/-- In a run whose steps keep the footprints of connections apart, a stop takes all that
its connection has made and nothing of another. -/
theorem stopsOwn_of_parting (ports : FreshPool) (localAddr : LocalAddr) (labels : List Label)
    (h : (kdcts ports localAddr).Meets Parting (.boot .empty ports) labels) :
    (kdcts ports localAddr).Always StopsOwn (.boot .empty ports) labels := by
  have hinv : (kdcts ports localAddr).Always PartInv (.boot .empty ports) labels :=
    Machine.always_of_meets (fun _ _ _ hI hC hstep => partInv_step hI hC hstep)
      (partInv_boot ports) h
  exact hinv.mono fun _ hI => hI.stopsOwn

end Server

namespace Label

/-- Two connections on one node, each through its own bridge. -/
def twoConnections (first second : String) : List Label :=
  connects "u" 0 ++ .loadImage "web" "nginx" "docker" :: bridges "a" (samplePort 1 "/a") ++
    bridges "b" (samplePort 2 "/b") ++ creates first 1 1 ++ creates second 2 1

/-- A deployed connection of one port is deleted, up to the end of its stop. -/
def stops (id : RowId) (ch : ChannelId) (containerName : String) : List Label :=
  .request false (.deleteConnection id) :: List.replicate 7 (.api false) ++
    .message ch (.containerStopped containerName) :: List.replicate 7 (.api false)

end Label

/-- Both connections are deployed, then deleted one after the other. -/
def stopsBoth : List Label :=
  Label.twoConnections "a" "b" ++ Label.deploys 0 0 (.containerStarted "kdct-a-1" []) ++
    Label.deploys 1 0 (.containerStarted "kdct-b-2" []) ++ Label.stops 1 0 "kdct-a-1" ++
      [.api false, .api false] ++ Label.stops 2 0 "kdct-b-2" ++ [.api false, .api false]

set_option maxRecDepth 4000 in
theorem stopsOwn_of_parting_stopsBoth :
    (kdcts samplePool fun _ => none).Always Server.StopsOwn (.boot .empty samplePool) stopsBoth :=
  Server.stopsOwn_of_parting samplePool (fun _ => none) stopsBoth (by decide)

/-- Two connections have one name, and the first is stopped. -/
def oneName : List Label :=
  Label.twoConnections "connection" "connection" ++
    Label.deploys 0 0 (.containerStarted "kdct-connection-1" []) ++
      Label.deploys 1 0 (.containerStarted "kdct-connection-2" []) ++
        Label.stops 1 0 "kdct-connection-1"

set_option maxRecDepth 4000 in
/-- The route of the first outlives its stop. -/
theorem oneName_stopsOther :
    ¬(kdcts samplePool fun _ => none).Always Server.StopsOwn (.boot .empty samplePool) oneName := by
  intro h
  obtain ⟨s, hs⟩ : ∃ s, (kdcts samplePool fun _ => none).run (.boot .empty samplePool) oneName =
      some s := Option.isSome_iff_exists.mp (by decide)
  have hfacts : ((kdcts samplePool fun _ => none).run (.boot .empty samplePool) oneName).map
      (fun s => (s.stopping, s.shared.routes.routes.lookup "/a",
        s.shared.owner (.route "/a" 20000))) =
          some (some (2, 1, .finish ⟨1, "connection", some 1, "kdct-connection-1"⟩), some 20000,
            some 1) := by
    decide
  rw [hs] at hfacts
  obtain ⟨hstopping, hrest⟩ := Prod.mk.inj (Option.some.inj hfacts)
  obtain ⟨hroute, howner⟩ := Prod.mk.inj hrest
  exact (h.last hs).own 2 1 _ hstopping _ (Shared.mem_entries_route.mpr hroute) howner

end Kdct
