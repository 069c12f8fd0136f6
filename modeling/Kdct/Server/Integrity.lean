/-
The database over whole runs.

Whatever tasks interleave, a step of the server runs at most one statement on the
database (`Move.write`), and so what every statement keeps holds in every state of every
run: the schema's promise (`sound_run`), and that a key which has been given out and
whose row is gone never comes back (`retires_run`).  A deploy or a stop that remembers an
id across its waits therefore never writes to a row that somebody else created since.
-/
import Kdct.Database.Integrity
import Kdct.Server.Footprints

namespace Kdct

namespace Database

/-- Keys that are retired stay retired. -/
structure Retires (db db' : Database) : Prop where
  images : ∀ k, db.images.Retired k → db'.images.Retired k
  bridges : ∀ k, db.bridges.Retired k → db'.bridges.Retired k
  bridgePorts : ∀ k, db.bridgePorts.Retired k → db'.bridgePorts.Retired k
  bridgeEnvs : ∀ k, db.bridgeEnvs.Retired k → db'.bridgeEnvs.Retired k
  connections : ∀ k, db.connections.Retired k → db'.connections.Retired k
  clientNodes : ∀ k, db.clientNodes.Retired k → db'.clientNodes.Retired k

namespace Retires

variable {db db' db'' : Database}

theorem refl (db : Database) : db.Retires db :=
  ⟨fun _ h => h, fun _ h => h, fun _ h => h, fun _ h => h, fun _ h => h, fun _ h => h⟩

theorem trans (h : db.Retires db') (h' : db'.Retires db'') : db.Retires db'' where
  images k hk := h'.images k (h.images k hk)
  bridges k hk := h'.bridges k (h.bridges k hk)
  bridgePorts k hk := h'.bridgePorts k (h.bridgePorts k hk)
  bridgeEnvs k hk := h'.bridgeEnvs k (h.bridgeEnvs k hk)
  connections k hk := h'.connections k (h.connections k hk)
  clientNodes k hk := h'.clientNodes k (h.clientNodes k hk)

theorem insertBridgeEnvs (db : Database) (bridgeId : RowId) (envs : List (String × String))
    (good : Nat) : db.Retires (db.insertBridgeEnvs bridgeId envs good).2 := by
  induction envs generalizing db good with
  | nil => cases good <;> exact refl db
  | cons pair rest ih =>
      cases good with
      | zero => exact refl db
      | succ good =>
          simp only [Database.insertBridgeEnvs]
          split
          · rename_i db' hdb
            have hinsert : db.Retires db' := by
              unfold Database.insertBridgeEnv at hdb
              repeat' split at hdb
              · cases hdb
              · cases hdb
              · obtain rfl := Option.some.inj hdb
                exact { refl db with bridgeEnvs := fun _ hk => hk.insert }
            exact hinsert.trans (ih db' good)
          · exact refl db

theorem setBridgeEnvs (db : Database) (bridgeId : RowId) (envs : List (String × String))
    (good : Nat) : db.Retires (db.setBridgeEnvs bridgeId envs good) := by
  cases good with
  | zero => exact refl db
  | succ good =>
      have hdeleted : db.Retires { db with
          bridgeEnvs := db.bridgeEnvs.deleteWhere fun r => r.bridgeId == bridgeId } :=
        { refl db with bridgeEnvs := fun _ hk => hk.deleteWhere _ }
      exact hdeleted.trans (insertBridgeEnvs _ bridgeId envs good)

/-- No statement gives out a key twice. -/
theorem of_write (h : db.Write db') : db.Retires db' := by
  cases h with
  | insertImage name source sourceType =>
      exact { refl db with
        images := fun _ hk => (hk.deleteWhere _).insert
        connections := fun _ hk => hk.of_changes rfl rfl fun _ => rfl }
  | insertBridge hdb =>
      unfold Database.insertBridge at hdb
      split at hdb
      · cases hdb
      · obtain rfl := Option.some.inj hdb
        exact { refl db with bridges := fun _ hk => hk.insert }
  | deleteBridge bridgeId =>
      exact { refl db with
        bridges := fun _ hk => hk.deleteWhere _
        bridgePorts := fun _ hk => hk.deleteWhere _
        bridgeEnvs := fun _ hk => hk.deleteWhere _
        connections := fun _ hk => hk.of_changes rfl rfl fun _ => rfl }
  | insertBridgePort hdb =>
      rw [Database.insertBridgePort_eq hdb]
      exact { refl db with bridgePorts := fun _ hk => hk.insert }
  | deleteBridgePort bridgeId containerPort =>
      exact { refl db with bridgePorts := fun _ hk => hk.deleteWhere _ }
  | setBridgeEnvs bridgeId envs good => exact setBridgeEnvs db bridgeId envs good
  | insertConnection name => exact { refl db with connections := fun _ hk => hk.insert }
  | updateConnection hdb =>
      unfold Database.updateConnection at hdb
      split at hdb
      · obtain rfl := Option.some.inj hdb
        exact refl db
      · dsimp only at hdb
        split at hdb
        · obtain rfl := Option.some.inj hdb
          exact { refl db with connections := fun _ hk => hk.of_changes rfl rfl fun _ => rfl }
        · cases hdb
  | updateConnectionNode _ hdb =>
      rw [Database.updateConnectionNode_eq hdb]
      exact { refl db with connections := fun _ hk => hk.of_changes rfl rfl fun _ => rfl }
  | deleteConnection id => exact { refl db with connections := fun _ hk => hk.deleteWhere _ }
  | upsertNode nodeUuid serviceDigest hostname first last =>
      unfold Database.upsertNode
      split
      · exact { refl db with clientNodes := fun _ hk => hk.of_changes rfl rfl fun _ => rfl }
      · exact { refl db with clientNodes := fun _ hk => hk.insert }
  | setNodeOffline nodeUuid =>
      exact { refl db with clientNodes := fun _ hk => hk.of_changes rfl rfl fun _ => rfl }
  | markAllOffline =>
      exact { refl db with clientNodes := fun _ hk => hk.of_changes rfl rfl fun _ => rfl }

end Retires

end Database

/-! ## What a step writes -/

namespace Shared

open Database (Write Write?)

theorem RequestWrite.write {db db' : Database} {r : Request} (h : RequestWrite db r db') :
    db.Write? db' := by
  cases h with
  | same => exact .inl rfl
  | postBridge hdb => exact .inr (.insertBridge hdb)
  | postEnv => exact .inr (.setBridgeEnvs _ _ _)
  | postConnection => exact .inr (.insertConnection _)

theorem HandlerWrite.write {db db' : Database} {fault : Bool} {pc : ApiPc}
    (h : HandlerWrite db fault pc db') : db.Write? db' := by
  cases h with
  | same => exact .inl rfl
  | insertPort _ hdb => exact .inr (.insertBridgePort hdb)
  | deleteBridge => exact .inr (.deleteBridge _)
  | deletePort => exact .inr (.deleteBridgePort _ _)
  | newSlots _ hdb | patch _ hdb => exact .inr (.updateConnection hdb)
  | delete => exact .inr (.deleteConnection _)

theorem DeployStep.write {s t : Shared} {call : CallId} {id : RowId} {fault : Bool}
    {pc : DeployPc} {next : DeployNext} (h : DeployStep s call id fault pc t next) :
    s.db.Write? t.db := by
  rcases h.lastDeploy with ⟨-, heq⟩ | ⟨d, db, -, rfl, rfl, hdb, -⟩
  · exact .inl heq
  · exact .inr (.updateConnectionNode (by simp) hdb)

theorem StopStep.write {s t : Shared} {call : CallId} {id : RowId} {fault : Bool} {pc : StopPc}
    {next : StopNext} (h : StopStep s call id fault pc t next) : s.db.Write? t.db := by
  cases h
  case insert info nodeUuid ch =>
    obtain ⟨_, _, _, h⟩ := s.insertWaiter_frame ch info.containerName call
    exact .inl (by rw [h])
  case finished hdb => exact .inr (.updateConnectionNode (by simp) hdb)
  all_goals exact .inl rfl

theorem SyncStep.write {s t : Shared} {fault : Bool} {pc next : SyncPc}
    (h : SyncStep s fault pc t next) : s.db.Write? t.db := by
  cases h
  case pend hdb => exact .inr (.updateConnectionNode (by simp) hdb)
  case offline => exact .inr (.setNodeOffline _)
  all_goals exact .inl rfl

theorem syncEvent_write (s : Shared) (fault : Bool) (update : NodeUpdate) :
    s.db.Write? (s.syncEvent fault update).1.db := by
  unfold syncEvent
  split
  · split
    · exact .inl rfl
    · exact .inr (.upsertNode _ _ _ _ _)
  · exact .inl rfl
  · exact .inl rfl

theorem Around.write {s t : Shared} {localAddr : LocalAddr} (h : s.Around localAddr t) :
    s.db.Write? t.db := by
  obtain ⟨_, _, _, _, _, _, _, _, heq | ⟨name, source, sourceType, heq⟩⟩ := h.frame
  · exact .inl heq
  · rw [heq]
    exact .inr (.insertImage name source sourceType)

end Shared

namespace Server

variable {ports : FreshPool} {localAddr : LocalAddr} {s s' : Server} {label : Label}

/-- A step runs at most one statement. -/
theorem Move.write (h : s.Move ports localAddr label s') :
    s.shared.db.Write? s'.shared.db := by
  cases h with
  | @deploy _ _ call id pc t next _ _ hdeploy hshared =>
      obtain ⟨log, hlog⟩ := t.endCall_frame call id next
      have heq : (t.endCall call id next).db = t.db := by rw [hlog]
      rw [hshared, heq]
      exact hdeploy.write
  | stop _ _ _ hstop hshared =>
      rw [hshared]
      exact hstop.write
  | start _ hshared | startStop _ hshared =>
      rw [hshared]
      exact .inl rfl
  | @request fault r _ _ hshared =>
      rw [hshared]
      exact (s.shared.request_write fault r).write
  | handler hstep hshared =>
      rw [hshared]
      exact (Shared.handlerStep_write hstep).write
  | @event fault update _ _ hshared =>
      rw [hshared]
      exact s.shared.syncEvent_write fault update
  | sync hsync hshared =>
      rw [hshared]
      exact hsync.write
  | surroundings _ hsurr => exact hsurr.write
  | restart => exact .inr .markAllOffline

/-- What every statement keeps, every run keeps. -/
theorem always_of_write {P : Database → Prop}
    (hwrite : ∀ db db', P db → db.Write db' → P db') (labels : List Label) (hs : s.Fresh)
    (hP : P s.shared.db) :
    (kdcts ports localAddr).Always (fun t => P t.shared.db) s labels := by
  refine Machine.Always.mono (fun _ h => h.2)
    (Machine.always_of_step (I := fun t => t.Fresh ∧ P t.shared.db) ?_ labels ⟨hs, hP⟩)
  rintro s label t ⟨hf, hP⟩ hstep
  obtain ⟨hmove, hf'⟩ := step_move hf hstep
  refine ⟨hf', ?_⟩
  rcases hmove.write with heq | hw
  · rwa [heq]
  · exact hwrite _ _ hP hw

theorem fresh_run (ports : FreshPool) (localAddr : LocalAddr) (db : Database)
    (labels : List Label) : (kdcts ports localAddr).Always Fresh (.boot db ports) labels :=
  Machine.always_of_step (fun _ _ _ hf hstep => (step_move hf hstep).2) labels
    (fresh_boot db ports)

/-- In every state of every run the schema's promise holds: unique columns are unique,
foreign keys name rows that are there, and exactly the deployed connections have a
container. -/
theorem sound_run (ports : FreshPool) (localAddr : LocalAddr) (db : Database)
    (labels : List Label) (hdb : db.Sound) :
    (kdcts ports localAddr).Always (fun s => s.shared.db.Sound) (.boot db ports) labels :=
  always_of_write (fun _ _ h hw => h.write hw) labels (fresh_boot db ports) hdb.markAllOffline

theorem sound_run_oneConnection :
    (kdcts samplePool fun _ => none).Always (fun s => s.shared.db.Sound)
      (.boot .empty samplePool) Label.oneConnection :=
  sound_run samplePool (fun _ => none) .empty Label.oneConnection Database.sound_empty

/-- In every run, a key that was given out and whose row is gone never comes back. -/
theorem retires_run (ports : FreshPool) (localAddr : LocalAddr) (db : Database)
    (labels more : List Label) :
    (kdcts ports localAddr).Always
      (fun s => (kdcts ports localAddr).Always
        (fun t => s.shared.db.Retires t.shared.db) s more) (.boot db ports) labels := by
  refine (fresh_run ports localAddr db labels).mono fun s hf => ?_
  refine always_of_write (P := s.shared.db.Retires) (fun db' db'' h hw => ?_) more hf
    (Database.Retires.refl _)
  exact h.trans (.of_write hw)

end Server

end Kdct
