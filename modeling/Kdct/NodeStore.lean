/-
The identities of nodes, in memory and in the database.

The bindings of a running server say which digest a uuid belongs to.  Every channel that
has resolved its identity announces it, and the announcements are brought to
`client_nodes` one by one (`crates/kdcts/src/main.rs`).  A restart drops those that have
not been, and makes the bindings anew from the rows (`load_bindings` in
`crates/kdcts/src/db.rs`).

`StoreInv` ties the three together: what a row says is bound, and so is what a channel
has been given.  `run_keeps` is what runs make of it.
-/
import Kdct.ControlChannel.Identity
import Kdct.Database
import Mathlib.Data.List.Induction

namespace Kdct

/-! ## Bindings and rows -/

/-- A row of the query in `load_bindings`. -/
def loadRow (bindings : HashMap NodeUuid String) (n : ClientNode) : HashMap NodeUuid String :=
  match n.authDigest with
  | some digest => bindings.insert n.nodeUuid digest
  | none => bindings

namespace Database

def loadBindings (db : Database) : HashMap NodeUuid String :=
  db.clientNodes.rows.foldl loadRow ∅

/-- `node_uuid` is unique. -/
def OneRowEach (db : Database) : Prop :=
  ∀ n ∈ db.clientNodes.rows, ∀ n' ∈ db.clientNodes.rows, n.nodeUuid = n'.nodeUuid → n = n'

end Database

theorem lookup_of_loadRow {rows : List ClientNode} {n : ClientNode} {digest : String}
    (hone : ∀ m ∈ rows, m.nodeUuid = n.nodeUuid → m = n) (hn : n ∈ rows)
    (hdigest : n.authDigest = some digest) :
    (rows.foldl loadRow ∅).lookup n.nodeUuid = some digest := by
  induction rows using List.reverseRecOn with
  | nil => exact absurd hn List.not_mem_nil
  | append_singleton rows m ih =>
      rw [List.foldl_append, List.foldl_cons, List.foldl_nil, loadRow]
      by_cases hm : m = n
      · subst hm
        simp only [hdigest]
        rw [HashMap.lookup_insert_eq, if_pos rfl]
      · have hne : n.nodeUuid ≠ m.nodeUuid := fun heq =>
          hm (hone m (List.mem_append_right _ (List.mem_singleton_self m)) heq.symm)
        have hold := ih (fun k hk => hone k (List.mem_append_left _ hk))
          ((List.mem_append.mp hn).resolve_right fun hin => hm (List.mem_singleton.mp hin).symm)
        split
        · rw [HashMap.lookup_insert_eq, if_neg hne]
          exact hold
        · exact hold

/-! ## The store -/

def Trace.update? : Trace → Option NodeUpdate
  | .update _ v => some v
  | _ => none

/-- What the channels have sent, oldest first. -/
def Hub.updates (s : Hub) : List NodeUpdate := s.trace.reverse.filterMap Trace.update?

/-- What an update changes in `client_nodes`. -/
def Database.syncUpdate (db : Database) (update : NodeUpdate) : Database :=
  match update.event with
  | .connected digest status =>
      db.upsertNode update.uuid digest status.hostname status.portRangeStart status.portRangeEnd
  | .disconnected _ => db.setNodeOffline update.uuid
  | _ => db

structure NodeStore where
  registrar : Registrar
  /-- How many updates have been received. -/
  synced : Nat
  db : Database

namespace NodeStore

inductive Label
  | hub (label : HubLabel)
  /-- The next update is received; `fault` says that the database cannot be opened or the
  statement fails. -/
  | sync (fault : Bool)
  | restart
  deriving DecidableEq

/-- A server that starts on a database. -/
def boot (db : Database) : NodeStore where
  registrar := .start db.markAllOffline.loadBindings
  synced := 0
  db := db.markAllOffline

def step (parses : String → Bool) (s : NodeStore) : Label → Option NodeStore
  | .hub label => (s.registrar.step parses label).map fun r => { s with registrar := r }
  | .sync fault => s.registrar.hub.updates[s.synced]?.map fun update =>
      { s with synced := s.synced + 1, db := if fault then s.db else s.db.syncUpdate update }
  | .restart => some (boot s.db)

end NodeStore

def nodeStore (parses : String → Bool) : Machine NodeStore NodeStore.Label where
  init := .boot .empty
  step := NodeStore.step parses

/-! ## Writing rows -/

/-- Every row stays, with the digest it has. -/
def Database.KeepsDigests (db db' : Database) : Prop :=
  ∀ n ∈ db.clientNodes.rows, ∃ n' ∈ db'.clientNodes.rows, n'.id = n.id ∧
    n'.nodeUuid = n.nodeUuid ∧ ∀ digest, n.authDigest = some digest → n'.authDigest = some digest

/-- What the rows say is bound. -/
structure Database.Agrees (db : Database) (bindings : HashMap NodeUuid String) : Prop where
  one : db.OneRowEach
  bound : ∀ n ∈ db.clientNodes.rows, ∀ digest, n.authDigest = some digest →
    bindings.lookup n.nodeUuid = some digest

namespace Database

variable {db : Database} {bindings : HashMap NodeUuid String}

theorem KeepsDigests.refl (db : Database) : db.KeepsDigests db :=
  fun n hn => ⟨n, hn, rfl, rfl, fun _ => id⟩

theorem KeepsDigests.trans {db' db'' : Database} (h : db.KeepsDigests db')
    (h' : db'.KeepsDigests db'') : db.KeepsDigests db'' := by
  intro n hn
  obtain ⟨n', hn', hid, huuid, hdigest⟩ := h n hn
  obtain ⟨n'', hn'', hid', huuid', hdigest'⟩ := h' n' hn'
  exact ⟨n'', hn'', hid'.trans hid, huuid'.trans huuid, fun d hd => hdigest' d (hdigest d hd)⟩

/-- An update of rows that keeps their uuids and writes only digests that are bound. -/
theorem Agrees.updateWhere (h : db.Agrees bindings) {p : ClientNode → Bool}
    {f : ClientNode → ClientNode} {hf : ∀ n, (f n).id = n.id}
    (huuid : ∀ n, (f n).nodeUuid = n.nodeUuid)
    (hkeep : ∀ n ∈ db.clientNodes.rows, p n = true → ∀ digest, n.authDigest = some digest →
      (f n).authDigest = some digest)
    (hbound : ∀ n ∈ db.clientNodes.rows, p n = true → ∀ digest, (f n).authDigest = some digest →
      bindings.lookup n.nodeUuid = some digest) :
    Agrees { db with clientNodes := db.clientNodes.updateWhere p f hf } bindings ∧
      db.KeepsDigests { db with clientNodes := db.clientNodes.updateWhere p f hf } := by
  have huuid' : ∀ n, (if p n then f n else n).nodeUuid = n.nodeUuid := by
    intro n
    split
    · exact huuid n
    · rfl
  have hmem : ∀ n, n ∈ (db.clientNodes.updateWhere p f hf).rows ↔
      ∃ m ∈ db.clientNodes.rows, n = if p m then f m else m := fun _ => Table.mem_updateWhere
  refine ⟨⟨fun n hn n' hn' heq => ?_, fun n hn digest hdigest => ?_⟩, fun n hn => ?_⟩
  · obtain ⟨m, hm, rfl⟩ := (hmem n).mp hn
    obtain ⟨m', hm', rfl⟩ := (hmem n').mp hn'
    rw [huuid', huuid'] at heq
    rw [h.one m hm m' hm' heq]
  · obtain ⟨m, hm, rfl⟩ := (hmem n).mp hn
    rw [huuid']
    split at hdigest
    · rename_i hp
      exact hbound m hm hp digest hdigest
    · exact h.bound m hm digest hdigest
  · refine ⟨_, (hmem _).mpr ⟨n, hn, rfl⟩, ?_, huuid' n,
      fun digest hdigest => ?_⟩
    · split
      · exact hf n
      · rfl
    · split
      · rename_i hp
        exact hkeep n hn hp digest hdigest
      · exact hdigest

theorem Agrees.setNodeOffline (h : db.Agrees bindings) (nodeUuid : String) :
    (db.setNodeOffline nodeUuid).Agrees bindings ∧
      db.KeepsDigests (db.setNodeOffline nodeUuid) :=
  h.updateWhere (fun _ => rfl) (fun _ _ _ _ => id) fun n hn _ => h.bound n hn

theorem Agrees.markAllOffline (h : db.Agrees bindings) :
    db.markAllOffline.Agrees bindings ∧ db.KeepsDigests db.markAllOffline :=
  h.updateWhere (fun _ => rfl) (fun _ _ _ _ => id) fun n hn _ => h.bound n hn

/-- A row is written for a uuid with the digest it is bound to. -/
theorem Agrees.upsertNode (h : db.Agrees bindings) {uuid digest : String}
    (hbound : bindings.lookup uuid = some digest) (hostname : String)
    (portRangeStart portRangeEnd : Port) :
    (db.upsertNode uuid digest hostname portRangeStart portRangeEnd).Agrees bindings ∧
      db.KeepsDigests (db.upsertNode uuid digest hostname portRangeStart portRangeEnd) := by
  unfold Database.upsertNode
  split
  · refine h.updateWhere (fun _ => rfl) (fun n hn hp d hd => ?_) fun n hn hp d hd => ?_
    · rw [← hbound, ← beq_iff_eq.mp hp]
      exact h.bound n hn d hd
    · obtain rfl : n.nodeUuid = uuid := beq_iff_eq.mp hp
      exact hbound.trans hd
  · rename_i hnone
    have hfree : ∀ n ∈ db.clientNodes.rows, n.nodeUuid ≠ uuid := by
      intro n hn heq
      exact List.find?_eq_none.mp hnone n hn (beq_iff_eq.mpr heq)
    refine ⟨⟨fun n hn n' hn' heq => ?_, fun n hn d hd => ?_⟩, fun n hn => ?_⟩
    · rcases Table.mem_insert.mp hn with hn | rfl <;> rcases Table.mem_insert.mp hn' with hn' | rfl
      · exact h.one n hn n' hn' heq
      · exact absurd heq (hfree n hn)
      · exact absurd heq.symm (hfree n' hn')
      · rfl
    · rcases Table.mem_insert.mp hn with hn | rfl
      · exact h.bound n hn d hd
      · exact hbound.trans hd
    · exact ⟨n, Table.mem_insert.mpr (.inl hn), rfl, rfl, fun _ => id⟩

theorem Agrees.syncUpdate (h : db.Agrees bindings) {update : NodeUpdate}
    (hbound : ∀ digest status, update.event = .connected digest status →
      bindings.lookup update.uuid = some digest) :
    (db.syncUpdate update).Agrees bindings ∧ db.KeepsDigests (db.syncUpdate update) := by
  unfold Database.syncUpdate
  split
  · rename_i digest status hevent
    exact h.upsertNode (hbound digest status hevent) _ _ _
  · exact h.setNodeOffline _
  · exact ⟨h, .refl db⟩

/-- The rows of a database are what `loadBindings` makes of them. -/
theorem Agrees.load (h : db.OneRowEach) : db.Agrees db.loadBindings where
  one := h
  bound n hn _ hdigest := lookup_of_loadRow (fun m hm => h m hm n hn) hn hdigest

end Database

/-! ## Runs -/

namespace NodeStore

structure StoreInv (s : NodeStore) : Prop where
  sound : s.registrar.Sound
  agrees : s.db.Agrees s.registrar.hub.bindings

/-- A uuid stays bound as it is, and a channel keeps its uuid. -/
structure KeepsIdentities (s t : NodeStore) : Prop where
  bindings : ∀ u digest, s.registrar.hub.bindings.lookup u = some digest →
    t.registrar.hub.bindings.lookup u = some digest
  channels : ∀ c ch u, s.registrar.hub.channels c = some ch → ch.nodeUuid = some u →
    ∃ ch', t.registrar.hub.channels c = some ch' ∧ ch'.nodeUuid = some u

theorem KeepsIdentities.refl (s : NodeStore) : s.KeepsIdentities s :=
  ⟨fun _ _ => id, fun _ ch _ hch hu => ⟨ch, hch, hu⟩⟩

theorem KeepsIdentities.trans {s t u : NodeStore} (h : s.KeepsIdentities t)
    (h' : t.KeepsIdentities u) : s.KeepsIdentities u := by
  refine ⟨fun v digest hv => h'.bindings v digest (h.bindings v digest hv), ?_⟩
  intro c ch v hch hv
  obtain ⟨ch', hch', hv'⟩ := h.channels c ch v hch hv
  exact h'.channels c ch' v hch' hv'

theorem storeInv_boot {db : Database} (h : db.OneRowEach) :
    (boot db).StoreInv ∧ db.KeepsDigests (boot db).db := by
  obtain ⟨hagrees, hkeeps⟩ := (Database.Agrees.load h).markAllOffline
  exact ⟨⟨Registrar.sound_start _, .load hagrees.one⟩, hkeeps⟩

variable {parses : String → Bool} {s t : NodeStore} {label : Label}

theorem mem_updates {hub : Hub} {update : NodeUpdate} (h : update ∈ hub.updates) :
    ∃ c, .update c update ∈ hub.trace := by
  obtain ⟨e, he, hupdate⟩ := List.mem_filterMap.mp h
  cases e with
  | update c v => exact ⟨c, (Option.some.inj hupdate) ▸ List.mem_reverse.mp he⟩
  | claimed | registered => cases hupdate

/-- One step keeps the rows, and all but a restart the identities. -/
theorem storeInv_step (hs : s.StoreInv) (h : s.step parses label = some t) :
    t.StoreInv ∧ s.db.KeepsDigests t.db ∧ (label ≠ .restart → s.KeepsIdentities t) := by
  cases label with
  | hub label =>
      obtain ⟨r, hr, rfl⟩ := Option.map_eq_some_iff.mp h
      have hbindings : ∀ u digest, s.registrar.hub.bindings.lookup u = some digest →
          r.hub.bindings.lookup u = some digest := fun _ _ => Registrar.step_bindings hs.sound hr
      refine ⟨⟨Registrar.sound_step hs.sound hr, hs.agrees.one, fun n hn digest hd => ?_⟩,
        .refl _, fun _ => ⟨hbindings, fun c ch u hch hu => ?_⟩⟩
      · exact hbindings _ _ (hs.agrees.bound n hn digest hd)
      · obtain ⟨ch', hch', hcont⟩ := Registrar.step_continues hs.sound hr hch
        exact ⟨ch', hch', hcont.nodeUuid u hu⟩
  | sync fault =>
      obtain ⟨update, hupdate, rfl⟩ := Option.map_eq_some_iff.mp h
      obtain ⟨c, hc⟩ := mem_updates (List.mem_of_getElem? hupdate)
      obtain ⟨hagrees, hkeeps⟩ := hs.agrees.syncUpdate fun digest status hevent =>
        hs.sound.updates c update digest status hc hevent
      refine ⟨⟨hs.sound, ?_⟩, ?_, fun _ => ⟨fun _ _ => id, fun _ ch _ hch hu => ⟨ch, hch, hu⟩⟩⟩
      · dsimp only
        split
        · exact hs.agrees
        · exact hagrees
      · dsimp only
        split
        · exact .refl _
        · exact hkeeps
  | restart =>
      obtain rfl := Option.some.inj h
      obtain ⟨hinv, hkeeps⟩ := storeInv_boot hs.agrees.one
      exact ⟨hinv, hkeeps, fun hne => absurd rfl hne⟩

theorem storeInv_run {labels : List Label} (hs : s.StoreInv)
    (h : (nodeStore parses).run s labels = some t) :
    t.StoreInv ∧ s.db.KeepsDigests t.db ∧ (.restart ∉ labels → s.KeepsIdentities t) := by
  induction labels generalizing s with
  | nil =>
      obtain rfl := Option.some.inj h
      exact ⟨hs, .refl _, fun _ => .refl _⟩
  | cons label labels ih =>
      obtain ⟨u, hu, hrest⟩ := Machine.run_cons_eq_some _ h
      obtain ⟨hinv, hrows, hids⟩ := storeInv_step hs hu
      obtain ⟨hinv', hrows', hids'⟩ := ih hinv hrest
      refine ⟨hinv', hrows.trans hrows', fun hno => ?_⟩
      obtain ⟨hlabel, hlabels⟩ := not_or.mp (List.mem_cons.not.mp hno)
      exact (hids fun heq => hlabel heq.symm).trans (hids' hlabels)

/-- Uuid claims cannot cross digests: a row keeps its digest over every run, a channel
that is known as a uuid has the digest the uuid is bound to, and as long as the server
runs, a uuid stays bound as it is and a channel keeps its uuid. -/
theorem run_keeps (parses : String → Bool) (s t : NodeStore) (labels : List Label)
    (hs : (nodeStore parses).Reachable s) (h : (nodeStore parses).run s labels = some t) :
    (∀ n ∈ s.db.clientNodes.rows, ∀ digest, n.authDigest = some digest →
      ∃ n' ∈ t.db.clientNodes.rows, n'.id = n.id ∧ n'.nodeUuid = n.nodeUuid ∧
        n'.authDigest = some digest) ∧
    (∀ c ch u, t.registrar.hub.channels c = some ch → ch.nodeUuid = some u →
      t.registrar.hub.bindings.lookup u = some ch.digestHex) ∧
    (.restart ∉ labels →
      (∀ u digest, s.registrar.hub.bindings.lookup u = some digest →
        t.registrar.hub.bindings.lookup u = some digest) ∧
      ∀ c ch u, s.registrar.hub.channels c = some ch → ch.nodeUuid = some u →
        ∃ ch', t.registrar.hub.channels c = some ch' ∧ ch'.nodeUuid = some u) := by
  have hinv : s.StoreInv := by
    obtain ⟨before, hbefore⟩ := hs
    have hempty : Database.empty.OneRowEach := fun n hn => absurd hn List.not_mem_nil
    exact (storeInv_run (storeInv_boot hempty).1 hbefore).1
  obtain ⟨hinv', hrows, hids⟩ := storeInv_run hinv h
  refine ⟨fun n hn digest hdigest => ?_, fun c ch u hch hu => ?_, fun hno => ?_⟩
  · obtain ⟨n', hn', hid, huuid, hkeep⟩ := hrows n hn
    exact ⟨n', hn', hid, huuid, hkeep digest hdigest⟩
  · have hsound := hinv'.sound.channels c ch hch
    exact hinv'.sound.bound c ch u hch (Channel.given_eq_nodeUuid hsound hu)
  · exact ⟨(hids hno).bindings, (hids hno).channels⟩

/-- A node connects and is stored, and the server restarts before its container report is
synced. -/
theorem run_keeps_restart :
    ∃ s t, (nodeStore fun _ => true).run (.boot .empty)
        ((connects 0 (sampleDigest 1)).map .hub ++ [.sync false]) = some s ∧
      (nodeStore fun _ => true).run s
        [.hub (.container 0 (.started "web" [])), .hub (.advance 0 ""), .restart] = some t ∧
      ∀ n ∈ s.db.clientNodes.rows, ∀ digest, n.authDigest = some digest →
        ∃ n' ∈ t.db.clientNodes.rows, n'.id = n.id ∧ n'.nodeUuid = n.nodeUuid ∧
          n'.authDigest = some digest := by
  obtain ⟨t, ht⟩ : ∃ t, (nodeStore fun _ => true).run (.boot .empty)
      ((connects 0 (sampleDigest 1)).map .hub ++ [.sync false] ++
        [.hub (.container 0 (.started "web" [])), .hub (.advance 0 ""), .restart]) = some t :=
    Option.isSome_iff_exists.mp (by decide)
  rw [Machine.run_append] at ht
  obtain ⟨s, hs, ht⟩ := Option.bind_eq_some_iff.mp ht
  exact ⟨s, t, hs, ht, (run_keeps _ s t _ ⟨_, hs⟩ ht).1⟩

end NodeStore

end Kdct
