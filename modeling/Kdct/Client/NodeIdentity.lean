/-
The identity a client keeps, and the identities its services are given
(`crates/tunnel/src/client.rs`).

All services of a client share one file, `~/.kdct/node_id`.  Each of them reads it when
the client starts and reports what it has in memory whenever it connects.  A uuid that
the server assigns to one of them goes into its memory and into the file, over the uuid
of another.

`Stable` says that a service is resolved to the same uuid every time.  It holds exactly
in the runs in which every service returns with its own uuid, or without any while it
is the only one of its digest and known to be offline.
-/
import Kdct.ControlChannel.Identity

namespace Kdct

/-! ## Resolutions of one digest -/

namespace Registrar

/-- A digest is resolved to one uuid, and so at most one uuid is bound to it that was not
bound from the start. -/
structure Stable (bindings : HashMap NodeUuid String) (s : Registrar) : Prop where
  same : ∀ r ∈ s.resolutions, ∀ r' ∈ s.resolutions, r.digest = r'.digest → r.uuid = r'.uuid
  gain : ∀ u ∈ s.hub.bindings.keys, ∀ u' ∈ s.hub.bindings.keys, u ∉ bindings.keys →
    u' ∉ bindings.keys → s.hub.bindings.lookup u = s.hub.bindings.lookup u' → u = u'

/-- Who has been resolved before claims that uuid, or nothing while the uuid is the only
one of the digest and was not online. -/
def Returns (parses : String → Bool) (s : Registrar) : HubLabel → Prop
  | .advance c _ =>
      ∀ ch ∈ s.hub.channels c,
        match ch.pc, ch.nodeUuid with
        | .resolve status online, none =>
            ∀ r ∈ s.resolutions, r.digest = ch.digestHex →
              claimedUuid parses status.nodeUuid = some r.uuid ∨
                claimedUuid parses status.nodeUuid = none ∧
                  soloOffline s.hub.bindings ch.digestHex online = some r.uuid
        | _, _ => True
  | _ => True

/-- What is bound and was not from the start has been given to somebody. -/
def Sourced (bindings : HashMap NodeUuid String) (s : Registrar) : Prop :=
  ∀ u ∈ s.hub.bindings.keys, u ∉ bindings.keys → ∃ r ∈ s.resolutions, r.uuid = u

section

variable {parses : String → Bool} {bindings : HashMap NodeUuid String} {s t : Registrar}
  {label : HubLabel}

/-- A step binds only what it resolves to. -/
theorem keys_of_step (hs : s.Sound) (h : s.step parses label = some t) {u : NodeUuid}
    (hu : u ∈ t.hub.bindings.keys) :
    u ∈ s.hub.bindings.keys ∨ ∃ r ∈ t.resolutions, r.uuid = u := by
  obtain ⟨hfresh, _, hres⟩ := step_cases h
  have hkind := identityStep hs h
  generalize t.hub = hub at hkind hu
  cases hkind with
  | spawn hnew => exact .inl hu
  | resolve hch hpc hnone hresolve =>
      rcases resolveBinding_cases (hfresh _ rfl) hresolve with ⟨rfl, _⟩ | ⟨rfl, _⟩
      · exact .inl hu
      · rcases AList.mem_insert _ |>.mp (AList.mem_keys.mp hu) with heq | hold
        · rw [Hub.resolution?_eq hch hpc hnone hresolve] at hres
          exact .inr ⟨_, hres ▸ List.mem_append_left _ (List.mem_singleton_self _), heq.symm⟩
        · exact .inl (AList.mem_keys.mpr hold)
  | keeps hnone hkeeps => exact .inl (hkeeps.bindings ▸ hu)

theorem sourced_step (hs : s.Sound) (hsource : s.Sourced bindings)
    (h : s.step parses label = some t) : t.Sourced bindings := by
  intro u hu hinit
  rcases keys_of_step hs h hu with hold | hnew
  · obtain ⟨r, hr, huuid⟩ := hsource u hold hinit
    exact ⟨r, (step_cases h).2.2 ▸ List.mem_append_right _ hr, huuid⟩
  · exact hnew

/-- When a digest is resolved to one uuid, it gains at most this uuid. -/
theorem stable_of_same (hs : s.Sound) (hsource : s.Sourced bindings)
    (hsame : ∀ r ∈ s.resolutions, ∀ r' ∈ s.resolutions, r.digest = r'.digest → r.uuid = r'.uuid) :
    s.Stable bindings := by
  refine ⟨hsame, fun u hu u' hu' hinit hinit' hdigest => ?_⟩
  obtain ⟨r, hr, rfl⟩ := hsource u hu hinit
  obtain ⟨r', hr', rfl⟩ := hsource u' hu' hinit'
  rw [bound_of_mem hs hr, bound_of_mem hs hr'] at hdigest
  exact hsame r hr r' hr' (Option.some.inj hdigest)

/-- A channel that claims the uuid of its digest gets it. -/
theorem resolveBinding_returns {digestHex : String} {online : List NodeUuid}
    {claimed : Option NodeUuid} {fresh u : NodeUuid} (hu : bindings.lookup u = some digestHex)
    (h : claimed = some u ∨ claimed = none ∧ soloOffline bindings digestHex online = some u) :
    (resolveBinding bindings digestHex online claimed fresh).1.uuid = u := by
  rcases h with rfl | ⟨rfl, hsolo⟩
  · simp only [resolveBinding, hu, if_true]
    rfl
  · rw [resolveBinding_none, hsolo]
    rfl

/-- A channel gets a bound uuid only by claiming it or by having it restored. -/
theorem returns_of_resolveBinding {digestHex : String} {online : List NodeUuid}
    {claimed : Option NodeUuid} {fresh u : NodeUuid} (hu : bindings.lookup u = some digestHex)
    (hfresh : bindings.lookup fresh = none)
    (h : (resolveBinding bindings digestHex online claimed fresh).1.uuid = u) :
    claimed = some u ∨ claimed = none ∧ soloOffline bindings digestHex online = some u := by
  have hne : fresh ≠ u := by
    rintro rfl
    rw [hfresh] at hu
    cases hu
  cases claimed with
  | some c =>
      simp only [resolveBinding] at h
      split at h
      · split at h
        · exact .inl (congrArg some h)
        · exact absurd h hne
      · exact .inl (congrArg some h)
  | none =>
      rw [resolveBinding_none] at h
      split at h
      · rename_i only hsolo
        exact .inr ⟨rfl, hsolo.trans (congrArg some h)⟩
      · exact absurd h hne

theorem same_step (hs : s.Sound)
    (hsame : ∀ r ∈ s.resolutions, ∀ r' ∈ s.resolutions, r.digest = r'.digest → r.uuid = r'.uuid)
    (hC : s.Returns parses label) (h : s.step parses label = some t) :
    ∀ r ∈ t.resolutions, ∀ r' ∈ t.resolutions, r.digest = r'.digest → r.uuid = r'.uuid := by
  -- What a step resolves is what the digest was resolved to before.
  have hnew : ∀ r r', s.hub.resolution? parses label = some r → r' ∈ s.resolutions →
      r.digest = r'.digest → r.uuid = r'.uuid := by
    intro r r' hr hr' hdigest
    cases label with
    | advance c fresh =>
        obtain ⟨ch, hch, hr⟩ := Option.bind_eq_some_iff.mp hr
        have hC := hC ch hch
        split at hr
        · rename_i status online hpc hnone
          obtain rfl := Option.some.inj hr
          have hdigest : r'.digest = ch.digestHex := hdigest.symm
          simp only [hpc, hnone] at hC
          exact resolveBinding_returns (hdigest ▸ bound_of_mem hs hr') (hC r' hr' hdigest)
        · cases hr
    | _ => cases hr
  intro r hr r' hr' hdigest
  rw [(step_cases h).2.2] at hr hr'
  rcases List.mem_append.mp hr with hr | hr <;> rcases List.mem_append.mp hr' with hr' | hr'
  · have hr := Option.mem_toList.mp hr
    have hr' := Option.mem_toList.mp hr'
    rw [Option.some.inj (hr.symm.trans hr')]
  · exact hnew r r' (Option.mem_toList.mp hr) hr' hdigest
  · exact (hnew r' r (Option.mem_toList.mp hr') hr hdigest.symm).symm
  · exact hsame r hr r' hr' hdigest

theorem returns_of_same (hs : s.Sound) (h : s.step parses label = some t)
    (hsame : ∀ r ∈ t.resolutions, ∀ r' ∈ t.resolutions, r.digest = r'.digest → r.uuid = r'.uuid) :
    s.Returns parses label := by
  obtain ⟨hfresh, _, hres⟩ := step_cases h
  cases label with
  | advance c fresh =>
      intro ch hch
      split
      · rename_i status online hpc hnone
        intro r hr hdigest
        obtain ⟨resolved, bindings', hresolve⟩ : ∃ resolved bindings',
            resolveBinding s.hub.bindings ch.digestHex online
              (claimedUuid parses status.nodeUuid) fresh = (resolved, bindings') := ⟨_, _, rfl⟩
        rw [Hub.resolution?_eq hch hpc hnone hresolve] at hres
        refine returns_of_resolveBinding (hdigest ▸ bound_of_mem hs hr) (hfresh fresh rfl) ?_
        rw [hresolve]
        exact hsame ⟨c, ch.digestHex, _, resolved.uuid⟩
          (hres ▸ List.mem_append_left _ (List.mem_singleton_self _)) r
          (hres ▸ List.mem_append_right _ hr) hdigest.symm
      · trivial
  | _ => trivial

end

end Registrar

/-! ## A client and its server -/

/-- `NodeIdentity::load`. -/
def NodeIdentity.load (file : Option String) : Option String :=
  file.bind fun raw =>
    let s := trim raw
    if s.isEmpty then none else some s

/-- A client whose services are told apart by their digests, with the server. -/
structure Site where
  registrar : Registrar
  /-- `~/.kdct/node_id`. -/
  file : Option String
  /-- The `node_uuid` of each service's handle. -/
  nodeUuid : Digest → Option String
  /-- The connection of each service. -/
  connection : Digest → Option ChannelId
  /-- Reports that are on their way to the server. -/
  reports : ChannelId → List NodeStatus
  /-- Assigned uuids that are on their way to the client. -/
  assigned : ChannelId → List NodeUuid

namespace Site

inductive Label
  /-- A service connects, and the handshake is done. -/
  | connect (service : Digest) (c : ChannelId) (sessionKey : Digest)
  /-- The service writes a report. -/
  | report (service : Digest) (status : NodeStatus)
  /-- The service reads `AssignNodeUuid`; `saved` says that the file could be written. -/
  | assign (service : Digest) (saved : Bool)
  | disconnect (service : Digest)
  /-- The client process starts anew. -/
  | restart
  /-- The server reads a report. -/
  | read (c : ChannelId)
  /-- The server's channels move on. -/
  | server (label : HubLabel)
  deriving DecidableEq

def start (bindings : HashMap NodeUuid String) (file : Option String) : Site where
  registrar := .start bindings
  file := file
  nodeUuid := fun _ => NodeIdentity.load file
  connection := fun _ => none
  reports := fun _ => []
  assigned := fun _ => []

/-- What a channel has for its client: the next uuid it writes. -/
def nextAssigned (s : Site) (c : ChannelId) : List NodeUuid :=
  ((s.registrar.hub.channels c).bind fun ch => ch.assigned.head?).toList

def step (parses : String → Bool) (services : List Digest) (s : Site) : Label → Option Site
  | .connect service c sessionKey =>
      if service ∈ services ∧ s.connection service = none then
        (s.registrar.step parses (.spawn c service sessionKey)).map fun r =>
          { s with registrar := r
                   connection := Function.update s.connection service (some c) }
      else none
  | .report service status => (s.connection service).map fun c =>
      let status := { status with nodeUuid := s.nodeUuid service }
      { s with reports := Function.update s.reports c (s.reports c ++ [status]) }
  | .assign service saved => (s.connection service).bind fun c =>
      match s.assigned c with
      | [] => none
      | u :: rest =>
          if saved then
            some { s with file := some u
                          nodeUuid := Function.update s.nodeUuid service (some u)
                          assigned := Function.update s.assigned c rest }
          -- A uuid that cannot be saved ends the connection.
          else some { s with connection := Function.update s.connection service none }
  | .disconnect service => (s.connection service).map fun _ =>
      { s with connection := Function.update s.connection service none }
  | .restart => some { s with
      nodeUuid := fun _ => NodeIdentity.load s.file
      connection := fun _ => none }
  | .read c =>
      match s.reports c with
      | [] => none
      | status :: rest => (s.registrar.step parses (.report c status)).map fun r =>
          { s with registrar := r, reports := Function.update s.reports c rest }
  | .server (.spawn _ _ _) | .server (.report _ _) => none
  | .server (.written c) => (s.registrar.step parses (.written c)).map fun r =>
      { s with registrar := r
               assigned := Function.update s.assigned c (s.assigned c ++ s.nextAssigned c) }
  | .server label => (s.registrar.step parses label).map fun r => { s with registrar := r }

/-- The step the server takes. -/
def Label.hub? (s : Site) : Label → Option HubLabel
  | .connect service c sessionKey => some (.spawn c service sessionKey)
  | .read c => (s.reports c).head?.map (.report c)
  | .server label => some label
  | _ => none

/-- Who has been resolved before returns with its uuid, or without any while the server
can restore it. -/
def Returns (parses : String → Bool) (s : Site) (label : Label) : Prop :=
  ∀ l ∈ label.hub? s, s.registrar.Returns parses l

variable {parses : String → Bool} {services : List Digest} {s t : Site} {label : Label}

/-- A step of the site is a step of the server, or the server does not notice it. -/
theorem registrar_of_step (h : s.step parses services label = some t) :
    (∃ l, label.hub? s = some l ∧ s.registrar.step parses l = some t.registrar) ∨
      (label.hub? s = none ∧ t.registrar = s.registrar) := by
  cases label with
  | connect service c sessionKey =>
      simp only [step] at h
      split at h
      · obtain ⟨r, hr, rfl⟩ := Option.map_eq_some_iff.mp h
        exact .inl ⟨_, rfl, hr⟩
      · cases h
  | report service status | disconnect service =>
      obtain ⟨c, _, rfl⟩ := Option.map_eq_some_iff.mp h
      exact .inr ⟨rfl, rfl⟩
  | assign service saved =>
      obtain ⟨c, _, h⟩ := Option.bind_eq_some_iff.mp h
      split at h
      · cases h
      · split at h
        all_goals
          obtain rfl := Option.some.inj h
          exact .inr ⟨rfl, rfl⟩
  | restart =>
      obtain rfl := Option.some.inj h
      exact .inr ⟨rfl, rfl⟩
  | read c =>
      simp only [step] at h
      split at h
      · cases h
      · rename_i status rest hreports
        obtain ⟨r, hr, rfl⟩ := Option.map_eq_some_iff.mp h
        exact .inl ⟨.report c status, by rw [Label.hub?, hreports]; rfl, hr⟩
  | server label =>
      cases label with
      | spawn | report => cases h
      | written c | insert c | container c report | advance c fresh | exit c =>
          obtain ⟨r, hr, rfl⟩ := Option.map_eq_some_iff.mp h
          exact .inl ⟨_, rfl, hr⟩

/-- Of two services that have been resolved, at most one has its uuid when the client has
started anew. -/
theorem restart_forgets (hs : s.registrar.Sound) (h : s.step parses services .restart = some t)
    {r r' : Hub.Resolution} (hr : r ∈ s.registrar.resolutions)
    (hr' : r' ∈ s.registrar.resolutions) (hne : r.digest ≠ r'.digest) {service service' : Digest}
    (hkept : t.nodeUuid service = some r.uuid) : t.nodeUuid service' ≠ some r'.uuid := by
  obtain rfl := Option.some.inj h
  intro hkept'
  have huuid : r.uuid = r'.uuid := Option.some.inj (hkept.symm.trans hkept')
  have hbound := Registrar.bound_of_mem hs hr
  rw [huuid, Registrar.bound_of_mem hs hr'] at hbound
  exact hne (Option.some.inj hbound).symm

end Site

/-- A client with its services and the server it connects to. -/
def site (parses : String → Bool) (services : List Digest) (bindings : HashMap NodeUuid String)
    (file : Option String) : Machine Site Site.Label where
  init := .start bindings file
  step := Site.step parses services

namespace Site

/-- Every service is resolved to one uuid exactly in the runs in which every service
returns with its own uuid, or without any while the server can restore it. -/
theorem stable_iff_returns (parses : String → Bool) (services : List Digest)
    (bindings : HashMap NodeUuid String) (file : Option String) (labels : List Label) :
    (site parses services bindings file).Always (fun s => s.registrar.Stable bindings)
        (.start bindings file) labels ↔
      (site parses services bindings file).Meets (Returns parses)
        (.start bindings file) labels := by
  have hempty : (Registrar.start bindings).Sourced bindings := fun u hu hinit => absurd hu hinit
  have hfirst : (Registrar.start bindings).Stable bindings :=
    Registrar.stable_of_same (Registrar.sound_start bindings) hempty fun r hr =>
      absurd hr List.not_mem_nil
  refine Machine.always_iff_meets
    (I := fun s : Site => s.registrar.Sound ∧ s.registrar.Sourced bindings ∧
      s.registrar.Stable bindings) ?_ (fun _ hI => hI.2.2) ?_
    ⟨Registrar.sound_start bindings, hempty, hfirst⟩
  · rintro s label t ⟨hs, hsource, hstable⟩ hC hstep
    rcases registrar_of_step hstep with ⟨l, hl, h⟩ | ⟨_, heq⟩
    · have hs' := Registrar.sound_step hs h
      have hsource' := Registrar.sourced_step hs hsource h
      exact ⟨hs', hsource', Registrar.stable_of_same hs' hsource'
        (Registrar.same_step hs hstable.same (hC l hl) h)⟩
    · rw [heq]
      exact ⟨hs, hsource, hstable⟩
  · rintro s label t ⟨hs, _, _⟩ hstep hstable
    intro l hl
    rcases registrar_of_step hstep with ⟨l', hl', h⟩ | ⟨hnone, _⟩
    · obtain rfl := Option.some.inj (hl.symm.trans hl')
      exact Registrar.returns_of_same hs h hstable.same
    · rw [hnone] at hl
      cases hl

/-! ## Two services of one client -/

/-- A service connects and its first report is resolved. -/
def connects (service : Digest) (c : ChannelId) (fresh : NodeUuid) : List Label :=
  [.connect service c (sampleDigest (UInt8.ofNat c)), .report service sampleStatus, .read c,
    .server (.advance c ""), .server (.advance c fresh)]

/-- The rest of the first report, and the uuid that is assigned in it. -/
def settles (service : Digest) (c : ChannelId) : List Label :=
  List.replicate 7 (.server (.advance c "")) ++ [.server (.written c), .assign service true]

/-- Two services get their uuids, and the client starts anew. -/
def twoServices : List Label :=
  connects (sampleDigest 100) 0 "a" ++ settles (sampleDigest 100) 0 ++
    connects (sampleDigest 101) 1 "b" ++ settles (sampleDigest 101) 1 ++
    .restart :: connects (sampleDigest 100) 2 "c"

set_option maxRecDepth 4000 in
theorem twoServices_unstable :
    ¬(site (fun _ => true) [sampleDigest 100, sampleDigest 101] ∅ none).Always
      (fun s => s.registrar.Stable ∅) (.start ∅ none) twoServices := by
  intro h
  have hsame : (site (fun _ => true) [sampleDigest 100, sampleDigest 101] ∅ none).Always
      (fun s => ∀ r ∈ s.registrar.resolutions, ∀ r' ∈ s.registrar.resolutions,
        r.digest = r'.digest → r.uuid = r'.uuid) (.start ∅ none) twoServices :=
    h.mono fun _ hstable => hstable.same
  revert hsame
  decide

end Site

end Kdct
