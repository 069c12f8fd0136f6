/-
Which uuid a control channel is given, and by whom.

A channel resolves its identity once, in the middle of its first report.
`Hub.IdentityStep` says what a step does to identities: it starts a channel without
one, or it resolves the identity of a channel, or it keeps every identity as it is.

`registrar` is the server's channels together with a list of all resolutions.  Its
steps generate only fresh uuids.  Everything the resolutions rest on is in
`Registrar.Sound`: a channel keeps the uuid it was given, and the uuid is bound to
the channel's own digest.
-/
import Kdct.ControlChannel.Succession

namespace Kdct

/-! ## The identity a channel is given -/

namespace Channel

/-- The uuid the channel has been given, from its resolution on. -/
def given (ch : Channel) : Option NodeUuid := ch.pc.uuid.or ch.nodeUuid

def digestHex (ch : Channel) : String := hexEncode ch.serviceDigest.1

/-- A channel is known as the uuid it works for, and announces only the uuid it is
known as. -/
structure Sound (ch : Channel) : Prop where
  stable : ch.Stable
  connected : ∀ status u, ch.pc = .connected status u → ch.nodeUuid = some u

theorem given_eq_nodeUuid {ch : Channel} (h : ch.Sound) {u : NodeUuid}
    (hu : ch.nodeUuid = some u) : ch.given = some u := by
  unfold given
  cases hpc : ch.pc.uuid with
  | none => exact hu
  | some v => exact congrArg some (h.stable v u hpc hu)

end Channel

namespace Hub

/-- A step of one channel that leaves identities and bindings alone. -/
structure Keeps (s t : Hub) (c : ChannelId) (ch ch' : Channel) : Prop where
  before : s.channels c = some ch
  after : t.channels = Function.update s.channels c (some ch')
  bindings : t.bindings = s.bindings
  digest : ch'.serviceDigest = ch.serviceDigest
  given : ch'.given = ch.given
  nodeUuid : ∀ u, ch.nodeUuid = some u → ch'.nodeUuid = some u
  loop : ch'.pc.InLoop → ch.pc.InLoop
  sound : ch'.Sound
  updates : ∀ d v, .update d v ∈ t.trace → .update d v ∈ s.trace ∨
    ∀ digest status, v.event = .connected digest status →
      ch.given = some v.uuid ∧ digest = ch.digestHex

/-- A resolution: which channel, of which digest, claimed what and was given what. -/
structure Resolution where
  channel : ChannelId
  digest : String
  claimed : Option NodeUuid
  uuid : NodeUuid
  deriving DecidableEq

/-- The identity that the next step of a channel resolves, if it does. -/
def resolution? (parses : String → Bool) (s : Hub) : HubLabel → Option Resolution
  | .advance c fresh =>
      (s.channels c).bind fun ch =>
        match ch.pc, ch.nodeUuid with
        | .resolve status online, none =>
            let claimed := claimedUuid parses status.nodeUuid
            some { channel := c, digest := ch.digestHex, claimed := claimed
                   uuid := (resolveBinding s.bindings ch.digestHex online claimed fresh).1.uuid }
        | _, _ => none
  | _ => none

/-- What a step does to the identities of channels. -/
inductive IdentityStep (parses : String → Bool) (s : Hub) : HubLabel → Hub → Prop
  | spawn {c : ChannelId} {serviceDigest sessionKey : Digest} (hnew : s.channels c = none) :
      IdentityStep parses s (.spawn c serviceDigest sessionKey)
        (s.setChannel c (.new serviceDigest sessionKey))
  | resolve {c : ChannelId} {fresh : NodeUuid} {ch : Channel} {status : NodeStatus}
      {online : List NodeUuid} {resolved : Resolve} {bindings : HashMap NodeUuid String}
      (hch : s.channels c = some ch) (hpc : ch.pc = .resolve status online)
      (hnone : ch.nodeUuid = none)
      (hresolve : resolveBinding s.bindings ch.digestHex online
        (claimedUuid parses status.nodeUuid) fresh = (resolved, bindings)) :
      IdentityStep parses s (.advance c fresh)
        ({ s with bindings := bindings }.setChannel c { ch with pc := .assign status resolved })
  | keeps {label : HubLabel} {t : Hub} {c : ChannelId} {ch ch' : Channel}
      (hnone : s.resolution? parses label = none) (h : s.Keeps t c ch ch') :
      IdentityStep parses s label t

theorem resolution?_eq {parses : String → Bool} {s : Hub} {c : ChannelId} {ch : Channel}
    {status : NodeStatus} {online : List NodeUuid} {fresh : NodeUuid} {resolved : Resolve}
    {bindings : HashMap NodeUuid String} (hch : s.channels c = some ch)
    (hpc : ch.pc = .resolve status online) (hnone : ch.nodeUuid = none)
    (hresolve : resolveBinding s.bindings ch.digestHex online
      (claimedUuid parses status.nodeUuid) fresh = (resolved, bindings)) :
    s.resolution? parses (.advance c fresh) =
      some ⟨c, ch.digestHex, claimedUuid parses status.nodeUuid, resolved.uuid⟩ := by
  rw [resolution?, hch, Option.bind_some, hpc, hnone]
  simp only [hresolve]

/-! ## The steps of a channel -/

section

variable {parses : String → Bool} {s t : Hub} {c : ChannelId} {ch ch' : Channel}
  {label : HubLabel} {fresh : NodeUuid}

/-- A step of a channel that works on for the same uuid. -/
theorem keeps_setChannel (hch : s.channels c = some ch) (hchannels : t.channels = s.channels)
    (hbindings : t.bindings = s.bindings)
    (hupdates : ∀ d v, .update d v ∈ t.trace → .update d v ∈ s.trace ∨
      ∀ digest status, v.event = .connected digest status →
        ch.given = some v.uuid ∧ digest = ch.digestHex)
    (hsound : ch.Sound) (hdigest : ch'.serviceDigest = ch.serviceDigest)
    (hnode : ch'.nodeUuid = ch.nodeUuid) (huuid : ch'.pc.uuid = ch.pc.uuid)
    (hconnected : ∀ status u, ch'.pc ≠ .connected status u)
    (hloop : ch'.pc.InLoop → ch.pc.InLoop) : s.Keeps (t.setChannel c ch') c ch ch' where
  before := hch
  after := by rw [setChannel_channels, hchannels]
  bindings := hbindings
  digest := hdigest
  given := by rw [Channel.given, Channel.given, huuid, hnode]
  nodeUuid := fun u hu => hnode.trans hu
  loop := hloop
  sound := ⟨hsound.stable.congr huuid hnode, fun status u hpc => absurd hpc (hconnected status u)⟩
  updates := hupdates

theorem mem_send {d : ChannelId} {v : NodeUpdate} {uuid : NodeUuid} {event : NodeEvent}
    (h : .update d v ∈ (s.send c uuid event).trace) :
    .update d v ∈ s.trace ∨ v = ⟨uuid, event⟩ := by
  rcases List.mem_cons.mp h with heq | hmem
  · injection heq with _ hv
    exact .inr hv
  · exact .inl hmem

theorem keeps_advance (hch : s.channels c = some ch) (hsound : ch.Sound)
    (hnone : s.resolution? parses (.advance c fresh) = none)
    (h : s.advance parses c ch fresh = some t) : ∃ ch', s.Keeps t c ch ch' := by
  have hsame : ∀ d v, Trace.update d v ∈ s.trace → .update d v ∈ s.trace ∨
      ∀ digest status, v.event = .connected digest status →
        ch.given = some v.uuid ∧ digest = ch.digestHex := fun _ _ => .inl
  have hnote : ∀ {t' : Hub} {e : Trace}, t'.trace = s.trace → (∀ d v, e ≠ .update d v) →
      ∀ d v, Trace.update d v ∈ (t'.note e).trace → .update d v ∈ s.trace ∨
        ∀ digest status, v.event = .connected digest status →
          ch.given = some v.uuid ∧ digest = ch.digestHex := by
    intro t' e htrace he d v hv
    rcases mem_note.mp hv with heq | hv
    · exact absurd heq.symm (he d v)
    · exact .inl (htrace ▸ hv)
  cases advance_cases h with
  | snapshot hpc | accept hpc | assign hpc | keepPrev hpc | dropPrev hpc | keep hpc | evict hpc
  | unsent hpc =>
      exact ⟨_, keeps_setChannel hch rfl rfl hsame hsound rfl rfl (by rw [hpc]; rfl) nofun
        fun _ => by rw [hpc]; trivial⟩
  | known hpc hnode =>
      refine ⟨_, hch, rfl, rfl, rfl, ?_, fun _ hu => hu, ?_, ?_, hsame⟩
      · rw [Channel.given, Channel.given, hpc, hnode]
        rfl
      · exact fun _ => by rw [hpc]; trivial
      · refine ⟨fun u v hu hv => ?_, nofun⟩
        replace hv : ch.nodeUuid = some v := hv
        exact Option.some.inj (hu.symm.trans (hnode.symm.trans hv))
  | resolve hpc hnode =>
      rw [resolution?, hch, Option.bind_some, hpc, hnode] at hnone
      cases hnone
  | index hpc | upsert hpc =>
      refine ⟨_, keeps_setChannel hch note_channels ?_ (hnote rfl nofun) hsound rfl rfl
        (by rw [hpc]; rfl) nofun fun _ => by rw [hpc]; trivial⟩
      unfold note
      split <;> rfl
  | @identify status u hpc =>
      refine ⟨_, hch, rfl, rfl, rfl, ?_, fun v hv => ?_, fun _ => by rw [hpc]; trivial, ?_, hsame⟩
      · rw [Channel.given, Channel.given, hpc]
        rfl
      · exact congrArg some (hsound.stable u v (by rw [hpc]; rfl) hv)
      · refine ⟨fun v w hv hw => Option.some.inj (hv.symm.trans hw), fun status' v hv => ?_⟩
        injection hv with _ hv
        exact congrArg some hv
  | @connected status u hpc =>
      have hnode := hsound.connected status u hpc
      have hgiven : ch.given = some u := Channel.given_eq_nodeUuid hsound hnode
      refine ⟨_, hch, rfl, rfl, rfl, hnode.trans hgiven.symm, fun v hv => hv,
        fun _ => by rw [hpc]; trivial, ⟨Channel.stable_of_none rfl, nofun⟩, fun d v hv => ?_⟩
      rcases mem_send hv with hv | rfl
      · exact .inl hv
      · refine .inr fun digest status' hevent => ⟨hgiven, ?_⟩
        injection hevent with hdigest
        exact hdigest.symm
  | @sent report u hpc =>
      refine ⟨_, keeps_setChannel hch rfl rfl (fun d v hv => ?_) hsound rfl rfl (by rw [hpc]; rfl)
        nofun fun _ => by rw [hpc]; trivial⟩
      rcases mem_send hv with hv | rfl
      · exact .inl hv
      · refine .inr fun digest status hevent => ?_
        cases report <;> cases hevent
  | farewell hpc =>
      refine ⟨_, keeps_setChannel hch rfl rfl (fun d v hv => ?_) hsound rfl rfl
        (by rw [hpc]; rfl) nofun fun hin => absurd hin id⟩
      rcases mem_send hv with hv | rfl
      · exact .inl hv
      · exact .inr fun digest status hevent => by cases hevent
  | shutdown hpc | identified hpc | unidentified hpc | clearIndex hpc | keepIndex hpc
  | unregister hpc | leave hpc =>
      exact ⟨_, keeps_setChannel hch rfl rfl hsame hsound rfl rfl (by rw [hpc]; rfl) nofun
        fun hin => absurd hin id⟩

/-- Every step is one of the three. -/
theorem identityStep_of_step (hsound : ∀ c ch, s.channels c = some ch → ch.Sound)
    (h : s.step parses label = some t) : s.IdentityStep parses label t := by
  have hsame : ∀ (ch : Channel) d v, Trace.update d v ∈ s.trace → .update d v ∈ s.trace ∨
      ∀ digest status, v.event = .connected digest status →
        ch.given = some v.uuid ∧ digest = ch.digestHex := fun _ _ _ => .inl
  cases label with
  | spawn c serviceDigest sessionKey =>
      simp only [step] at h
      split at h
      · cases h
      · rename_i hnew
        obtain rfl := Option.some.inj h
        exact .spawn hnew
  | insert c =>
      obtain ⟨ch, hch, h⟩ := Option.bind_eq_some_iff.mp h
      split at h
      · cases h
      · obtain rfl := Option.some.inj h
        exact .keeps rfl ⟨hch, rfl, rfl, rfl, rfl, fun _ hu => hu, id,
          ⟨(hsound c ch hch).stable, (hsound c ch hch).connected⟩, hsame ch⟩
  | advance c fresh =>
      obtain ⟨ch, hch, h⟩ := Option.bind_eq_some_iff.mp h
      cases hres : s.resolution? parses (.advance c fresh) with
      | none =>
          obtain ⟨ch', hkeeps⟩ := keeps_advance hch (hsound c ch hch) hres h
          exact .keeps hres hkeeps
      | some r =>
          rw [resolution?, hch, Option.bind_some] at hres
          split at hres
          · rename_i status online hpc hnone
            simp only [advance, hpc, hnone, Option.some.injEq] at h
            subst h
            rw [← hnone]
            exact .resolve hch hpc hnone rfl
          · cases hres
  | report c status | container c report =>
      obtain ⟨ch, hch, h⟩ := Option.bind_eq_some_iff.mp h
      split at h
      · rename_i hpc
        obtain rfl := Option.some.inj h
        exact .keeps rfl (keeps_setChannel hch rfl rfl (hsame ch) (hsound c ch hch) rfl rfl
          (by rw [hpc]; rfl) (fun _ _ hne => by cases hne) fun _ => by rw [hpc]; trivial)
      · cases h
  | written c =>
      obtain ⟨ch, hch, h⟩ := Option.bind_eq_some_iff.mp h
      split at h
      · rename_i hpc
        obtain rfl := Option.some.inj h
        exact .keeps rfl (keeps_setChannel hch rfl rfl (hsame ch) (hsound c ch hch) rfl rfl rfl
          (fun _ _ hne => by rw [hpc] at hne; cases hne) id)
      · cases h
  | exit c =>
      obtain ⟨ch, hch, h⟩ := Option.bind_eq_some_iff.mp h
      split at h
      · rename_i hpc
        obtain rfl := Option.some.inj h
        exact .keeps rfl (keeps_setChannel hch rfl rfl (hsame ch) (hsound c ch hch) rfl rfl
          (by rw [hpc]; rfl) (fun _ _ hne => by cases hne) fun hin => absurd hin id)
      · cases h

theorem sound_of_identityStep (hsound : ∀ c ch, s.channels c = some ch → ch.Sound)
    (hkind : s.IdentityStep parses label t) (hch : t.channels c = some ch) : ch.Sound := by
  cases hkind with
  | @spawn c' serviceDigest sessionKey hnew =>
      rw [setChannel_channels] at hch
      by_cases hc : c = c'
      · subst hc
        rw [Function.update_self] at hch
        obtain rfl := Option.some.inj hch
        exact ⟨Channel.stable_of_none rfl, nofun⟩
      · rw [Function.update_of_ne hc] at hch
        exact hsound c ch hch
  | @resolve c' _ ch₀ status _ resolved _ hch₀ hpc hnone hresolve =>
      rw [setChannel_channels] at hch
      by_cases hc : c = c'
      · subst hc
        rw [Function.update_self] at hch
        obtain rfl := Option.some.inj hch
        refine ⟨fun u v _ hv => ?_, nofun⟩
        rw [hnone] at hv
        cases hv
      · rw [Function.update_of_ne hc] at hch
        exact hsound c ch hch
  | @keeps _ _ c' ch₀ ch' hnone hkeeps =>
      rw [hkeeps.after] at hch
      by_cases hc : c = c'
      · subst hc
        rw [Function.update_self] at hch
        obtain rfl := Option.some.inj hch
        exact hkeeps.sound
      · rw [Function.update_of_ne hc] at hch
        exact hsound c ch hch

end

end Hub

/-! ## Resolving against the bindings -/

/-- The uuid that is restored to a channel without a claim: the only one that is bound
to the digest, if it was not online. -/
def soloOffline (bindings : HashMap NodeUuid String) (digestHex : String)
    (online : List NodeUuid) : Option NodeUuid :=
  match (bindings.entries.filter fun e => e.2 == digestHex).map Sigma.fst with
  | [only] => if only ∈ online then none else some only
  | _ => none

section

variable {bindings bindings' : HashMap NodeUuid String} {digestHex : String}
  {online : List NodeUuid} {claimed : Option NodeUuid} {fresh : NodeUuid} {r : Resolve}

theorem resolveBinding_none :
    resolveBinding bindings digestHex online none fresh =
      match soloOffline bindings digestHex online with
      | some only => (.assignAndUse only, bindings)
      | none => (.assignAndUse fresh, bindings.insert fresh digestHex) := by
  unfold resolveBinding soloOffline
  generalize (bindings.entries.filter fun e => e.2 == digestHex).map Sigma.fst = bound
  match bound with
  | [] => rfl
  | [only] =>
      dsimp only
      split <;> rfl
  | _ :: _ :: _ => rfl

theorem soloOffline_bound {only : NodeUuid}
    (h : soloOffline bindings digestHex online = some only) :
    bindings.lookup only = some digestHex := by
  unfold soloOffline at h
  split at h
  · rename_i only' hbound
    split at h
    · cases h
    · obtain rfl := Option.some.inj h
      have hmem : only' ∈ (bindings.entries.filter fun e => e.2 == digestHex).map Sigma.fst :=
        hbound ▸ List.mem_singleton_self only'
      obtain ⟨⟨u, d⟩, hfilter, rfl⟩ := List.mem_map.mp hmem
      obtain ⟨hentry, hd⟩ := List.mem_filter.mp hfilter
      obtain rfl : d = digestHex := beq_iff_eq.mp hd
      exact AList.mem_lookup_iff.mpr hentry
  · cases h

/-- A resolution uses a uuid of the digest that is bound already, or binds one that
was free. -/
theorem resolveBinding_cases (hfresh : bindings.lookup fresh = none)
    (h : resolveBinding bindings digestHex online claimed fresh = (r, bindings')) :
    (bindings' = bindings ∧ bindings.lookup r.uuid = some digestHex) ∨
      (bindings' = bindings.insert r.uuid digestHex ∧ bindings.lookup r.uuid = none) := by
  cases claimed with
  | some c =>
      simp only [resolveBinding] at h
      split at h
      · rename_i d hd
        split at h
        · rename_i heq
          obtain ⟨rfl, rfl⟩ := Prod.mk.inj h
          exact .inl ⟨rfl, heq ▸ hd⟩
        · obtain ⟨rfl, rfl⟩ := Prod.mk.inj h
          exact .inr ⟨rfl, hfresh⟩
      · rename_i hnone
        obtain ⟨rfl, rfl⟩ := Prod.mk.inj h
        exact .inr ⟨rfl, hnone⟩
  | none =>
      rw [resolveBinding_none] at h
      split at h
      · rename_i only hsolo
        obtain ⟨rfl, rfl⟩ := Prod.mk.inj h
        exact .inl ⟨rfl, soloOffline_bound hsolo⟩
      · obtain ⟨rfl, rfl⟩ := Prod.mk.inj h
        exact .inr ⟨rfl, hfresh⟩

theorem resolveBinding_uuid (hfresh : bindings.lookup fresh = none)
    (h : resolveBinding bindings digestHex online claimed fresh = (r, bindings')) :
    bindings'.lookup r.uuid = some digestHex := by
  rcases resolveBinding_cases hfresh h with ⟨rfl, hbound⟩ | ⟨rfl, _⟩
  · exact hbound
  · rw [HashMap.lookup_insert_eq, if_pos rfl]

theorem resolveBinding_lookup (hfresh : bindings.lookup fresh = none)
    (h : resolveBinding bindings digestHex online claimed fresh = (r, bindings')) {u : NodeUuid}
    {d : String} (hu : bindings.lookup u = some d) : bindings'.lookup u = some d := by
  rcases resolveBinding_cases hfresh h with ⟨rfl, _⟩ | ⟨rfl, hfree⟩
  · exact hu
  · rw [HashMap.lookup_insert_eq, if_neg fun heq => ?_]
    · exact hu
    · rw [heq, hfree] at hu
      cases hu

end

/-! ## The registrar -/

/-- The uuid the next step generates, if it needs one. -/
def HubLabel.fresh? : HubLabel → Option NodeUuid
  | .advance _ fresh => some fresh
  | _ => none

/-- A generated uuid is one that nothing is bound to. -/
def Hub.Generates (s : Hub) (label : HubLabel) : Prop :=
  ∀ fresh ∈ label.fresh?, s.bindings.lookup fresh = none

instance (s : Hub) (label : HubLabel) : Decidable (s.Generates label) :=
  inferInstanceAs (Decidable (∀ fresh ∈ label.fresh?, _))

structure Registrar where
  hub : Hub
  /-- What has been resolved, newest first. -/
  resolutions : List Hub.Resolution

namespace Registrar

def start (bindings : HashMap NodeUuid String) : Registrar where
  hub := .start bindings
  resolutions := []

def step (parses : String → Bool) (s : Registrar) (label : HubLabel) : Option Registrar :=
  if s.hub.Generates label then
    (s.hub.step parses label).map fun t =>
      { hub := t, resolutions := (s.hub.resolution? parses label).toList ++ s.resolutions }
  else none

/-- What the resolutions rest on. -/
structure Sound (s : Registrar) : Prop where
  channels : ∀ c ch, s.hub.channels c = some ch → ch.Sound
  bound : ∀ c ch u, s.hub.channels c = some ch → ch.given = some u →
    s.hub.bindings.lookup u = some ch.digestHex
  resolutions : ∀ r ∈ s.resolutions, ∃ ch, s.hub.channels r.channel = some ch ∧
    ch.digestHex = r.digest ∧ ch.given = some r.uuid
  updates : ∀ d v digest status, .update d v ∈ s.hub.trace → v.event = .connected digest status →
    s.hub.bindings.lookup v.uuid = some digest

/-- What a step leaves of a channel. -/
structure Continues (ch ch' : Channel) : Prop where
  digest : ch'.serviceDigest = ch.serviceDigest
  given : ∀ u, ch.given = some u → ch'.given = some u
  nodeUuid : ∀ u, ch.nodeUuid = some u → ch'.nodeUuid = some u
  loop : ch'.pc.InLoop → ch.pc.InLoop

theorem Continues.refl (ch : Channel) : Continues ch ch := ⟨rfl, fun _ => id, fun _ => id, id⟩

section

variable {parses : String → Bool} {s t : Registrar} {label : HubLabel}

/-- What was given is bound. -/
theorem bound_of_mem (hs : s.Sound) {r : Hub.Resolution} (hr : r ∈ s.resolutions) :
    s.hub.bindings.lookup r.uuid = some r.digest := by
  obtain ⟨ch, hch, hdigest, hgiven⟩ := hs.resolutions r hr
  rw [hs.bound r.channel ch r.uuid hch hgiven, hdigest]

theorem step_cases (h : s.step parses label = some t) :
    s.hub.Generates label ∧ s.hub.step parses label = some t.hub ∧
      t.resolutions = (s.hub.resolution? parses label).toList ++ s.resolutions := by
  unfold step at h
  split at h
  · rename_i hfresh
    obtain ⟨hub, hhub, rfl⟩ := Option.map_eq_some_iff.mp h
    exact ⟨hfresh, hhub, rfl⟩
  · cases h

/-- The three kinds of steps, with what they do to the list of resolutions. -/
theorem identityStep (hs : s.Sound) (h : s.step parses label = some t) :
    s.hub.IdentityStep parses label t.hub :=
  Hub.identityStep_of_step hs.channels (step_cases h).2.1

theorem step_bindings (hs : s.Sound) (h : s.step parses label = some t) {u : NodeUuid} {d : String}
    (hu : s.hub.bindings.lookup u = some d) : t.hub.bindings.lookup u = some d := by
  obtain ⟨hfresh, _, _⟩ := step_cases h
  generalize hhub : t.hub = hub
  have hkind := identityStep hs h
  rw [hhub] at hkind
  cases hkind with
  | spawn hnew => exact hu
  | resolve hch hpc hnone hresolve =>
      exact resolveBinding_lookup (hfresh _ rfl) hresolve hu
  | keeps hnone hkeeps => rw [hkeeps.bindings]; exact hu

/-- A channel keeps what it was given. -/
theorem step_continues (hs : s.Sound) (h : s.step parses label = some t) {c : ChannelId}
    {ch : Channel} (hch : s.hub.channels c = some ch) :
    ∃ ch', t.hub.channels c = some ch' ∧ Continues ch ch' := by
  have hother : ∀ {c' : ChannelId} {ch'' : Channel}, c ≠ c' →
      Function.update s.hub.channels c' (some ch'') c = some ch := fun hne =>
    (Function.update_of_ne hne _ _).trans hch
  generalize hhub : t.hub = hub
  have hkind := identityStep hs h
  rw [hhub] at hkind
  cases hkind with
  | @spawn c' _ _ hnew =>
      have hne : c ≠ c' := by
        rintro rfl
        rw [hnew] at hch
        cases hch
      exact ⟨ch, hother hne, .refl ch⟩
  | @resolve c' _ ch₀ _ _ resolved _ hch₀ hpc hnone hresolve =>
      by_cases hc : c = c'
      · subst hc
        obtain rfl := Option.some.inj (hch₀.symm.trans hch)
        refine ⟨_, Function.update_self _ _ _, rfl, fun u hu => ?_, fun u hu => hu, fun _ => ?_⟩
        · rw [Channel.given, hpc, hnone] at hu
          cases hu
        · rw [hpc]
          trivial
      · exact ⟨ch, hother hc, .refl ch⟩
  | @keeps _ _ c' ch₀ ch' hnone hkeeps =>
      rw [hkeeps.after]
      by_cases hc : c = c'
      · subst hc
        obtain rfl := Option.some.inj (hkeeps.before.symm.trans hch)
        refine ⟨ch', Function.update_self _ _ _, hkeeps.digest, fun u hu => ?_, hkeeps.nodeUuid,
          hkeeps.loop⟩
        exact hkeeps.given.trans hu
      · exact ⟨ch, hother hc, .refl ch⟩

theorem sound_start (bindings : HashMap NodeUuid String) : (start bindings).Sound where
  channels := fun _ _ h => by cases h
  bound := fun _ _ _ h => by cases h
  resolutions := fun _ h => absurd h List.not_mem_nil
  updates := fun _ _ _ _ h => absurd h List.not_mem_nil

/-- The resolution of a step is what its channel is given. -/
theorem resolution_given (hs : s.Sound) (h : s.step parses label = some t) {r : Hub.Resolution}
    (hr : s.hub.resolution? parses label = some r) :
    ∃ ch, t.hub.channels r.channel = some ch ∧ ch.digestHex = r.digest ∧
      ch.given = some r.uuid := by
  generalize hhub : t.hub = hub
  have hkind := identityStep hs h
  rw [hhub] at hkind
  cases hkind with
  | spawn hnew => cases hr
  | resolve hch hpc hnone hresolve =>
      rw [Hub.resolution?_eq hch hpc hnone hresolve] at hr
      obtain rfl := Option.some.inj hr
      exact ⟨_, Function.update_self _ _ _, rfl, rfl⟩
  | keeps hnone hkeeps =>
      rw [hnone] at hr
      cases hr

theorem Continues.digestHex {ch ch' : Channel} (h : Continues ch ch') :
    ch'.digestHex = ch.digestHex := congrArg (fun d : Digest => hexEncode d.1) h.digest

/-- What a channel works for after a step it has from before or has just resolved, and
either way it is bound to the channel's digest. -/
theorem identityStep_bound {hub : Hub} (hs : s.Sound) (hfresh : s.hub.Generates label)
    (hkeep : ∀ u d, s.hub.bindings.lookup u = some d → hub.bindings.lookup u = some d)
    (hkind : s.hub.IdentityStep parses label hub) {c : ChannelId} {ch : Channel}
    (hch : hub.channels c = some ch) {u : NodeUuid} (hu : ch.given = some u) :
    hub.bindings.lookup u = some ch.digestHex := by
  have hold : ∀ {ch u}, s.hub.channels c = some ch → ch.given = some u →
      hub.bindings.lookup u = some ch.digestHex :=
    fun h hu => hkeep _ _ (hs.bound c _ _ h hu)
  cases hkind with
  | @spawn c' serviceDigest sessionKey hnew =>
      rw [Hub.setChannel_channels] at hch
      by_cases hc : c = c'
      · subst hc
        rw [Function.update_self] at hch
        obtain rfl := Option.some.inj hch
        cases hu
      · rw [Function.update_of_ne hc] at hch
        exact hold hch hu
  | @resolve c' _ ch₀ status _ resolved _ hch₀ hpc hnone hresolve =>
      rw [Hub.setChannel_channels] at hch
      by_cases hc : c = c'
      · subst hc
        rw [Function.update_self] at hch
        obtain rfl := Option.some.inj hch
        obtain rfl := Option.some.inj hu
        exact resolveBinding_uuid (hfresh _ rfl) hresolve
      · rw [Function.update_of_ne hc] at hch
        exact hold hch hu
  | @keeps _ _ c' ch₀ ch' hnone hkeeps =>
      rw [hkeeps.after] at hch
      by_cases hc : c = c'
      · subst hc
        rw [Function.update_self] at hch
        obtain rfl := Option.some.inj hch
        rw [hold hkeeps.before (hkeeps.given.symm.trans hu)]
        exact congrArg (fun d : Digest => some (hexEncode d.1)) hkeeps.digest.symm
      · rw [Function.update_of_ne hc] at hch
        exact hold hch hu

theorem identityStep_updates {hub : Hub} (hs : s.Sound)
    (hkeep : ∀ u d, s.hub.bindings.lookup u = some d → hub.bindings.lookup u = some d)
    (hkind : s.hub.IdentityStep parses label hub) {d : ChannelId} {v : NodeUpdate}
    {digest : String} {status : NodeStatus} (hv : .update d v ∈ hub.trace)
    (hevent : v.event = .connected digest status) :
    hub.bindings.lookup v.uuid = some digest := by
  cases hkind with
  | spawn hnew => exact hkeep _ _ (hs.updates d v digest status hv hevent)
  | resolve hch hpc hnone hresolve => exact hkeep _ _ (hs.updates d v digest status hv hevent)
  | keeps hnone hkeeps =>
      rcases hkeeps.updates d v hv with hold | hnew
      · exact hkeep _ _ (hs.updates d v digest status hold hevent)
      · obtain ⟨hgiven, rfl⟩ := hnew digest status hevent
        exact hkeep _ _ (hs.bound _ _ _ hkeeps.before hgiven)

theorem sound_step (hs : s.Sound) (h : s.step parses label = some t) : t.Sound := by
  have hkeep : ∀ u d, s.hub.bindings.lookup u = some d → t.hub.bindings.lookup u = some d :=
    fun _ _ => step_bindings hs h
  have hkind := identityStep hs h
  have hfresh := (step_cases h).1
  refine ⟨fun c ch hch => ?_, fun c ch u hch => ?_, fun r hr => ?_, fun d v digest status => ?_⟩
  · exact Hub.sound_of_identityStep hs.channels hkind hch
  · exact identityStep_bound hs hfresh hkeep hkind hch
  · rw [(step_cases h).2.2] at hr
    rcases List.mem_append.mp hr with hr | hr
    · exact resolution_given hs h (Option.mem_toList.mp hr)
    · obtain ⟨ch, hch, hdigest, hgiven⟩ := hs.resolutions r hr
      obtain ⟨ch', hch', hcont⟩ := step_continues hs h hch
      exact ⟨ch', hch', hcont.digestHex.trans hdigest, hcont.given _ hgiven⟩
  · exact identityStep_updates hs hkeep hkind

end

end Registrar

/-- The server's control channels with the resolutions of their identities. -/
def registrar (parses : String → Bool) (bindings : HashMap NodeUuid String) :
    Machine Registrar HubLabel where
  init := .start bindings
  step := Registrar.step parses

end Kdct
