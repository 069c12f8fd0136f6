/-
Control channels of one node uuid, one after the other.

A client that reconnects opens a new channel before the server has noticed that
the old one is gone.  `Serving` says that a channel is the newest one of its
uuid, has registered and still runs, and `Unharmed` says what it is owed: its
entry in the registry, its handle, and that no `Disconnected` is sent on behalf
of a channel it has replaced.

The code does not keep this promise in every run.  Evicting a channel does not
end its loop, and a cleanup removes the registry entry without looking whose it
is.  `Respectful` is the condition on a step under which it does, and
`unharmed_of_respectful` is the theorem about runs.
-/
import Kdct.ControlChannel.Steps

namespace Kdct

/-- The channel that was the last to become `uuid_index[u]` for the first time. -/
def newest (u : NodeUuid) : List Trace → Option ChannelId
  | [] => none
  | .claimed v c :: t => if v = u then some c else newest u t
  | _ :: t => newest u t

/-- What has happened since `e`. -/
def since (e : Trace) (t : List Trace) : List Trace := t.takeWhile (· ≠ e)

namespace Hub

def Running (s : Hub) (c : ChannelId) : Prop := ∃ ch ∈ s.channels c, ch.pc.InLoop

instance (s : Hub) (c : ChannelId) : Decidable (s.Running c) :=
  inferInstanceAs (Decidable (∃ ch ∈ s.channels c, ch.pc.InLoop))

/-- The channel is the newest of the uuid, has registered and is running. -/
structure Serving (s : Hub) (u : NodeUuid) (c : ChannelId) : Prop where
  newest : newest u s.trace = some c
  registered : .registered u c ∈ s.trace
  running : s.Running c

instance (s : Hub) (u : NodeUuid) (c : ChannelId) : Decidable (s.Serving u c) :=
  decidable_of_iff (Kdct.newest u s.trace = some c ∧ .registered u c ∈ s.trace ∧ s.Running c)
    ⟨fun h => ⟨h.1, h.2.1, h.2.2⟩, fun h => ⟨h.newest, h.registered, h.running⟩⟩

structure Unharmed (s : Hub) (u : NodeUuid) (c : ChannelId) : Prop where
  entry : ∃ e, s.clients.lookup u = some e ∧ e.channel = c
  handle : s.controlChannels.Contains c
  quiet : ∀ older hostname, older ≠ c →
    .update older ⟨u, .disconnected hostname⟩ ∉ since (.registered u c) s.trace

/-- Every channel that serves its uuid is unharmed. -/
def Undisturbed (s : Hub) : Prop := ∀ u c, s.Serving u c → s.Unharmed u c

/-- What the next step of a channel's task has to respect. -/
def Respects (s : Hub) (c : ChannelId) (ch : Channel) : Prop :=
  match ch.pc with
  -- It does not take the index back from a successor that runs.
  | .index _ u => .claimed u c ∈ s.trace → ∀ d ∈ newest u s.trace, s.Running d → d = c
  -- It does not overwrite the entry of a successor that serves, and its handshake
  -- has put its own handle into `control_channels`.
  | .upsert _ u => (newest u s.trace = some c → s.controlChannels.Contains c) ∧
      ∀ d ∈ newest u s.trace, s.Serving u d → d = c
  -- It does not report a disconnect while a successor serves.
  | .shutdown => ∀ u ∈ ch.nodeUuid, ch.hostname.isSome → ∀ d ∈ newest u s.trace, ¬s.Serving u d
  -- Its cleanup does not remove the entry of a successor that serves.
  | .unregister u => ∀ d ∈ newest u s.trace, ¬s.Serving u d
  | _ => True

instance (s : Hub) (c : ChannelId) (ch : Channel) : Decidable (s.Respects c ch) := by
  unfold Respects
  split <;> infer_instance

/-- The step of a channel that has been replaced leaves its successor alone, and
a channel registers only after its handshake is over. -/
def Respectful (s : Hub) : HubLabel → Prop
  | .advance c _ => ∀ ch ∈ s.channels c, s.Respects c ch
  | _ => True

instance (s : Hub) (label : HubLabel) : Decidable (s.Respectful label) := by
  cases label <;> unfold Respectful <;> infer_instance

end Hub

/-! ## The identity of a channel -/

/-- The uuid a report is being handled for, once it is resolved. -/
def ChannelPc.uuid : ChannelPc → Option NodeUuid
  | .assign _ r => some r.uuid
  | .dropPrev _ u | .index _ u | .evict _ u _ | .upsert _ u | .identify _ u | .connected _ u =>
      some u
  | _ => none

/-- Whose handle a report is about to take out, and for which uuid. -/
def ChannelPc.evicting : ChannelPc → Option (NodeUuid × ChannelId)
  | .evict _ u (some d) => some (u, d)
  | _ => none

/-- What a report is being handled for agrees with what the channel is known as. -/
def Channel.Stable (ch : Channel) : Prop :=
  ∀ u v, ch.pc.uuid = some u → ch.nodeUuid = some v → u = v

theorem Channel.stable_of_none {ch : Channel} (h : ch.pc.uuid = none) : ch.Stable := by
  intro u v hu
  rw [h] at hu
  cases hu

theorem Channel.Stable.congr {ch ch' : Channel} (h : ch.Stable) (huuid : ch'.pc.uuid = ch.pc.uuid)
    (hnode : ch'.nodeUuid = ch.nodeUuid) : ch'.Stable :=
  fun u v hu hv => h u v (huuid ▸ hu) (hnode ▸ hv)

/-- The uuid the channel has claimed. -/
def Channel.identity (ch : Channel) : Option NodeUuid :=
  match ch.pc with
  | .evict _ u _ | .upsert _ u | .identify _ u => some u
  | _ => ch.nodeUuid

namespace Hub

/-- The bookkeeping of claims: a channel claims one uuid, the one its task works
for; what the index and an eviction name has claimed the uuid; and who is about
to be evicted is not a running newest channel. -/
structure Claims (s : Hub) : Prop where
  claimed : ∀ c u, .claimed u c ∈ s.trace ↔ ∃ ch, s.channels c = some ch ∧ ch.identity = some u
  stable : ∀ c ch, s.channels c = some ch → ch.Stable
  registered : ∀ c u, .registered u c ∈ s.trace → .claimed u c ∈ s.trace
  index : ∀ u c, s.uuidIndex.lookup u = some c → .claimed u c ∈ s.trace
  evict : ∀ c ch u d, s.channels c = some ch → ch.pc.evicting = some (u, d) → d ≠ c →
    .claimed u d ∈ s.trace ∧ (newest u s.trace = some d → ¬s.Running d)

structure Inv (s : Hub) : Prop extends s.Claims where
  undisturbed : s.Undisturbed

end Hub

/-! ## Traces -/

theorem mem_of_newest {u : NodeUuid} {c : ChannelId} {t : List Trace}
    (h : newest u t = some c) : .claimed u c ∈ t := by
  induction t with
  | nil => cases h
  | cons e t ih =>
      cases e with
      | claimed v d =>
          simp only [newest] at h
          split at h
          · rename_i hv
            obtain rfl := Option.some.inj h
            exact hv ▸ List.mem_cons_self
          · exact List.mem_cons_of_mem _ (ih h)
      | registered v d => exact List.mem_cons_of_mem _ (ih h)
      | update d v => exact List.mem_cons_of_mem _ (ih h)

theorem since_cons_ne {e f : Trace} {t : List Trace} (h : f ≠ e) :
    since e (f :: t) = f :: since e t := by
  simp [since, h]

theorem since_cons_self {e : Trace} {t : List Trace} : since e (e :: t) = [] := by
  simp [since]

namespace Hub

variable {s : Hub} {e f : Trace}

@[simp] theorem note_channels : (s.note e).channels = s.channels := by
  unfold note
  split <;> rfl

@[simp] theorem note_clients : (s.note e).clients = s.clients := by
  unfold note
  split <;> rfl

@[simp] theorem note_controlChannels : (s.note e).controlChannels = s.controlChannels := by
  unfold note
  split <;> rfl

@[simp] theorem note_uuidIndex : (s.note e).uuidIndex = s.uuidIndex := by
  unfold note
  split <;> rfl

theorem mem_note : f ∈ (s.note e).trace ↔ f = e ∨ f ∈ s.trace := by
  unfold note
  split
  · rename_i h
    refine ⟨.inr, ?_⟩
    rintro (rfl | hf)
    · exact h
    · exact hf
  · exact List.mem_cons

theorem newest_note_registered {u v : NodeUuid} {c : ChannelId} :
    newest u (s.note (.registered v c)).trace = newest u s.trace := by
  unfold note
  split <;> rfl

theorem newest_note_claimed {u v : NodeUuid} {c : ChannelId} :
    newest v (s.note (.claimed u c)).trace =
      if u = v ∧ .claimed u c ∉ s.trace then some c else newest v s.trace := by
  unfold note
  by_cases h : .claimed u c ∈ s.trace
  · simp [h]
  · rw [if_neg h]
    by_cases hv : u = v
    · subst hv
      simp [h, newest]
    · simp [hv, newest]

theorem mem_since_of_note {r : Trace} {a : ChannelId} {w : NodeUpdate}
    (he : e ≠ .update a w) (h : .update a w ∈ since r (s.note e).trace) :
    .update a w ∈ since r s.trace := by
  unfold note at h
  split at h
  · exact h
  · by_cases her : e = r
    · subst her
      rw [since_cons_self] at h
      cases h
    · rw [since_cons_ne her] at h
      rcases List.mem_cons.mp h with heq | h
      · exact absurd heq.symm he
      · exact h

end Hub

namespace Hub

/-! ## Channels -/

theorem running_setChannel {s : Hub} {c d : ChannelId} {ch : Channel} :
    (s.setChannel c ch).Running d ↔ if d = c then ch.pc.InLoop else s.Running d := by
  unfold Running setChannel
  split
  · rename_i h
    simp [h]
  · rename_i h
    simp [h]

theorem claims_functional {s : Hub} (h : s.Claims) {c : ChannelId} {u v : NodeUuid}
    (hu : .claimed u c ∈ s.trace) (hv : .claimed v c ∈ s.trace) : u = v := by
  obtain ⟨ch, hch, hid⟩ := (h.claimed c u).mp hu
  obtain ⟨ch', hch', hid'⟩ := (h.claimed c v).mp hv
  rw [hch] at hch'
  obtain rfl := Option.some.inj hch'
  rw [hid] at hid'
  exact Option.some.inj hid'

/-- A step of one channel that claims nothing new. -/
structure Moves (s t : Hub) (c : ChannelId) (ch ch' : Channel) : Prop where
  before : s.channels c = some ch
  after : t.channels = Function.update s.channels c (some ch')
  claimed : ∀ u d, .claimed u d ∈ t.trace ↔ .claimed u d ∈ s.trace
  registered : ∀ u d, .registered u d ∈ t.trace →
    .registered u d ∈ s.trace ∨ (d = c ∧ ch.identity = some u)
  newest : ∀ u, newest u t.trace = newest u s.trace
  index : ∀ u d, t.uuidIndex.lookup u = some d → s.uuidIndex.lookup u = some d
  identity : ch'.identity = ch.identity
  stable : ch'.Stable
  loop : ch'.pc.InLoop → ch.pc.InLoop
  evict : ch'.pc.evicting = none ∨ ch'.pc.evicting = ch.pc.evicting

section Moves

variable {s t : Hub} {c : ChannelId} {ch ch' : Channel}

theorem Moves.running (m : s.Moves t c ch ch') {d : ChannelId} (h : t.Running d) : s.Running d := by
  obtain ⟨chd, hchd, hloop⟩ := h
  rw [m.after] at hchd
  by_cases hd : d = c
  · subst hd
    rw [Function.update_self] at hchd
    obtain rfl := Option.some.inj hchd
    exact ⟨ch, m.before, m.loop hloop⟩
  · rw [Function.update_of_ne hd] at hchd
    exact ⟨chd, hchd, hloop⟩

theorem Moves.claims (m : s.Moves t c ch ch') (h : s.Claims) : t.Claims := by
  constructor
  · intro d u
    rw [m.claimed, h.claimed, m.after]
    by_cases hd : d = c
    · subst hd
      rw [Function.update_self, m.before]
      simp only [Option.some.injEq, exists_eq_left', m.identity]
    · rw [Function.update_of_ne hd]
  · intro d chd hchd
    rw [m.after] at hchd
    by_cases hd : d = c
    · subst hd
      rw [Function.update_self] at hchd
      obtain rfl := Option.some.inj hchd
      exact m.stable
    · rw [Function.update_of_ne hd] at hchd
      exact h.stable d chd hchd
  · intro d u hreg
    rw [m.claimed]
    rcases m.registered u d hreg with hold | ⟨rfl, hid⟩
    · exact h.registered d u hold
    · exact (h.claimed d u).mpr ⟨ch, m.before, hid⟩
  · intro u d hidx
    exact (m.claimed u d).mpr (h.index u d (m.index u d hidx))
  · intro d chd u e hchd hev hne
    rw [m.claimed, m.newest]
    have hold : ∃ chd, s.channels d = some chd ∧ chd.pc.evicting = some (u, e) := by
      rw [m.after] at hchd
      by_cases hd : d = c
      · subst hd
        rw [Function.update_self] at hchd
        obtain rfl := Option.some.inj hchd
        rcases m.evict with hnone | hsame
        · rw [hnone] at hev
          cases hev
        · exact ⟨ch, m.before, hsame ▸ hev⟩
      · rw [Function.update_of_ne hd] at hchd
        exact ⟨chd, hchd, hev⟩
    obtain ⟨chd', hchd', hev'⟩ := hold
    obtain ⟨hclaimed, hnew⟩ := h.evict d chd' u e hchd' hev' hne
    exact ⟨hclaimed, fun hn hrun => hnew hn (m.running hrun)⟩

/-- What a serving channel is owed survives a step that keeps its entry and its
handle and reports no disconnect of its uuid. -/
theorem Moves.undisturbed (m : s.Moves t c ch ch') (h : s.Undisturbed)
    (hkeep : ∀ u d, t.Serving u d → .registered u d ∈ s.trace → s.Serving u d →
      t.clients.lookup u = s.clients.lookup u ∧
      (s.controlChannels.Contains d → t.controlChannels.Contains d) ∧
      ∀ older hostname, older ≠ d →
        .update older ⟨u, .disconnected hostname⟩ ∈ since (.registered u d) t.trace →
        .update older ⟨u, .disconnected hostname⟩ ∈ since (.registered u d) s.trace)
    (hnew : ∀ u d, t.Serving u d → .registered u d ∉ s.trace → t.Unharmed u d) :
    t.Undisturbed := by
  intro u d hserv
  by_cases hreg : .registered u d ∈ s.trace
  · have hold : s.Serving u d :=
      ⟨by rw [← m.newest]; exact hserv.newest, hreg, m.running hserv.running⟩
    obtain ⟨hentry, hhandle, hquiet⟩ := hkeep u d hserv hreg hold
    obtain ⟨⟨e, he, hec⟩, hcontains, hq⟩ := h u d hold
    exact ⟨⟨e, hentry ▸ he, hec⟩, hhandle hcontains,
      fun older hostname hne hmem => hq older hostname hne (hquiet older hostname hne hmem)⟩
  · exact hnew u d hserv hreg

/-- A step that touches neither the registry, nor the handles, nor the trace. -/
theorem Moves.inv (m : s.Moves t c ch ch') (h : s.Inv)
    (hclients : t.clients = s.clients) (htrace : t.trace = s.trace)
    (hhandles : ∀ d, s.controlChannels.Contains d → t.controlChannels.Contains d) : t.Inv := by
  refine ⟨m.claims h.toClaims, m.undisturbed h.undisturbed ?_ ?_⟩
  · intro u d _ _ _
    refine ⟨by rw [hclients], hhandles d, fun _ _ _ hmem => ?_⟩
    rwa [htrace] at hmem
  · intro u d hserv hreg
    exact absurd (htrace ▸ hserv.registered) hreg

end Moves

/-- `Moves` for a step that only sets the channel. -/
theorem moves_setChannel {s : Hub} {c : ChannelId} {ch ch' : Channel}
    (hch : s.channels c = some ch) (hid : ch'.identity = ch.identity)
    (hstable : ch'.Stable)
    (hloop : ch'.pc.InLoop → ch.pc.InLoop)
    (hevict : ch'.pc.evicting = none ∨ ch'.pc.evicting = ch.pc.evicting) {t : Hub}
    (ht : t.channels = s.channels) (htrace : t.trace = s.trace)
    (hidx : ∀ u d, t.uuidIndex.lookup u = some d → s.uuidIndex.lookup u = some d) :
    s.Moves (t.setChannel c ch') c ch ch' where
  before := hch
  after := by show Function.update t.channels c _ = _; rw [ht]
  claimed u d := by show _ ∈ t.trace ↔ _; rw [htrace]
  registered u d hreg := .inl (by rw [← htrace]; exact hreg)
  newest u := by show Kdct.newest u t.trace = _; rw [htrace]
  index := hidx
  identity := hid
  stable := hstable
  loop := hloop
  evict := hevict

/-- A step of a channel's task that stays away from what is shared. -/
theorem inv_setChannel {s t : Hub} {c : ChannelId} {ch ch' : Channel} (h : s.Inv)
    (hch : s.channels c = some ch) (hid : ch'.identity = ch.identity)
    (hstable : ch'.Stable)
    (hloop : ch'.pc.InLoop → ch.pc.InLoop)
    (hevict : ch'.pc.evicting = none ∨ ch'.pc.evicting = ch.pc.evicting)
    (ht : t.channels = s.channels) (htrace : t.trace = s.trace) (hclients : t.clients = s.clients)
    (hhandles : ∀ d, s.controlChannels.Contains d → t.controlChannels.Contains d)
    (hidx : ∀ u d, t.uuidIndex.lookup u = some d → s.uuidIndex.lookup u = some d) :
    (t.setChannel c ch').Inv :=
  (moves_setChannel hch hid hstable hloop hevict ht htrace hidx).inv h hclients htrace hhandles

variable {s t : Hub} {c : ChannelId} {ch : Channel} {fresh : NodeUuid}

/-- Sending an update that is not a disconnect, and moving on. -/
theorem inv_send {ch' : Channel} {uuid : NodeUuid} {event : NodeEvent} (h : s.Inv)
    (hch : s.channels c = some ch) (hid : ch'.identity = ch.identity)
    (hpc : ch'.pc.uuid = none) (hloop : ch'.pc.InLoop → ch.pc.InLoop)
    (hevict : ch'.pc.evicting = none)
    (hquiet : ∀ hostname, event = .disconnected hostname → ∀ d, ¬s.Serving uuid d) :
    ((s.send c uuid event).setChannel c ch').Inv := by
  have hmoves : s.Moves ((s.send c uuid event).setChannel c ch') c ch ch' :=
    { before := hch
      after := rfl
      claimed := fun u d => by simp [setChannel, send]
      registered := fun u d hreg => .inl (by simpa [setChannel, send] using hreg)
      newest := fun u => rfl
      index := fun u d hidx => hidx
      identity := hid
      stable := Channel.stable_of_none hpc
      loop := hloop
      evict := .inl hevict }
  refine ⟨hmoves.claims h.toClaims, hmoves.undisturbed h.undisturbed ?_ ?_⟩
  · intro u d _ _ hold
    refine ⟨rfl, id, fun older hostname _ hmem => ?_⟩
    change _ ∈ since _ (.update c ⟨uuid, event⟩ :: s.trace) at hmem
    rw [since_cons_ne (by simp)] at hmem
    rcases List.mem_cons.mp hmem with heq | hmem
    · simp only [Trace.update.injEq, NodeUpdate.mk.injEq] at heq
      obtain ⟨_, rfl, hev⟩ := heq
      exact absurd hold (hquiet hostname hev.symm d)
    · exact hmem
  · intro u d hserv hreg
    exact absurd (by simpa [setChannel, send] using hserv.registered) hreg

/-- The channel has become `uuid_index[u]`. -/
def claim (s : Hub) (c : ChannelId) (ch : Channel) (status : NodeStatus) (u : NodeUuid) : Hub :=
  ({ s with uuidIndex := s.uuidIndex.insert u c }.note (.claimed u c)).setChannel c
    { ch with pc := .evict status u (s.uuidIndex.lookup u) }

section claim

variable {status : NodeStatus} {u : NodeUuid}

theorem claim_channels : (s.claim c ch status u).channels = Function.update s.channels c
    (some { ch with pc := .evict status u (s.uuidIndex.lookup u) }) := by
  unfold claim
  rw [setChannel_channels, note_channels]

theorem mem_claim {e : Trace} :
    e ∈ (s.claim c ch status u).trace ↔ e = .claimed u c ∨ e ∈ s.trace :=
  mem_note

theorem newest_claim {v : NodeUuid} : newest v (s.claim c ch status u).trace =
    if u = v ∧ .claimed u c ∉ s.trace then some c else newest v s.trace :=
  newest_note_claimed

theorem running_of_claim {d : ChannelId} (hch : s.channels c = some ch)
    (hpc : ch.pc = .index status u) (hd : (s.claim c ch status u).Running d) : s.Running d := by
  unfold claim at hd
  rw [running_setChannel] at hd
  split at hd
  · rename_i hdc
    subst hdc
    exact ⟨ch, hch, by rw [hpc]; trivial⟩
  · unfold Running at hd
    rwa [note_channels] at hd

/-- What a channel is about to evict was there before, and does not run as the newest. -/
theorem evict_claim (h : s.Inv) (hch : s.channels c = some ch) (hpc : ch.pc = .index status u)
    (hcond : .claimed u c ∈ s.trace → ∀ d, newest u s.trace = some d → s.Running d → d = c)
    {d e : ChannelId} {chd : Channel} {v : NodeUuid}
    (hchd : (s.claim c ch status u).channels d = some chd)
    (hev : chd.pc.evicting = some (v, e)) (hne : e ≠ d) :
    .claimed v e ∈ s.trace ∧
      (newest v (s.claim c ch status u).trace = some e → ¬(s.claim c ch status u).Running e) := by
  have hold : .claimed v e ∈ s.trace ∧ (v = u → .claimed u c ∈ s.trace →
      newest u s.trace = some e → ¬s.Running e) ∧
      (v ≠ u → newest v s.trace = some e → ¬s.Running e) := by
    rw [claim_channels] at hchd
    by_cases hd : d = c
    · subst hd
      rw [Function.update_self] at hchd
      obtain rfl := Option.some.inj hchd
      obtain ⟨prev, hprev, heq⟩ : ∃ prev, s.uuidIndex.lookup u = some prev ∧
          (u, prev) = (v, e) := by
        cases hlook : s.uuidIndex.lookup u with
        | none =>
            rw [hlook] at hev
            cases hev
        | some prev =>
            rw [hlook] at hev
            exact ⟨prev, rfl, Option.some.inj hev⟩
      obtain ⟨rfl, rfl⟩ := Prod.mk.inj heq
      exact ⟨h.index u prev hprev, fun _ hc hn hr => hne (hcond hc prev hn hr),
        fun hu => absurd rfl hu⟩
    · rw [Function.update_of_ne hd] at hchd
      obtain ⟨hclaimed, hnew⟩ := h.evict d chd v e hchd hev hne
      exact ⟨hclaimed, fun hv _ => hv ▸ hnew, fun _ => hnew⟩
  obtain ⟨hclaimed, hsame, hother⟩ := hold
  refine ⟨hclaimed, fun hn hr => ?_⟩
  have hrun : s.Running e := running_of_claim hch hpc hr
  rw [newest_claim] at hn
  split at hn
  · rename_i hfirst
    obtain rfl := Option.some.inj hn
    exact hfirst.2 (hfirst.1 ▸ hclaimed)
  · rename_i hfirst
    by_cases hv : v = u
    · subst hv
      exact hsame rfl (of_not_not fun hc => hfirst ⟨rfl, hc⟩) hn hrun
    · exact hother hv hn hrun

theorem claims_claim (h : s.Inv) (hch : s.channels c = some ch) (hpc : ch.pc = .index status u)
    (hcond : .claimed u c ∈ s.trace → ∀ d, newest u s.trace = some d → s.Running d → d = c) :
    (s.claim c ch status u).Claims := by
  have hmine : ∀ v, .claimed v c ∈ s.trace → v = u := by
    intro v hv
    obtain ⟨ch', hch', hid⟩ := (h.claimed c v).mp hv
    rw [hch] at hch'
    obtain rfl := Option.some.inj hch'
    rw [Channel.identity, hpc] at hid
    exact (h.stable c ch hch u v (by rw [hpc]; rfl) hid).symm
  constructor
  · intro d v
    rw [mem_claim, claim_channels]
    by_cases hd : d = c
    · subst hd
      rw [Function.update_self]
      simp only [Trace.claimed.injEq, and_true, Option.some.injEq, exists_eq_left',
        Channel.identity]
      constructor
      · rintro (rfl | hv)
        · rfl
        · rw [hmine v hv]
      · exact fun hv => .inl hv.symm
    · rw [Function.update_of_ne hd]
      simp only [Trace.claimed.injEq, hd, and_false, false_or]
      exact h.claimed d v
  · intro d chd hchd
    rw [claim_channels] at hchd
    by_cases hd : d = c
    · subst hd
      rw [Function.update_self] at hchd
      obtain rfl := Option.some.inj hchd
      exact (h.stable d ch hch).congr (by rw [hpc]; rfl) rfl
    · rw [Function.update_of_ne hd] at hchd
      exact h.stable d chd hchd
  · intro d v hreg
    rcases mem_claim.mp hreg with hreg | hreg
    · cases hreg
    · exact mem_claim.mpr (.inr (h.registered d v hreg))
  · intro v d hidx
    unfold claim at hidx
    rw [setChannel_uuidIndex, note_uuidIndex, HashMap.lookup_insert_eq] at hidx
    split at hidx
    · rename_i hv
      subst hv
      obtain rfl := Option.some.inj hidx
      exact mem_claim.mpr (.inl rfl)
    · exact mem_claim.mpr (.inr (h.index v d hidx))
  · intro d chd v e hchd hev hne
    obtain ⟨hclaimed, hnew⟩ := evict_claim h hch hpc hcond hchd hev hne
    exact ⟨mem_claim.mpr (.inr hclaimed), hnew⟩

theorem undisturbed_claim (h : s.Inv) (hch : s.channels c = some ch)
    (hpc : ch.pc = .index status u) : (s.claim c ch status u).Undisturbed := by
  intro v d hserv
  have hreg : .registered v d ∈ s.trace := by
    rcases mem_claim.mp hserv.registered with hreg | hreg
    · cases hreg
    · exact hreg
  have hnew := hserv.newest
  rw [newest_claim] at hnew
  split at hnew
  · rename_i hfirst
    obtain ⟨rfl, hno⟩ := hfirst
    obtain rfl := Option.some.inj hnew
    exact absurd (h.registered _ _ hreg) hno
  · obtain ⟨hentry, hhandle, hquiet⟩ :=
      h.undisturbed v d ⟨hnew, hreg, running_of_claim hch hpc hserv.running⟩
    unfold claim
    refine ⟨?_, ?_, fun older hostname hne hmem => ?_⟩
    · rw [setChannel_clients, note_clients]
      exact hentry
    · rw [setChannel_controlChannels, note_controlChannels]
      exact hhandle
    · rw [setChannel_trace] at hmem
      have hold := mem_since_of_note (by simp) hmem
      exact hquiet older hostname hne hold

theorem inv_claim (h : s.Inv) (hch : s.channels c = some ch) (hpc : ch.pc = .index status u)
    (hcond : .claimed u c ∈ s.trace → ∀ d, newest u s.trace = some d → s.Running d → d = c) :
    (s.claim c ch status u).Inv :=
  ⟨claims_claim h hch hpc hcond, undisturbed_claim h hch hpc⟩

end claim

/-- Putting the channel into the registry. -/
theorem inv_upsert {status : NodeStatus} {u : NodeUuid} (h : s.Inv)
    (hch : s.channels c = some ch) (hpc : ch.pc = .upsert status u)
    (hhandle : newest u s.trace = some c → s.controlChannels.Contains c)
    (hcond : ∀ d, s.Serving u d → d = c) :
    (((s.upsert c u status).note (.registered u c)).setChannel c
      { ch with pc := .identify status u }).Inv := by
  have hmoves : s.Moves (((s.upsert c u status).note (.registered u c)).setChannel c
      { ch with pc := .identify status u }) c ch { ch with pc := .identify status u } :=
    { before := hch
      after := by rw [setChannel_channels, note_channels]; rfl
      claimed := fun v d => by
        rw [setChannel_trace, mem_note]
        simp [upsert]
      registered := fun v d hreg => by
        rcases mem_note.mp hreg with heq | hreg
        · obtain ⟨rfl, rfl⟩ := Trace.registered.inj heq
          exact .inr ⟨rfl, by rw [Channel.identity, hpc]⟩
        · exact .inl hreg
      newest := fun v => newest_note_registered
      index := fun v d hidx => by
        rwa [setChannel_uuidIndex, note_uuidIndex] at hidx
      identity := by simp [Channel.identity, hpc]
      stable := fun v w hv hw => h.stable c ch hch v w (by rw [hpc]; exact hv) hw
      loop := fun _ => by rw [hpc]; trivial
      evict := .inl rfl }
  have hlookup : ∀ v, (((s.upsert c u status).note (.registered u c)).setChannel c
      { ch with pc := .identify status u }).clients.lookup v =
      if v = u then some ⟨u, status, c⟩ else s.clients.lookup v := by
    intro v
    rw [setChannel_clients, note_clients]
    exact HashMap.lookup_insert_eq _ _ _ _
  have hhandles : (((s.upsert c u status).note (.registered u c)).setChannel c
      { ch with pc := .identify status u }).controlChannels = s.controlChannels := by
    rw [setChannel_controlChannels, note_controlChannels]
    rfl
  refine ⟨hmoves.claims h.toClaims, fun v d hserv => ?_⟩
  have hnew : newest v s.trace = some d := by rw [← hmoves.newest]; exact hserv.newest
  have hrun := hmoves.running hserv.running
  by_cases hv : v = u
  · subst hv
    have hdc : d = c := by
      rcases mem_note.mp hserv.registered with heq | hreg
      · exact (Trace.registered.inj heq).2
      · exact hcond d ⟨hnew, hreg, hrun⟩
    subst hdc
    refine ⟨⟨_, by rw [hlookup, if_pos rfl], rfl⟩, by rw [hhandles]; exact hhandle hnew, ?_⟩
    intro older hostname hne hmem
    rw [setChannel_trace] at hmem
    by_cases hreg : .registered v d ∈ s.trace
    · have hold := mem_since_of_note (by simp) hmem
      exact (h.undisturbed v d ⟨hnew, hreg, hrun⟩).quiet older hostname hne hold
    · rw [note, if_neg (show .registered v d ∉ (s.upsert d v status).trace from hreg),
        since_cons_self] at hmem
      cases hmem
  · have hreg : .registered v d ∈ s.trace := by
      rcases mem_note.mp hserv.registered with heq | hreg
      · exact absurd (Trace.registered.inj heq).1 hv
      · exact hreg
    obtain ⟨hentry, hcontains, hquiet⟩ := h.undisturbed v d ⟨hnew, hreg, hrun⟩
    refine ⟨by rw [hlookup, if_neg hv]; exact hentry, by rw [hhandles]; exact hcontains, ?_⟩
    intro older hostname hne hmem
    rw [setChannel_trace] at hmem
    have hold := mem_since_of_note (by simp) hmem
    exact hquiet older hostname hne hold

/-- Removing the entry of a uuid nobody serves. -/
theorem inv_remove {ch' : Channel} {u : NodeUuid} (h : s.Inv) (hch : s.channels c = some ch)
    (hid : ch'.identity = ch.identity) (hpc : ch'.pc.uuid = none)
    (hloop : ch'.pc.InLoop → ch.pc.InLoop)
    (hevict : ch'.pc.evicting = none)
    (hcond : ∀ d, ¬s.Serving u d) : ((s.remove u).setChannel c ch').Inv := by
  have hmoves : s.Moves ((s.remove u).setChannel c ch') c ch ch' :=
    moves_setChannel hch hid (Channel.stable_of_none hpc) hloop (.inl hevict) rfl rfl fun _ _ => id
  refine ⟨hmoves.claims h.toClaims, hmoves.undisturbed h.undisturbed ?_ ?_⟩
  · intro v d _ _ hold
    refine ⟨?_, id, fun _ _ _ => id⟩
    have hv : v ≠ u := fun hv => hcond d (hv ▸ hold)
    exact AList.lookup_erase_ne hv
  · intro v d hserv hreg
    exact absurd hserv.registered hreg

/-- Taking out the handle of a channel that serves nobody. -/
theorem inv_remove1 {ch' : Channel} {e : ChannelId} (h : s.Inv) (hch : s.channels c = some ch)
    (hid : ch'.identity = ch.identity)
    (hstable : ch'.Stable)
    (hloop : ch'.pc.InLoop → ch.pc.InLoop)
    (hevict : ch'.pc.evicting = none)
    (hcond : ∀ u, ¬s.Serving u e) :
    ({ s with controlChannels := s.controlChannels.remove1 e }.setChannel c ch').Inv := by
  have hmoves : s.Moves ({ s with controlChannels := s.controlChannels.remove1 e }.setChannel c ch')
      c ch ch' :=
    moves_setChannel hch hid hstable hloop (.inl hevict) rfl rfl fun _ _ => id
  refine ⟨hmoves.claims h.toClaims, hmoves.undisturbed h.undisturbed ?_ ?_⟩
  · intro v d _ _ hold
    refine ⟨rfl, fun hd => ?_, fun _ _ _ => id⟩
    exact ControlChannelMap.contains_remove1 hd fun hde => hcond v (hde ▸ hold)
  · intro v d hserv hreg
    exact absurd hserv.registered hreg

theorem not_running_of_pc (hch : s.channels c = some ch) (hpc : ¬ch.pc.InLoop) : ¬s.Running c := by
  rintro ⟨ch', hch', hloop⟩
  rw [hch] at hch'
  exact hpc (Option.some.inj hch' ▸ hloop)

/-- A step of a channel's task that only sets the channel. -/
theorem inv_task {ch' : Channel} (h : s.Inv) (hch : s.channels c = some ch)
    (hid : ch'.identity = ch.identity) (hstable : ch'.Stable)
    (hloop : ch'.pc.InLoop → ch.pc.InLoop) (hevict : ch'.pc.evicting = none) :
    (s.setChannel c ch').Inv :=
  inv_setChannel h hch hid hstable hloop (.inl hevict) rfl rfl rfl (fun _ => id) (fun _ _ => id)

theorem inv_advance {parses : String → Bool} (h : s.Inv) (hch : s.channels c = some ch)
    (hcond : s.Respectful (.advance c fresh))
    (hstep : s.advance parses c ch fresh = some t) : t.Inv := by
  have hcond : s.Respects c ch := hcond ch hch
  have hstable := h.stable c ch hch
  cases advance_cases hstep with
  | snapshot hpc | unsent hpc =>
      exact inv_task h hch (by simp [Channel.identity, hpc]) (Channel.stable_of_none rfl)
        (fun _ => by rw [hpc]; trivial) rfl
  | known hpc hnode =>
      refine inv_task h hch (by simp [Channel.identity, hpc, hnode]) ?_
        (fun _ => by rw [hpc]; trivial) rfl
      intro u v hu hv
      replace hv : ch.nodeUuid = some v := hv
      exact Option.some.inj (hu.symm.trans (hnode.symm.trans hv))
  | resolve hpc hnode =>
      refine inv_setChannel h hch (by simp [Channel.identity, hpc, hnode]) ?_
        (fun _ => by rw [hpc]; trivial) (.inl rfl) rfl rfl rfl (fun _ => id) (fun _ _ => id)
      intro u v _ hv
      cases hnode.symm.trans hv
  | accept hpc | assign hpc | keepPrev hpc | keep hpc =>
      exact inv_task h hch (by simp [Channel.identity, hpc])
        (hstable.congr (by rw [hpc]; rfl) rfl)
        (fun _ => by rw [hpc]; trivial) rfl
  | @dropPrev _ u prev hpc hnode hne =>
      -- The uuid of a channel does not change, so nothing is dropped.
      exact absurd (hstable u prev (by rw [hpc]; rfl) hnode).symm hne
  | index hpc =>
      simp only [Respects, hpc] at hcond
      exact inv_claim h hch hpc hcond
  | @evict _ u prev hpc hne =>
      refine inv_remove1 h hch (by simp [Channel.identity, hpc])
        (hstable.congr (by rw [hpc]; rfl) rfl)
        (fun _ => by rw [hpc]; trivial) rfl ?_
      intro v hserv
      obtain ⟨hclaimed, hnew⟩ := h.evict c ch u prev hch (by rw [hpc]; rfl) hne
      have hv : v = u := claims_functional h.toClaims (mem_of_newest hserv.newest) hclaimed
      exact hnew (hv ▸ hserv.newest) hserv.running
  | upsert hpc =>
      simp only [Respects, hpc] at hcond
      exact inv_upsert h hch hpc hcond.1 fun d hserv => hcond.2 d hserv.newest hserv
  | identify hpc =>
      refine inv_task h hch (by simp [Channel.identity, hpc]) ?_
        (fun _ => by rw [hpc]; trivial) rfl
      intro v w hv hw
      exact Option.some.inj (hv.symm.trans hw)
  | connected hpc =>
      refine inv_send h hch (by simp [Channel.identity, hpc]) rfl
        (fun _ => by rw [hpc]; trivial) rfl ?_
      intro hostname hev
      cases hev
  | @sent report u hpc =>
      refine inv_send h hch (by simp [Channel.identity, hpc]) rfl
        (fun _ => by rw [hpc]; trivial) rfl ?_
      intro hostname hev
      cases report <;> cases hev
  | @farewell hostname u hpc hhostname hnode =>
      simp only [Respects, hpc] at hcond
      exact inv_send h hch (by simp [Channel.identity, hpc]) rfl False.elim rfl
        fun _ _ d hserv => hcond u hnode (by rw [hhostname]; rfl) d hserv.newest hserv
  | shutdown hpc | identified hpc | unidentified hpc | keepIndex hpc =>
      exact inv_task h hch (by simp [Channel.identity, hpc]) (Channel.stable_of_none rfl)
        False.elim rfl
  | clearIndex hpc =>
      exact inv_setChannel h hch (by simp [Channel.identity, hpc]) (Channel.stable_of_none rfl)
        False.elim (.inl rfl) rfl rfl rfl (fun _ => id)
        fun _ _ hd => (HashMap.lookup_erase_eq_some.mp hd).2
  | unregister hpc =>
      simp only [Respects, hpc] at hcond
      exact inv_remove h hch (by simp [Channel.identity, hpc]) rfl False.elim rfl
        fun d hserv => hcond d hserv.newest hserv
  | leave hpc =>
      exact inv_remove1 h hch (by simp [Channel.identity, hpc]) (Channel.stable_of_none rfl)
        False.elim rfl fun u hserv =>
          not_running_of_pc hch (by rw [hpc]; exact id) hserv.running

theorem inv_start (bindings : HashMap NodeUuid String) : (start bindings).Inv := by
  have htrace : (start bindings).trace = [] := rfl
  have hchannels : ∀ c ch, (start bindings).channels c ≠ some ch :=
    fun _ ch => (Option.some_ne_none ch).symm
  refine ⟨⟨?_, ?_, ?_, ?_, ?_⟩, ?_⟩
  · intro c u
    simp [htrace, hchannels]
  · exact fun c ch h => absurd h (hchannels c ch)
  · intro c u h
    rw [htrace] at h
    exact absurd h List.not_mem_nil
  · intro u c h
    rw [show (start bindings).uuidIndex.lookup u = none from AList.lookup_empty u] at h
    exact absurd h (Option.some_ne_none c).symm
  · exact fun c ch u d h => absurd h (hchannels c ch)
  · intro u c h
    have hreg := h.registered
    rw [htrace] at hreg
    exact absurd hreg List.not_mem_nil

theorem inv_spawn {serviceDigest sessionKey : Digest} (h : s.Inv) (hch : s.channels c = none) :
    (s.setChannel c (.new serviceDigest sessionKey)).Inv := by
  have hold : ∀ d, d ≠ c → (s.setChannel c (.new serviceDigest sessionKey)).channels d =
      s.channels d := fun d hd => Function.update_of_ne hd _ _
  have hunclaimed : ∀ u, .claimed u c ∉ s.trace := by
    intro u hu
    obtain ⟨ch, hsome, _⟩ := (h.claimed c u).mp hu
    rw [hch] at hsome
    cases hsome
  have hrun : ∀ d, d ≠ c → (s.setChannel c (.new serviceDigest sessionKey)).Running d →
      s.Running d := by
    rintro d hd ⟨ch, hsome, hloop⟩
    exact ⟨ch, by rw [← hold d hd]; exact hsome, hloop⟩
  refine ⟨⟨?_, ?_, h.registered, h.index, ?_⟩, ?_⟩
  · intro d u
    by_cases hd : d = c
    · subst hd
      rw [setChannel_channels, Function.update_self]
      simpa [Channel.identity, Channel.new] using hunclaimed u
    · rw [hold d hd]
      exact h.claimed d u
  · intro d chd hchd
    by_cases hd : d = c
    · subst hd
      rw [setChannel_channels, Function.update_self] at hchd
      obtain rfl := Option.some.inj hchd
      exact Channel.stable_of_none rfl
    · exact h.stable d chd (by rw [← hold d hd]; exact hchd)
  · intro d chd u e hchd hev hne
    by_cases hd : d = c
    · subst hd
      rw [setChannel_channels, Function.update_self] at hchd
      obtain rfl := Option.some.inj hchd
      cases hev
    · obtain ⟨hclaimed, hnew⟩ := h.evict d chd u e (by rw [← hold d hd]; exact hchd) hev hne
      have he : e ≠ c := fun he => hunclaimed u (he ▸ hclaimed)
      exact ⟨hclaimed, fun hn hr => hnew hn (hrun e he hr)⟩
  · intro u d hserv
    have hd : d ≠ c := fun hd => hunclaimed u (hd ▸ mem_of_newest hserv.newest)
    obtain ⟨hentry, hhandle, hquiet⟩ :=
      h.undisturbed u d ⟨hserv.newest, hserv.registered, hrun d hd hserv.running⟩
    exact ⟨hentry, hhandle, hquiet⟩

/-- A step of the loop that only waits for the next thing to handle. -/
theorem inv_select {ch' : Channel} (h : s.Inv) (hch : s.channels c = some ch)
    (hpc : ch.pc = .select) (hid : ch'.identity = ch.nodeUuid) (hnone : ch'.pc.uuid = none)
    (hevict : ch'.pc.evicting = none) : (s.setChannel c ch').Inv :=
  inv_task h hch (by rw [hid, Channel.identity, hpc]) (Channel.stable_of_none hnone)
    (fun _ => by rw [hpc]; trivial) hevict

theorem inv_step {parses : String → Bool} {label : HubLabel} (h : s.Inv)
    (hcond : s.Respectful label) (hstep : s.step parses label = some t) : t.Inv := by
  cases label with
  | spawn c serviceDigest sessionKey =>
      simp only [step] at hstep
      split at hstep
      · cases hstep
      · rename_i hch
        obtain rfl := Option.some.inj hstep
        exact inv_spawn h hch
  | insert c =>
      obtain ⟨ch, hch, hins⟩ := Option.bind_eq_some_iff.mp hstep
      split at hins
      · cases hins
      · obtain rfl := Option.some.inj hins
        exact inv_setChannel h hch rfl (h.stable c ch hch) id (.inr rfl) rfl rfl rfl
          (fun _ => ControlChannelMap.contains_insert) (fun _ _ => id)
  | report c status =>
      obtain ⟨ch, hch, hsel⟩ := Option.bind_eq_some_iff.mp hstep
      split at hsel
      · rename_i hpc
        obtain rfl := Option.some.inj hsel
        exact inv_select h hch hpc rfl rfl rfl
      · cases hsel
  | container c report =>
      obtain ⟨ch, hch, hsel⟩ := Option.bind_eq_some_iff.mp hstep
      split at hsel
      · rename_i hpc
        obtain rfl := Option.some.inj hsel
        exact inv_select h hch hpc rfl rfl rfl
      · cases hsel
  | advance c fresh =>
      obtain ⟨ch, hch, hadv⟩ := Option.bind_eq_some_iff.mp hstep
      exact inv_advance h hch hcond hadv
  | written c =>
      obtain ⟨ch, hch, hsel⟩ := Option.bind_eq_some_iff.mp hstep
      split at hsel
      · rename_i hpc
        obtain rfl := Option.some.inj hsel
        exact inv_select h hch hpc (by rw [Channel.identity, hpc]) (by rw [hpc]; rfl)
          (by rw [hpc]; rfl)
      · cases hsel
  | exit c =>
      obtain ⟨ch, hch, hsel⟩ := Option.bind_eq_some_iff.mp hstep
      split at hsel
      · rename_i hpc
        obtain rfl := Option.some.inj hsel
        exact inv_select h hch hpc rfl rfl rfl
      · cases hsel

end Hub

/-- In a run in which every replaced channel leaves its successor alone, every
serving channel keeps its entry and its handle, and no disconnect is sent over
its head. -/
theorem unharmed_of_respectful (parses : String → Bool) (bindings : HashMap NodeUuid String)
    (labels : List HubLabel)
    (h : (hub parses bindings).Meets Hub.Respectful (.start bindings) labels) :
    (hub parses bindings).Always Hub.Undisturbed (.start bindings) labels := by
  have hinv : (hub parses bindings).Always Hub.Inv (.start bindings) labels :=
    Machine.always_of_meets (fun _ _ _ hI hC hstep => Hub.inv_step hI hC hstep)
      (Hub.inv_start bindings) h
  exact hinv.mono fun _ hI => hI.undisturbed

/-! ## A client that reconnects -/

def sampleDigest (b : UInt8) : Digest := ⟨List.replicate hashWidthInBytes b, List.length_replicate⟩

/-- A connection up to the end of its first report. -/
def connects (c : ChannelId) (sessionKey : Digest) : List HubLabel :=
  [.spawn c (sampleDigest 0) sessionKey, .insert c, .report c sampleStatus] ++
    List.replicate 9 (.advance c "")

/-- The first channel is gone before the second one connects. -/
theorem unharmed_of_respectful_connects :
    (hub (fun _ => true) ∅).Always Hub.Undisturbed (.start ∅)
      (connects 0 (sampleDigest 1) ++ .exit 0 :: List.replicate 5 (.advance 0 "") ++
        connects 1 (sampleDigest 2)) :=
  unharmed_of_respectful _ _ _ (by decide)

/-- The first channel notices that its connection is gone after the second one
has registered. -/
def lateExit : List HubLabel :=
  connects 0 (sampleDigest 1) ++ connects 1 (sampleDigest 2) ++
    .exit 0 :: List.replicate 4 (.advance 0 "")

theorem lateExit_disturbs :
    ¬(hub (fun _ => true) ∅).Always Hub.Undisturbed (.start ∅) lateExit := by
  intro h
  obtain ⟨s, hs⟩ : ∃ s, (hub (fun _ => true) ∅).run (.start ∅) lateExit = some s :=
    Option.isSome_iff_exists.mp (by decide)
  have hfacts : ((hub (fun _ => true) ∅).run (.start ∅) lateExit).map (fun s =>
      (newest "u" s.trace, decide (.registered "u" 1 ∈ s.trace), (s.channels 1).map Channel.pc,
        s.clients.lookup "u")) = some (some 1, true, some .select, none) := by decide
  rw [hs] at hfacts
  simp only [Option.map_some, Option.some.injEq, Prod.mk.injEq, decide_eq_true_eq] at hfacts
  obtain ⟨hnew, hreg, hpc, hgone⟩ := hfacts
  obtain ⟨ch, hch, hselect⟩ := Option.map_eq_some_iff.mp hpc
  have hrun : s.Running 1 := ⟨ch, hch, by rw [hselect]; trivial⟩
  obtain ⟨e, he, _⟩ := ((h.last hs) "u" 1 ⟨hnew, hreg, hrun⟩).entry
  rw [hgone] at he
  cases he

end Kdct
