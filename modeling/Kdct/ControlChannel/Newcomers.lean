/-
Channels that come without a uuid, at the same time.

A machine without a `node_id` file reports no uuid.  The server gives it the uuid its
digest is bound to, if there is just one and nobody is online with it, and a new one
otherwise.  Who is online is read before the bindings are, and a channel is online only
some steps after it has got its uuid.

`Distinct` says that no two running newcomers of one digest have been given the same
uuid.  It holds exactly in the runs that restore a uuid only when the newcomer that was
given it before has left.
-/
import Kdct.ControlChannel.Identity

namespace Kdct

/-- The snapshot of a channel that is about to resolve its identity without a claim. -/
def Channel.unclaimed? (parses : String → Bool) (ch : Channel) : Option (List NodeUuid) :=
  match ch.pc, ch.nodeUuid with
  | .resolve status online, none =>
      if claimedUuid parses status.nodeUuid = none then some online else none
  | _, _ => none

theorem Channel.unclaimed?_eq_some {parses : String → Bool} {ch : Channel}
    {online : List NodeUuid} (h : ch.unclaimed? parses = some online) :
    ∃ status, ch.pc = .resolve status online ∧ ch.nodeUuid = none ∧
      claimedUuid parses status.nodeUuid = none := by
  unfold unclaimed? at h
  split at h
  · rename_i status online' hpc hnone
    split at h
    · rename_i hclaimed
      obtain rfl := Option.some.inj h
      exact ⟨status, hpc, hnone, hclaimed⟩
    · cases h
  · cases h

namespace Registrar

/-- No two running newcomers of one digest have been given the same uuid. -/
def Distinct (s : Registrar) : Prop :=
  ∀ r ∈ s.resolutions, ∀ r' ∈ s.resolutions, r.claimed = none → r'.claimed = none →
    r.digest = r'.digest → r.channel ≠ r'.channel → s.hub.Running r.channel →
      s.hub.Running r'.channel → r.uuid ≠ r'.uuid

instance : DecidablePred Distinct := fun s =>
  inferInstanceAs (Decidable (∀ r ∈ s.resolutions, ∀ r' ∈ s.resolutions, _))

/-- A newcomer gets the offline uuid of its digest only when no other newcomer that was
given it still runs. -/
def RestoresLeft (parses : String → Bool) (s : Registrar) : HubLabel → Prop
  | .advance c _ =>
      ∀ ch ∈ s.hub.channels c, ∀ online ∈ ch.unclaimed? parses,
        ∀ only ∈ soloOffline s.hub.bindings ch.digestHex online,
          ∀ r ∈ s.resolutions, r.claimed = none → r.digest = ch.digestHex → r.uuid = only →
            ¬s.hub.Running r.channel
  | _ => True

section

variable {parses : String → Bool} {s t : Registrar} {label : HubLabel}

/-- Who runs after a step and was given a uuid before it ran before it. -/
theorem running_of_step (hs : s.Sound) (h : s.step parses label = some t) {r : Hub.Resolution}
    (hr : r ∈ s.resolutions) (hrun : t.hub.Running r.channel) : s.hub.Running r.channel := by
  obtain ⟨ch, hch, _, _⟩ := hs.resolutions r hr
  obtain ⟨ch', hch', hcont⟩ := step_continues hs h hch
  obtain ⟨ch'', hch'', hloop⟩ := hrun
  obtain rfl := Option.some.inj (hch'.symm.trans hch'')
  exact ⟨ch, hch, hcont.loop hloop⟩

/-- A newcomer is given the offline uuid of its digest or a fresh one. -/
theorem resolution_unclaimed {r : Hub.Resolution} (hr : s.hub.resolution? parses label = some r)
    (hclaimed : r.claimed = none) :
    ∃ c fresh ch online, label = .advance c fresh ∧ s.hub.channels c = some ch ∧
      ch.unclaimed? parses = some online ∧ r.channel = c ∧ r.digest = ch.digestHex ∧
      r.uuid = (soloOffline s.hub.bindings ch.digestHex online).getD fresh := by
  cases label with
  | advance c fresh =>
      obtain ⟨ch, hch, hr⟩ := Option.bind_eq_some_iff.mp hr
      split at hr
      · rename_i status online hpc hnone
        obtain rfl := Option.some.inj hr
        have hclaimed : claimedUuid parses status.nodeUuid = none := hclaimed
        refine ⟨c, fresh, ch, online, rfl, hch, ?_, rfl, rfl, ?_⟩
        · rw [Channel.unclaimed?, hpc, hnone]
          exact if_pos hclaimed
        · dsimp only
          rw [hclaimed, resolveBinding_none]
          cases soloOffline s.hub.bindings ch.digestHex online with
          | none => rfl
          | some only => rfl
      · cases hr
  | _ => cases hr

/-- The new uuid of a newcomer is not the one of a newcomer that runs. -/
theorem uuid_ne_of_restoresLeft (hs : s.Sound) (hfresh : s.hub.Generates label)
    (hC : s.RestoresLeft parses label) {r r' : Hub.Resolution}
    (hr : s.hub.resolution? parses label = some r) (hr' : r' ∈ s.resolutions)
    (hclaimed : r.claimed = none) (hclaimed' : r'.claimed = none) (hdigest : r.digest = r'.digest)
    (hrun : s.hub.Running r'.channel) : r.uuid ≠ r'.uuid := by
  obtain ⟨c, fresh, ch, online, rfl, hch, honline, _, hr_digest, huuid⟩ :=
    resolution_unclaimed hr hclaimed
  intro heq
  cases hsolo : soloOffline s.hub.bindings ch.digestHex online with
  | some only =>
      rw [hsolo, Option.getD_some] at huuid
      refine hC ch hch online honline only hsolo r' hr' hclaimed' ?_ ?_ hrun
      · exact hdigest.symm.trans hr_digest
      · exact heq.symm.trans huuid
  | none =>
      rw [hsolo, Option.getD_none] at huuid
      have hbound := bound_of_mem hs hr'
      rw [← heq, huuid, hfresh fresh rfl] at hbound
      cases hbound

theorem distinct_step (hs : s.Sound) (hd : s.Distinct) (hC : s.RestoresLeft parses label)
    (h : s.step parses label = some t) : t.Distinct := by
  obtain ⟨hfresh, _, hres⟩ := step_cases h
  intro r hr r' hr' hclaimed hclaimed' hdigest hne hrun hrun'
  rw [hres] at hr hr'
  rcases List.mem_append.mp hr with hnew | hold
  · have hnew := Option.mem_toList.mp hnew
    rcases List.mem_append.mp hr' with hnew' | hold'
    · have hnew' := Option.mem_toList.mp hnew'
      obtain rfl := Option.some.inj (hnew.symm.trans hnew')
      exact absurd rfl hne
    · exact uuid_ne_of_restoresLeft hs hfresh hC hnew hold' hclaimed hclaimed' hdigest
        (running_of_step hs h hold' hrun')
  · rcases List.mem_append.mp hr' with hnew' | hold'
    · exact (uuid_ne_of_restoresLeft hs hfresh hC (Option.mem_toList.mp hnew') hold hclaimed'
        hclaimed hdigest.symm (running_of_step hs h hold hrun)).symm
    · exact hd r hold r' hold' hclaimed hclaimed' hdigest hne (running_of_step hs h hold hrun)
        (running_of_step hs h hold' hrun')

/-- A step that restores a uuid somebody runs with gives it to two channels at once. -/
theorem restoresLeft_of_distinct (hs : s.Sound) (h : s.step parses label = some t)
    (hd : t.Distinct) : s.RestoresLeft parses label := by
  obtain ⟨_, hstep, hres⟩ := step_cases h
  cases label with
  | advance c fresh =>
      intro ch hch online honline only hsolo r hr hclaimed hdigest huuid hrun
      obtain ⟨status, hpc, hnone, hunclaimed⟩ := Channel.unclaimed?_eq_some honline
      have hresolution : s.hub.resolution? parses (.advance c fresh) =
          some ⟨c, ch.digestHex, none, only⟩ := by
        have hresolve : resolveBinding s.hub.bindings ch.digestHex online none fresh = _ :=
          resolveBinding_none
        rw [Option.mem_def.mp hsolo, ← hunclaimed] at hresolve
        rw [Hub.resolution?_eq hch hpc hnone hresolve, hunclaimed]
        rfl
      rw [hresolution] at hres
      -- The channel of an earlier resolution has a uuid, so it is another channel.
      have hne : c ≠ r.channel := by
        rintro rfl
        obtain ⟨ch', hch', _, hgiven⟩ := hs.resolutions r hr
        obtain rfl := Option.some.inj (hch.symm.trans hch')
        rw [Channel.given, hpc, hnone] at hgiven
        cases hgiven
      have hchannels : ∃ ch', ch'.pc.InLoop ∧
          t.hub.channels = Function.update s.hub.channels c (some ch') := by
        have hadvance : s.hub.advance parses c ch fresh = some t.hub := by
          rw [← hstep, Hub.step, hch, Option.bind_some]
        simp only [Hub.advance, hpc, hnone, Option.some.injEq] at hadvance
        rw [← hadvance]
        refine ⟨_, ?_, Hub.setChannel_channels⟩
        trivial
      obtain ⟨ch', hloop, hchannels⟩ := hchannels
      refine hd ⟨c, ch.digestHex, none, only⟩ (hres ▸ List.mem_cons_self) r
        (hres ▸ List.mem_cons_of_mem _ hr) rfl hclaimed hdigest.symm hne ?_ ?_ huuid.symm
      · exact ⟨ch', by rw [hchannels]; exact Function.update_self _ _ _, hloop⟩
      · obtain ⟨ch'', hch'', hloop''⟩ := hrun
        exact ⟨ch'', by rw [hchannels]; exact (Function.update_of_ne hne.symm _ _).trans hch'',
          hloop''⟩
  | _ => trivial

end

/-- Running newcomers of one digest have different uuids exactly in the runs that restore
a uuid only when the newcomer that was given it has left. -/
theorem distinct_iff_restoresLeft (parses : String → Bool) (bindings : HashMap NodeUuid String)
    (labels : List HubLabel) :
    (registrar parses bindings).Always Distinct (.start bindings) labels ↔
      (registrar parses bindings).Meets (RestoresLeft parses) (.start bindings) labels := by
  refine Machine.always_iff_meets (I := fun s : Registrar => s.Sound ∧ s.Distinct) ?_
    (fun _ hI => hI.2) ?_
    ⟨sound_start bindings, fun r hr => absurd hr List.not_mem_nil⟩
  · intro s label t hI hC hstep
    exact ⟨sound_step hI.1 hstep, distinct_step hI.1 hI.2 hC hstep⟩
  · intro s label t hI hstep hd
    exact restoresLeft_of_distinct hI.1 hstep hd

/-- A channel that reports no uuid. -/
def newcomer (c : ChannelId) (sessionKey : Digest) : List HubLabel :=
  [.spawn c (sampleDigest 0) sessionKey, .report c { sampleStatus with nodeUuid := none }]

/-- On a new server, the second newcomer has read who is online before the first one is,
and resolves after the first one has bound its uuid. -/
def twoNewcomers : List HubLabel :=
  newcomer 0 (sampleDigest 1) ++ newcomer 1 (sampleDigest 2) ++
    [.advance 0 "", .advance 1 "", .advance 0 "u", .advance 1 "v"]

theorem twoNewcomers_clash :
    ¬(registrar (fun _ => true) ∅).Always Distinct (.start ∅) twoNewcomers := by
  decide

end Registrar

end Kdct
