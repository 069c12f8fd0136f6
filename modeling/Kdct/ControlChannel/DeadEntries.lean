/-
Entries of channels that are gone.

The handshake starts the tasks of a channel and then puts its handle into
`control_channels`; the cleanup takes it out.  Nothing orders the two.  An entry
outlives its channel exactly when the insertion comes after the cleanup, or when
another channel has the same session key.
-/
import Kdct.ControlChannel.Succession

namespace Kdct

namespace Hub

/-- No entry has the id or the session key of a channel whose cleanup is done. -/
def NoDeadEntries (s : Hub) : Prop :=
  ∀ c ch, s.channels c = some ch → ch.pc = .done →
    ∀ p ∈ s.controlChannels, p.1 ≠ c ∧ p.2 ≠ ch.sessionKey

/-- An insertion is made for a channel that still runs and whose key no finished
channel has, and a channel that ends is the only one with its key. -/
def InsertsAlive (s : Hub) : HubLabel → Prop
  | .insert c => ∀ ch ∈ s.channels c, ch.inserted = false →
      s.controlChannels.any (fun p => p.1 == c || p.2 == ch.sessionKey) = false →
      ch.pc ≠ .done ∧
        ∀ d ch', s.channels d = some ch' → ch'.pc = .done → ch.sessionKey ≠ ch'.sessionKey
  | .advance c _ => ∀ ch ∈ s.channels c, ch.pc = .leave →
      ∀ p ∈ s.controlChannels, p.1 ≠ c → p.2 ≠ ch.sessionKey
  | _ => True

/-! ## What a step does to the entries -/

/-- A step of one channel that adds no entry and does not end the channel. -/
structure Shrinks (s t : Hub) (c : ChannelId) (ch' : Channel) : Prop where
  after : t.channels = Function.update s.channels c (some ch')
  entries : ∀ p ∈ t.controlChannels, p ∈ s.controlChannels
  running : ch'.pc ≠ .done

inductive EntryStep (s : Hub) : HubLabel → Hub → Prop
  | insert {c : ChannelId} {ch : Channel} (hch : s.channels c = some ch)
      (hinserted : ch.inserted = false) :
      EntryStep s (.insert c)
        ({ s with controlChannels := s.controlChannels.insert c ch.sessionKey }.setChannel c
          { ch with inserted := true })
  | leave {c : ChannelId} {fresh : NodeUuid} {ch : Channel} (hch : s.channels c = some ch)
      (hpc : ch.pc = .leave) :
      EntryStep s (.advance c fresh)
        ({ s with controlChannels := s.controlChannels.remove1 c }.setChannel c
          { ch with pc := .done })
  | shrinks {label : HubLabel} {t : Hub} {c : ChannelId} {ch' : Channel}
      (hinsert : ∀ d, label ≠ .insert d)
      (hleave : ∀ d fresh ch, label = .advance d fresh → s.channels d = some ch → ch.pc ≠ .leave)
      (h : s.Shrinks t c ch') : EntryStep s label t

section

variable {parses : String → Bool} {s t : Hub} {c : ChannelId} {ch : Channel} {fresh : NodeUuid}
  {label : HubLabel}

theorem mem_remove1 {m : ControlChannelMap} {p : ChannelId × Digest} :
    p ∈ m.remove1 c ↔ p ∈ m ∧ p.1 ≠ c := by
  rw [ControlChannelMap.remove1, List.mem_filter, bne_iff_ne]

theorem shrinks_setChannel {ch' : Channel} (hchannels : t.channels = s.channels)
    (hentries : ∀ p ∈ t.controlChannels, p ∈ s.controlChannels) (hpc : ch'.pc ≠ .done) :
    s.Shrinks (t.setChannel c ch') c ch' where
  after := by rw [setChannel_channels, hchannels]
  entries := hentries
  running := hpc

theorem shrinks_advance (hpc : ch.pc ≠ .leave) (h : s.advance parses c ch fresh = some t) :
    ∃ ch', s.Shrinks t c ch' := by
  have hsame : ∀ p ∈ s.controlChannels, p ∈ s.controlChannels := fun _ => id
  cases advance_cases h with
  | leave hat => exact absurd hat hpc
  | index | upsert =>
      refine ⟨_, shrinks_setChannel note_channels ?_ nofun⟩
      rw [note_controlChannels]
      exact hsame
  | evict =>
      exact ⟨_, shrinks_setChannel rfl (fun p hp => (mem_remove1.mp hp).1) nofun⟩
  | _ => exact ⟨_, shrinks_setChannel rfl hsame nofun⟩

theorem entryStep_of_step (h : s.step parses label = some t) : s.EntryStep label t := by
  cases label with
  | spawn c serviceDigest sessionKey =>
      simp only [step] at h
      split at h
      · cases h
      · obtain rfl := Option.some.inj h
        exact .shrinks (fun _ heq => by cases heq) (fun _ _ _ heq => by cases heq)
          (shrinks_setChannel rfl (fun _ => id) fun hpc => by cases hpc)
  | insert c =>
      obtain ⟨ch, hch, h⟩ := Option.bind_eq_some_iff.mp h
      split at h
      · cases h
      · rename_i hinserted
        obtain rfl := Option.some.inj h
        exact .insert hch (by simpa using hinserted)
  | report c status | container c report =>
      obtain ⟨ch, hch, h⟩ := Option.bind_eq_some_iff.mp h
      split at h
      · obtain rfl := Option.some.inj h
        exact .shrinks (fun _ heq => by cases heq) (fun _ _ _ heq => by cases heq)
          (shrinks_setChannel rfl (fun _ => id) fun hpc => by cases hpc)
      · cases h
  | written c =>
      obtain ⟨ch, hch, h⟩ := Option.bind_eq_some_iff.mp h
      split at h
      · rename_i hpc
        obtain rfl := Option.some.inj h
        refine .shrinks (fun _ heq => by cases heq) (fun _ _ _ heq => by cases heq)
          (shrinks_setChannel rfl (fun _ => id) fun hdone => ?_)
        rw [hpc] at hdone
        cases hdone
      · cases h
  | exit c =>
      obtain ⟨ch, hch, h⟩ := Option.bind_eq_some_iff.mp h
      split at h
      · obtain rfl := Option.some.inj h
        exact .shrinks (fun _ heq => by cases heq) (fun _ _ _ heq => by cases heq)
          (shrinks_setChannel rfl (fun _ => id) fun hpc => by cases hpc)
      · cases h
  | advance c fresh =>
      obtain ⟨ch, hch, h⟩ := Option.bind_eq_some_iff.mp h
      by_cases hpc : ch.pc = .leave
      · simp only [advance, hpc, Option.some.injEq] at h
        subst h
        exact .leave hch hpc
      · obtain ⟨ch', hshrinks⟩ := shrinks_advance hpc h
        refine .shrinks (fun _ heq => by cases heq) (fun d fresh' ch'' heq hch'' => ?_) hshrinks
        injection heq with hd _
        rw [← hd, hch] at hch''
        exact Option.some.inj hch'' ▸ hpc

/-! ## The runs -/

theorem mem_insert {m : ControlChannelMap} {k : Digest} {p : ChannelId × Digest}
    (hp : p ∈ m.insert c k) :
    p ∈ m ∨ m.any (fun p => p.1 == c || p.2 == k) = false ∧ p = (c, k) := by
  unfold ControlChannelMap.insert at hp
  split at hp
  · exact .inl hp
  · rename_i hfree
    rcases List.mem_cons.mp hp with heq | hold
    · exact .inr ⟨by simpa using hfree, heq⟩
    · exact .inl hold

theorem insert_of_free {m : ControlChannelMap} {k : Digest}
    (hfree : m.any (fun p => p.1 == c || p.2 == k) = false) : m.insert c k = (c, k) :: m := by
  rw [ControlChannelMap.insert, hfree]
  rfl

theorem noDeadEntries_step (h : s.NoDeadEntries) (hC : s.InsertsAlive label)
    (hstep : s.EntryStep label t) : t.NoDeadEntries := by
  intro d chd hd hdone p hp
  cases hstep with
  | @insert c ch hch hinserted =>
      obtain ⟨ch', hch', hdone', hkey⟩ : ∃ ch', s.channels d = some ch' ∧ ch'.pc = .done ∧
          ch'.sessionKey = chd.sessionKey := by
        rw [setChannel_channels] at hd
        by_cases hdc : d = c
        · subst hdc
          rw [Function.update_self] at hd
          obtain rfl := Option.some.inj hd
          exact ⟨ch, hch, hdone, rfl⟩
        · rw [Function.update_of_ne hdc] at hd
          exact ⟨chd, hd, hdone, rfl⟩
      rcases mem_insert hp with hold | ⟨hfree, rfl⟩
      · rw [← hkey]
        exact h d ch' hch' hdone' p hold
      · obtain ⟨halive, hkeys⟩ := hC ch hch hinserted hfree
        refine ⟨?_, hkey ▸ hkeys d ch' hch' hdone'⟩
        rintro rfl
        rw [hch] at hch'
        exact halive (Option.some.inj hch' ▸ hdone')
  | @leave c fresh ch hch hpc =>
      obtain ⟨hold, hne⟩ := mem_remove1.mp hp
      rw [setChannel_channels] at hd
      by_cases hdc : d = c
      · subst hdc
        rw [Function.update_self] at hd
        obtain rfl := Option.some.inj hd
        exact ⟨hne, hC ch hch hpc p hold hne⟩
      · rw [Function.update_of_ne hdc] at hd
        exact h d chd hd hdone p hold
  | @shrinks _ _ c ch' hinsert hleave hshrinks =>
      rw [hshrinks.after] at hd
      by_cases hdc : d = c
      · subst hdc
        rw [Function.update_self] at hd
        obtain rfl := Option.some.inj hd
        exact absurd hdone hshrinks.running
      · rw [Function.update_of_ne hdc] at hd
        exact h d chd hd hdone p (hshrinks.entries p hp)

/-- A step that leaves no dead entry meets the condition. -/
theorem insertsAlive_of_noDeadEntries (hstep : s.EntryStep label t) (h : t.NoDeadEntries) :
    s.InsertsAlive label := by
  cases hstep with
  | @insert c ch hch hinserted =>
      intro ch₁ hch₁ _ hfree
      obtain rfl : ch = ch₁ := Option.some.inj (hch.symm.trans hch₁)
      have hentry : (c, ch.sessionKey) ∈ s.controlChannels.insert c ch.sessionKey := by
        rw [insert_of_free hfree]
        exact List.mem_cons_self
      constructor
      · intro hdone
        exact (h c { ch with inserted := true } (by simp) hdone _ hentry).1 rfl
      · intro d ch' hd hdone heq
        by_cases hdc : d = c
        · subst hdc
          obtain rfl : ch = ch' := Option.some.inj (hch.symm.trans hd)
          exact (h d { ch with inserted := true } (by simp) hdone _ hentry).1 rfl
        · have hd' : (setChannel { s with
              controlChannels := s.controlChannels.insert c ch.sessionKey } c
              { ch with inserted := true }).channels d = some ch' := by
            rw [setChannel_channels, Function.update_of_ne hdc]
            exact hd
          exact (h d ch' hd' hdone _ hentry).2 heq
  | @leave c fresh ch hch hpc =>
      intro ch₁ hch₁ _ p hp hne
      obtain rfl : ch = ch₁ := Option.some.inj (hch.symm.trans hch₁)
      exact (h c { ch with pc := .done } (by simp) rfl p (mem_remove1.mpr ⟨hp, hne⟩)).2
  | @shrinks _ _ c ch' hinsert hleave hshrinks =>
      cases label with
      | insert d => exact absurd rfl (hinsert d)
      | advance d fresh =>
          intro ch hch hpc
          exact absurd hpc (hleave d fresh ch rfl hch)
      | spawn _ _ _ | report _ _ | container _ _ | written _ | exit _ => trivial

end

end Hub

/-- A run leaves no entry of a finished channel behind exactly when every handle is put in
while its channel runs and no two channels meet in a session key. -/
theorem noDeadEntries_iff_insertsAlive (parses : String → Bool)
    (bindings : HashMap NodeUuid String) (labels : List HubLabel) :
    (hub parses bindings).Always Hub.NoDeadEntries (.start bindings) labels ↔
      (hub parses bindings).Meets Hub.InsertsAlive (.start bindings) labels :=
  Machine.always_iff_meets
    (fun _ _ _ hI hC hstep => Hub.noDeadEntries_step hI hC (Hub.entryStep_of_step hstep))
    (fun _ hI => hI)
    (fun _ _ _ _ hstep hP => Hub.insertsAlive_of_noDeadEntries (Hub.entryStep_of_step hstep) hP)
    fun _ _ hch => by cases hch

/-- A connection that is lost before its handle is put in. -/
def lostBeforeInsert : List HubLabel :=
  [.spawn 0 (sampleDigest 0) (sampleDigest 1), .exit 0] ++ List.replicate 3 (.advance 0 "") ++
    [.insert 0]

theorem lostBeforeInsert_leaves_entry :
    ¬(hub (fun _ => true) ∅).Always Hub.NoDeadEntries (.start ∅) lostBeforeInsert := by
  intro h
  obtain ⟨s, hs⟩ : ∃ s, (hub (fun _ => true) ∅).run (.start ∅) lostBeforeInsert = some s :=
    Option.isSome_iff_exists.mp (by decide)
  have hfacts : ((hub (fun _ => true) ∅).run (.start ∅) lostBeforeInsert).map (fun s =>
      ((s.channels 0).map Channel.pc, s.controlChannels)) =
        some (some .done, [(0, sampleDigest 1)]) := by decide
  rw [hs] at hfacts
  simp only [Option.map_some, Option.some.injEq, Prod.mk.injEq] at hfacts
  obtain ⟨hpc, hentries⟩ := hfacts
  obtain ⟨ch, hch, hdone⟩ := Option.map_eq_some_iff.mp hpc
  refine ((h.last hs) 0 ch hch hdone (0, sampleDigest 1) ?_).1 rfl
  rw [hentries]
  exact List.mem_cons_self

end Kdct
