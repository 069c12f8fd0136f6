/-
What a step of a control channel can do.

`Hub.Advance` says all that `advance` may do to a channel and to what channels share,
guards included.  Invariants are proved by cases on it and never unfold `advance`.
-/
import Kdct.ControlChannel

namespace Kdct
namespace Hub

inductive Advance (parses : String → Bool) (s : Hub) (c : ChannelId) (ch : Channel)
    (fresh : NodeUuid) : Hub → Prop
  | snapshot {status} (hpc : ch.pc = .snapshot status) :
      Advance parses s c ch fresh
        (s.setChannel c { ch with pc := .resolve status s.clients.keys })
  | known {status online u} (hpc : ch.pc = .resolve status online)
      (hnode : ch.nodeUuid = some u) :
      Advance parses s c ch fresh (s.setChannel c { ch with pc := .assign status (.accept u) })
  | resolve {status online resolved bindings} (hpc : ch.pc = .resolve status online)
      (hnode : ch.nodeUuid = none)
      (hresolve : resolveBinding s.bindings (hexEncode ch.serviceDigest.1) online
        (claimedUuid parses status.nodeUuid) fresh = (resolved, bindings)) :
      Advance parses s c ch fresh
        ({ s with bindings := bindings }.setChannel c { ch with pc := .assign status resolved })
  | accept {status u} (hpc : ch.pc = .assign status (.accept u)) :
      Advance parses s c ch fresh (s.setChannel c { ch with pc := .dropPrev status u })
  | assign {status u} (hpc : ch.pc = .assign status (.assignAndUse u)) :
      Advance parses s c ch fresh
        (s.setChannel c { ch with assigned := ch.assigned ++ [u], pc := .dropPrev status u })
  | keepPrev {status u} (hpc : ch.pc = .dropPrev status u)
      (hnode : ∀ prev, ch.nodeUuid = some prev → prev = u) :
      Advance parses s c ch fresh (s.setChannel c { ch with pc := .index status u })
  | dropPrev {status u prev} (hpc : ch.pc = .dropPrev status u) (hnode : ch.nodeUuid = some prev)
      (hne : prev ≠ u) :
      Advance parses s c ch fresh ((s.remove prev).setChannel c { ch with pc := .index status u })
  | index {status u} (hpc : ch.pc = .index status u) :
      Advance parses s c ch fresh
        (({ s with uuidIndex := s.uuidIndex.insert u c }.note (.claimed u c)).setChannel c
          { ch with pc := .evict status u (s.uuidIndex.lookup u) })
  | keep {status u prev} (hpc : ch.pc = .evict status u prev) (hprev : ∀ d ∈ prev, d = c) :
      Advance parses s c ch fresh (s.setChannel c { ch with pc := .upsert status u })
  | evict {status u prev} (hpc : ch.pc = .evict status u (some prev)) (hne : prev ≠ c) :
      Advance parses s c ch fresh
        ({ s with controlChannels := s.controlChannels.remove1 prev }.setChannel c
          { ch with pc := .upsert status u })
  | upsert {status u} (hpc : ch.pc = .upsert status u) :
      Advance parses s c ch fresh
        (((s.upsert c u status).note (.registered u c)).setChannel c
          { ch with pc := .identify status u })
  | identify {status u} (hpc : ch.pc = .identify status u) :
      Advance parses s c ch fresh
        (s.setChannel c
          { ch with nodeUuid := some u, nodeUuidSlot := some u, pc := .connected status u })
  | connected {status u} (hpc : ch.pc = .connected status u) :
      Advance parses s c ch fresh
        ((s.send c u (.connected (hexEncode ch.serviceDigest.1) status)).setChannel c
          { ch with hostname := some status.hostname, pc := .select })
  | unsent {report} (hpc : ch.pc = .update report)
      (hunsent : ch.nodeUuid = none ∨ ∃ name text, report = .error name text) :
      Advance parses s c ch fresh (s.setChannel c { ch with pc := .select })
  | sent {report u} (hpc : ch.pc = .update report) (hnode : ch.nodeUuid = some u)
      (hreport : ∀ name text, report ≠ .error name text) :
      Advance parses s c ch fresh
        ((s.send c u report.event).setChannel c { ch with pc := .select })
  | farewell {hostname u} (hpc : ch.pc = .shutdown) (hhostname : ch.hostname = some hostname)
      (hnode : ch.nodeUuid = some u) :
      Advance parses s c ch fresh
        ((s.send c u (.disconnected hostname)).setChannel c
          { ch with hostname := none, pc := .cleanup })
  | shutdown (hpc : ch.pc = .shutdown)
      (hnever : ∀ hostname u, ch.hostname = some hostname → ch.nodeUuid ≠ some u) :
      Advance parses s c ch fresh (s.setChannel c { ch with hostname := none, pc := .cleanup })
  | identified {u} (hpc : ch.pc = .cleanup) (hslot : ch.nodeUuidSlot = some u) :
      Advance parses s c ch fresh (s.setChannel c { ch with pc := .clearIndex u })
  | unidentified (hpc : ch.pc = .cleanup) (hslot : ch.nodeUuidSlot = none) :
      Advance parses s c ch fresh (s.setChannel c { ch with pc := .leave })
  | clearIndex {u} (hpc : ch.pc = .clearIndex u) (howns : s.uuidIndex.lookup u = some c) :
      Advance parses s c ch fresh
        ({ s with uuidIndex := s.uuidIndex.erase u }.setChannel c { ch with pc := .unregister u })
  | keepIndex {u} (hpc : ch.pc = .clearIndex u) (hother : s.uuidIndex.lookup u ≠ some c) :
      Advance parses s c ch fresh (s.setChannel c { ch with pc := .unregister u })
  | unregister {u} (hpc : ch.pc = .unregister u) :
      Advance parses s c ch fresh ((s.remove u).setChannel c { ch with pc := .leave })
  | leave (hpc : ch.pc = .leave) :
      Advance parses s c ch fresh
        ({ s with controlChannels := s.controlChannels.remove1 c }.setChannel c
          { ch with pc := .done })

theorem advance_cases {parses : String → Bool} {s t : Hub} {c : ChannelId} {ch : Channel}
    {fresh : NodeUuid} (h : s.advance parses c ch fresh = some t) :
    s.Advance parses c ch fresh t := by
  unfold advance at h
  cases hpc : ch.pc with
  | select | done => simp [hpc] at h
  | snapshot status =>
      simp only [hpc, Option.some.injEq] at h
      exact h ▸ .snapshot hpc
  | resolve status online =>
      simp only [hpc] at h
      split at h
      · rename_i hnode
        obtain rfl := Option.some.inj h
        exact .known hpc hnode
      · rename_i hnode
        obtain rfl := Option.some.inj h
        exact .resolve hpc hnode rfl
  | assign status r =>
      cases r with
      | accept u =>
          simp only [hpc, Option.some.injEq] at h
          exact h ▸ .accept hpc
      | assignAndUse u =>
          simp only [hpc, Option.some.injEq] at h
          exact h ▸ .assign hpc
  | dropPrev status u =>
      simp only [hpc] at h
      split at h
      · rename_i prev hnode
        obtain rfl := Option.some.inj h
        by_cases hne : prev = u
        · rw [if_neg (not_not.mpr hne)]
          refine .keepPrev hpc fun prev' hnode' => ?_
          rw [hnode] at hnode'
          exact Option.some.inj hnode' ▸ hne
        · rw [if_pos hne]
          exact .dropPrev hpc hnode hne
      · rename_i hnode
        obtain rfl := Option.some.inj h
        refine .keepPrev hpc fun prev hnode' => ?_
        cases hnode.symm.trans hnode'
  | index status u =>
      simp only [hpc, Option.some.injEq] at h
      exact h ▸ .index hpc
  | evict status u prev =>
      cases prev with
      | none =>
          simp only [hpc, Option.some.injEq] at h
          exact h ▸ .keep hpc fun _ hd => by cases hd
      | some prev =>
          simp only [hpc, Option.some.injEq] at h
          subst h
          by_cases hne : prev = c
          · rw [if_neg (not_not.mpr hne)]
            exact .keep hpc fun d hd => Option.some.inj hd ▸ hne
          · rw [if_pos hne]
            exact .evict hpc hne
  | upsert status u =>
      simp only [hpc, Option.some.injEq] at h
      exact h ▸ .upsert hpc
  | identify status u =>
      simp only [hpc, Option.some.injEq] at h
      exact h ▸ .identify hpc
  | connected status u =>
      simp only [hpc, Option.some.injEq] at h
      exact h ▸ .connected hpc
  | update report =>
      simp only [hpc] at h
      split at h
      · rename_i name text hnode
        obtain rfl := Option.some.inj h
        exact .unsent hpc (.inr ⟨name, text, rfl⟩)
      · rename_i u hnode hreport
        obtain rfl := Option.some.inj h
        exact .sent hpc hnode hreport
      · rename_i hnode
        obtain rfl := Option.some.inj h
        exact .unsent hpc (.inl hnode)
  | shutdown =>
      simp only [hpc] at h
      split at h
      · rename_i hostname u hhostname hnode
        obtain rfl := Option.some.inj h
        exact .farewell hpc hhostname hnode
      · rename_i hnever
        obtain rfl := Option.some.inj h
        exact .shutdown hpc hnever
  | cleanup =>
      simp only [hpc] at h
      split at h
      · rename_i hslot
        obtain rfl := Option.some.inj h
        exact .identified hpc hslot
      · rename_i hslot
        obtain rfl := Option.some.inj h
        exact .unidentified hpc hslot
  | clearIndex u =>
      simp only [hpc, Option.some.injEq] at h
      subst h
      split
      · rename_i howns
        exact .clearIndex hpc howns
      · rename_i hother
        exact .keepIndex hpc hother
  | unregister u =>
      simp only [hpc, Option.some.injEq] at h
      exact h ▸ .unregister hpc
  | leave =>
      simp only [hpc, Option.some.injEq] at h
      exact h ▸ .leave hpc

end Hub
end Kdct
