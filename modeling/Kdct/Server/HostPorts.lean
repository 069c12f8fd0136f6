/-
The client ports of the containers on a node.

A deploy numbers its client ports from the start of the node's range, whatever
else runs on the node.  The ports of two plans stay apart exactly when neither
plan starts among the ports of the other, and a node's ports are distinct while
that holds of the connections deployed on it.
-/
import Kdct.Server.Deployed
import Mathlib.Algebra.Order.BigOperators.Group.List

namespace Kdct

/-! ## The ports of one plan -/

namespace Plan

theorem assignPorts_fst (start : Port) (ports : List BridgePort) :
    (assignPorts start ports).map Prod.fst =
      (List.range ports.length).map fun i => start + UInt16.ofNat i := by
  induction ports generalizing start with
  | nil => rfl
  | cons p ps ih =>
      rw [assignPorts, List.map_cons, ih, List.length_cons, List.range_succ_eq_map, List.map_cons,
        List.map_map]
      congr 1
      · exact (UInt16.add_zero start).symm
      · refine List.map_congr_left fun i _ => ?_
        show start + 1 + UInt16.ofNat i = start + UInt16.ofNat (i + 1)
        rw [UInt16.ofNat_add, UInt16.add_comm (UInt16.ofNat i), ← UInt16.add_assoc]
        rfl

/-- Neither plan starts among the ports of the other. -/
def Apart (p q : Plan) : Prop :=
  p.ports.length ≤ (q.node.portRangeStart - p.node.portRangeStart).toNat ∧
    q.ports.length ≤ (p.node.portRangeStart - q.node.portRangeStart).toNat

instance (p q : Plan) : Decidable (p.Apart q) := inferInstanceAs (Decidable (_ ∧ _))

theorem Apart.symm {p q : Plan} (h : p.Apart q) : q.Apart p := ⟨h.2, h.1⟩

variable {p q : Plan}

theorem clientPorts_eq :
    p.clientPorts =
      (List.range p.ports.length).map fun i => p.node.portRangeStart + UInt16.ofNat i :=
  assignPorts_fst _ _

theorem clientPorts_nodup (h : p.ports.length ≤ 65536) : p.clientPorts.Nodup := by
  rw [clientPorts_eq]
  refine List.Nodup.map_on ?_ List.nodup_range
  intro i hi j hj hij
  have heq := congrArg UInt16.toNat ((UInt16.add_right_inj _).mp hij)
  rw [UInt16.toNat_ofNat', UInt16.toNat_ofNat'] at heq
  have hi := List.mem_range.mp hi
  have hj := List.mem_range.mp hj
  omega

theorem mem_clientPorts {x : Port} (h : x ∈ p.clientPorts) :
    (x - p.node.portRangeStart).toNat < p.ports.length := by
  rw [clientPorts_eq] at h
  obtain ⟨i, hi, rfl⟩ := List.mem_map.mp h
  rw [UInt16.add_comm, UInt16.add_sub_cancel, UInt16.toNat_ofNat']
  exact Nat.lt_of_le_of_lt (Nat.mod_le _ _) (List.mem_range.mp hi)

/-- The distance between two starts is the difference of the distances to a common
port, one way or the other. -/
theorem Apart.disjoint (h : p.Apart q) : List.Disjoint p.clientPorts q.clientPorts := by
  intro x hp hq
  have hxp := mem_clientPorts hp
  have hxq := mem_clientPorts hq
  obtain ⟨hpq, hqp⟩ := h
  rw [UInt16.toNat_sub] at hxp hxq hpq hqp
  have := x.toNat_lt
  have := p.node.portRangeStart.toNat_lt
  have := q.node.portRangeStart.toNat_lt
  omega

end Plan

/-! ## The ports of a node -/

/-- The plans of the connections deployed on a node. -/
def Shared.deployedOn (s : Shared) (nodeId : RowId) : List Plan :=
  s.db.connections.rows.filterMap fun c =>
    if c.status = .deployed then
      ((s.lastDeploy c.id).map Deploy.plan).filter fun plan => plan.node.id == nodeId
    else none

def ClientNode.rangeSize (n : ClientNode) : Nat :=
  n.portRangeEnd.toNat + 1 - n.portRangeStart.toNat

namespace Server

/-- On a node whose range is large enough for the connections deployed on it, their
client ports are distinct. -/
def HostPortsDistinct (s : Server) : Prop :=
  ∀ n ∈ s.shared.db.clientNodes.rows,
    ((s.shared.deployedOn n.id).map fun plan => plan.ports.length).sum ≤ n.rangeSize →
      ((s.shared.deployedOn n.id).flatMap Plan.clientPorts).Nodup

instance : DecidablePred HostPortsDistinct := fun s =>
  inferInstanceAs (Decidable (∀ n ∈ s.shared.db.clientNodes.rows, _ → _))

/-- A deploy that finishes stays apart from the other connections deployed on its
node. -/
def Spreading (s : Server) (label : Label) : Prop :=
  match s.movesDeploy label with
  | some (_, id, .finish d) =>
      label.fault = false → ∀ c ∈ s.shared.db.connections.rows, c.id ≠ id → c.status = .deployed →
        ∀ d' ∈ s.shared.lastDeploy c.id, d'.plan.node.id = d.plan.node.id → d.plan.Apart d'.plan
  | _ => True

instance (s : Server) (label : Label) : Decidable (s.Spreading label) := by
  unfold Spreading
  split <;> infer_instance

/-- The connections deployed on one node are apart. -/
structure HostInv (s : Server) : Prop where
  fresh : s.Fresh
  belongs : s.Belongs
  apart : ∀ c ∈ s.shared.db.connections.rows, ∀ c' ∈ s.shared.db.connections.rows, c.id ≠ c'.id →
    c.status = .deployed → c'.status = .deployed → ∀ d ∈ s.shared.lastDeploy c.id,
      ∀ d' ∈ s.shared.lastDeploy c'.id, d.plan.node.id = d'.plan.node.id → d.plan.Apart d'.plan

variable {ports : FreshPool} {localAddr : LocalAddr} {s s' : Server} {label : Label}

theorem hostInv_boot (ports : FreshPool) : (boot .empty ports).HostInv :=
  ⟨fresh_boot _ ports,
    fun _ _ _ h => (by cases h), fun _ hc => absurd hc List.not_mem_nil⟩

theorem hostInv_step (h : s.HostInv) (hC : s.Spreading label)
    (hstep : s.step ports localAddr label = some s') : s'.HostInv := by
  obtain ⟨hmove, hfresh⟩ := step_move h.fresh hstep
  refine ⟨hfresh, hmove.belongs h.belongs, ?_⟩
  rcases hmove.continues with ⟨hlast, hrows⟩ | ⟨call, id, d, hfault, hmoves, hpc, hdb, hlast⟩
  · intro c hc c' hc' hne hdep hdep' d hd d' hd' hnode
    obtain ⟨b, hb, hid, hold, _⟩ := hrows.rows c hc hdep
    obtain ⟨b', hb', hid', hold', _⟩ := hrows.rows c' hc' hdep'
    rw [hlast] at hd hd'
    exact h.apart b hb b' hb' (by rwa [hid, hid']) hold hold' d (by rwa [hid]) d'
      (by rwa [hid']) hnode
  · obtain ⟨_, hplan⟩ := h.belongs call id _ hpc
    unfold Spreading at hC
    rw [hmoves] at hC
    have hold : ∀ c ∈ s'.shared.db.connections.rows, c.id ≠ id →
        c ∈ s.shared.db.connections.rows := by
      intro c hc hne
      rcases Database.mem_updateConnectionNode hdb hc with ⟨_, hold⟩ | ⟨hid, _⟩
      · exact hold
      · exact absurd hid hne
    -- The plan of the connection that has just been deployed is the one that is checked.
    have hnew : ∀ c ∈ s'.shared.db.connections.rows, c.id ≠ id → c.status = .deployed →
        ∀ d' ∈ s'.shared.lastDeploy c.id, d'.plan.node.id = d.plan.node.id →
          d.plan.Apart d'.plan := by
      intro c hc hne hdep d' hd'
      rw [hlast, if_neg (by rw [hplan]; exact hne.symm)] at hd'
      exact hC hfault c (hold c hc hne) hne hdep d' hd'
    have hself : ∀ d' ∈ s'.shared.lastDeploy id, d' = d := by
      intro d' hd'
      rw [hlast, if_pos hplan] at hd'
      exact (Option.some.inj hd').symm
    intro c hc c' hc' hne hdep hdep' e he e' he' hnode
    by_cases hcid : c.id = id
    · rw [hcid] at he hne
      rw [hself e he] at hnode ⊢
      exact hnew c' hc' hne.symm hdep' e' he' hnode.symm
    · by_cases hcid' : c'.id = id
      · rw [hcid'] at he'
        rw [hself e' he'] at hnode ⊢
        exact (hnew c hc hcid hdep e he hnode).symm
      · rw [hlast, if_neg (by rw [hplan]; exact Ne.symm hcid)] at he
        rw [hlast, if_neg (by rw [hplan]; exact Ne.symm hcid')] at he'
        exact h.apart c (hold c hc hcid) c' (hold c' hc' hcid') hne hdep hdep' e he e' he' hnode

theorem HostInv.distinct (h : s.HostInv) : s.HostPortsDistinct := by
  intro n hn hfits
  rw [List.nodup_flatMap]
  constructor
  · intro plan hplan
    refine Plan.clientPorts_nodup ?_
    have hle : plan.ports.length ≤ n.rangeSize :=
      (List.single_le_sum (by simp) _ (List.mem_map_of_mem hplan)).trans hfits
    unfold ClientNode.rangeSize at hle
    have := n.portRangeEnd.toNat_lt
    omega
  · have hrows : s.shared.db.connections.rows.Pairwise fun c c' => c.id ≠ c'.id :=
      List.pairwise_map.mp s.shared.db.connections.nodup
    refine List.pairwise_filterMap.mpr (hrows.imp_of_mem fun {c c'} hc hc' hne p hp q hq => ?_)
    have hplan : ∀ {c : Connection} {p : Plan}, (if c.status = .deployed then
        ((s.shared.lastDeploy c.id).map Deploy.plan).filter fun plan => plan.node.id == n.id
        else none) = some p →
        c.status = .deployed ∧ ∃ d ∈ s.shared.lastDeploy c.id, d.plan = p ∧ p.node.id = n.id := by
      intro c p hp
      split at hp
      · rename_i hdep
        obtain ⟨hmap, hnode⟩ := Option.filter_eq_some_iff.mp hp
        obtain ⟨d, hd, rfl⟩ := Option.map_eq_some_iff.mp hmap
        exact ⟨hdep, d, hd, rfl, beq_iff_eq.mp hnode⟩
      · cases hp
    obtain ⟨hdep, d, hd, rfl, hnode⟩ := hplan hp
    obtain ⟨hdep', d', hd', rfl, hnode'⟩ := hplan hq
    exact (h.apart c hc c' hc' hne hdep hdep' d hd d' hd' (hnode.trans hnode'.symm)).disjoint

/-- In a run in which every deploy that finishes stays apart from the others on its
node, the client ports of a node are distinct. -/
theorem hostPortsDistinct_of_spreading (ports : FreshPool) (localAddr : LocalAddr)
    (labels : List Label)
    (h : (kdcts ports localAddr).Meets Spreading (.boot .empty ports) labels) :
    (kdcts ports localAddr).Always HostPortsDistinct (.boot .empty ports) labels := by
  have hinv : (kdcts ports localAddr).Always HostInv (.boot .empty ports) labels :=
    Machine.always_of_meets (fun _ _ _ hI hC hstep => hostInv_step hI hC hstep)
      (hostInv_boot ports) h
  exact hinv.mono fun _ hI => hI.distinct

end Server

/-- Two connections are deployed, the second one on the node with the given id. -/
def twoDeploys (nodeId : RowId) (ch : ChannelId) : List Label :=
  Label.connects "u" 0 ++ Label.connects "v" 1 ++ .loadImage "web" "nginx" "docker" ::
    Label.bridges "a" (samplePort 1 "/a") ++ Label.bridges "b" (samplePort 2 "/b") ++
    Label.creates "a" 1 1 ++ Label.deploys 0 0 (.containerStarted "kdct-a-1" [40000]) ++
    Label.creates "b" 2 nodeId ++ Label.deploys 1 ch (.containerStarted "kdct-b-2" [40000])

set_option maxRecDepth 4000 in
/-- Each on a node of its own. -/
theorem hostPortsDistinct_of_spreading_twoNodes :
    (kdcts samplePool fun _ => none).Always Server.HostPortsDistinct (.boot .empty samplePool)
      (twoDeploys 2 1) :=
  Server.hostPortsDistinct_of_spreading _ _ _ (by decide)

set_option maxRecDepth 4000 in
/-- Both on one node. -/
theorem twoDeploys_oneNode_clash :
    ¬(kdcts samplePool fun _ => none).Always Server.HostPortsDistinct (.boot .empty samplePool)
      (twoDeploys 1 0) := by
  decide

end Kdct
