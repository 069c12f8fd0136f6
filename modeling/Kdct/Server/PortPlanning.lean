/-
The arithmetic of a deploy's ports (the capacity check, the running client port and
`docker_port_map` of `deploy_connection` in `crates/kdcts/src/deploy.rs`).

The size of the node's range, the number of ports and the container ports are cut to
16 bits.  `PlansExactly` says that nothing is lost by that; it holds exactly of the
plans whose numbers stay within 16 bits wherever they are used.
-/
import Kdct.Server.HostPorts

namespace Kdct

namespace Plan

variable (p : Plan)

/-- What the capacity check compares. -/
def available : Port :=
  UInt16.ofInt ((p.node.portRangeEnd.toNat : Int) - p.node.portRangeStart.toNat + 1)

def required : Port := UInt16.ofNat p.ports.length

def PassesCapacity : Prop := ¬p.available < p.required

instance : Decidable p.PassesCapacity := inferInstanceAs (Decidable (¬_))

/-- The loop of `assignPorts` where additions are checked. -/
def checkedPorts (clientPort : Port) : List BridgePort → Option (List (Port × Port))
  | [] => some []
  | q :: qs =>
      if clientPort.toNat + 1 < 65536 then
        (checkedPorts (clientPort + 1) qs).map ((clientPort, q.poolPort.getD 0) :: ·)
      else none

/-- The container ports that are sent. -/
def sentPorts : List Port := (p.imageStart []).portMap.map Prod.snd

/-- The capacity check counts, and a plan that passes it has its ports. -/
structure PlansExactly : Prop where
  capacity : p.PassesCapacity ↔ p.ports.length ≤ p.node.rangeSize
  overflow : p.PassesCapacity → (checkedPorts p.node.portRangeStart p.ports).isSome
  distinct : p.PassesCapacity → p.clientPorts.Nodup
  inside : p.PassesCapacity → ∀ port ∈ p.clientPorts,
    p.node.portRangeStart ≤ port ∧ port ≤ p.node.portRangeEnd
  containers : p.PassesCapacity →
    p.sentPorts.map (fun port => (port.toNat : Int)) = p.ports.map BridgePort.containerPort

/-- The ports fit below 65535 into a range that is not all there is, and have 16-bit
container ports; or they do not fit, and neither do the remainders. -/
def Within16Bits : Prop :=
  (p.ports.length ≤ p.node.rangeSize ∧ (p.ports ≠ [] → p.node.rangeSize ≠ 65536) ∧
      p.node.portRangeStart.toNat + p.ports.length < 65536 ∧
      ∀ q ∈ p.ports, 0 ≤ q.containerPort ∧ q.containerPort < 65536) ∨
    (p.node.rangeSize < p.ports.length ∧
      ((p.node.portRangeEnd.toNat : Int) - p.node.portRangeStart.toNat + 1) % 65536 <
        (p.ports.length : Int) % 65536)

instance : Decidable p.Within16Bits := inferInstanceAs (Decidable (_ ∨ _))

variable {p}

/-- The check is the one that `deploy_connection` makes. -/
theorem passesCapacity_iff {info : ConnectionInfo} {bridgeId : RowId} :
    p.PassesCapacity ↔
      Shared.planPorts info bridgeId p.node p.image p.ports ≠
        .error (.tooFewPorts p.node.hostname p.available p.required) := by
  unfold Shared.planPorts
  dsimp only
  split
  · rename_i hempty
    refine ⟨fun _ h => (by cases h), fun _ hlt => ?_⟩
    have hzero : p.required = 0 := by rw [required, List.isEmpty_iff.mp hempty]; rfl
    rw [hzero] at hlt
    exact absurd hlt (UInt16.not_lt.mpr (UInt16.zero_le))
  · split
    · rename_i hlt
      exact ⟨fun h => absurd hlt h, fun h => absurd rfl h⟩
    · rename_i hlt
      refine ⟨fun _ => ?_, fun _ => hlt⟩
      split <;> exact fun h => by cases h

theorem toNat_ofInt (n : Int) : ((UInt16.ofInt n).toNat : Int) = n % 65536 := by
  show ((UInt16.ofNat (n % 65536).toNat).toNat : Int) = _
  rw [UInt16.toNat_ofNat']
  omega

theorem passesCapacity_iff_le : p.PassesCapacity ↔ (p.ports.length : Int) % 65536 ≤
    ((p.node.portRangeEnd.toNat : Int) - p.node.portRangeStart.toNat + 1) % 65536 := by
  have havailable := toNat_ofInt
    ((p.node.portRangeEnd.toNat : Int) - p.node.portRangeStart.toNat + 1)
  have hrequired : p.required.toNat = p.ports.length % 65536 := UInt16.toNat_ofNat'
  rw [PassesCapacity, UInt16.not_lt, UInt16.le_iff_toNat_le, available, hrequired]
  omega

theorem checkedPorts_isSome {start : Port} {ports : List BridgePort} :
    (checkedPorts start ports).isSome ↔ start.toNat + ports.length < 65536 := by
  induction ports generalizing start with
  | nil => simpa [checkedPorts] using start.toNat_lt
  | cons q qs ih =>
      unfold checkedPorts
      split
      · rename_i hlt
        have hnext : (start + 1).toNat = start.toNat + 1 := by
          rw [UInt16.toNat_add]
          exact Nat.mod_eq_of_lt hlt
        rw [Option.isSome_map, ih, hnext, List.length_cons]
        omega
      · rename_i hge
        rw [List.length_cons]
        refine ⟨fun h => (by cases h), fun h => ?_⟩
        omega

/-- Where no addition overflows, the loop assigns what it would without the check. -/
theorem checkedPorts_eq {start : Port} {ports : List BridgePort} {pairs : List (Port × Port)}
    (h : checkedPorts start ports = some pairs) : pairs = assignPorts start ports := by
  induction ports generalizing start pairs with
  | nil => exact (Option.some.inj h).symm
  | cons q qs ih =>
      unfold checkedPorts at h
      split at h
      · obtain ⟨rest, hrest, rfl⟩ := Option.map_eq_some_iff.mp h
        rw [ih hrest]
        rfl
      · cases h

theorem clientPorts_inside (hlen : p.ports.length ≤ p.node.rangeSize) {port : Port}
    (hport : port ∈ p.clientPorts) :
    p.node.portRangeStart ≤ port ∧ port ≤ p.node.portRangeEnd := by
  rw [clientPorts_eq] at hport
  obtain ⟨i, hi, rfl⟩ := List.mem_map.mp hport
  have hi := List.mem_range.mp hi
  have hend := p.node.portRangeEnd.toNat_lt
  unfold ClientNode.rangeSize at hlen
  have hnat : (p.node.portRangeStart + UInt16.ofNat i).toNat = p.node.portRangeStart.toNat + i := by
    rw [UInt16.toNat_add, UInt16.toNat_ofNat']
    omega
  rw [UInt16.le_iff_toNat_le, UInt16.le_iff_toNat_le, hnat]
  omega

theorem sentPorts_eq :
    p.sentPorts = p.ports.map fun q => UInt16.ofInt q.containerPort := by
  unfold sentPorts imageStart
  refine List.map_snd_zip ?_
  rw [clientPorts_eq, List.length_map, List.length_map, List.length_range]

theorem sentPorts_exact :
    p.sentPorts.map (fun port => (port.toNat : Int)) = p.ports.map BridgePort.containerPort ↔
      ∀ q ∈ p.ports, 0 ≤ q.containerPort ∧ q.containerPort < 65536 := by
  rw [sentPorts_eq, List.map_map, List.map_inj_left]
  refine forall₂_congr fun q _ => ?_
  rw [Function.comp_apply, toNat_ofInt]
  omega

/-- The port arithmetic is exact exactly for the plans that stay within 16 bits. -/
theorem plansExactly_iff (p : Plan) : p.PlansExactly ↔ p.Within16Bits := by
  have hpasses := @passesCapacity_iff_le p
  have hstart := p.node.portRangeStart.toNat_lt
  have hend := p.node.portRangeEnd.toNat_lt
  have hempty : p.ports = [] ↔ p.ports.length = 0 := List.length_eq_zero_iff.symm
  constructor
  · intro h
    by_cases hpass : p.PassesCapacity
    · have hlen := h.capacity.mp hpass
      refine .inl ⟨hlen, fun hne hfull => ?_, checkedPorts_isSome.mp (h.overflow hpass),
        sentPorts_exact.mp (h.containers hpass)⟩
      have hsum := checkedPorts_isSome.mp (h.overflow hpass)
      rw [ne_eq, hempty] at hne
      rw [hpasses] at hpass
      unfold ClientNode.rangeSize at hfull
      omega
    · refine .inr ⟨Nat.lt_of_not_le fun hlen => hpass (h.capacity.mpr hlen), ?_⟩
      rw [hpasses] at hpass
      omega
  · rintro (⟨hlen, hfull, hsum, hcontainers⟩ | ⟨hlen, hlt⟩)
    · have hpass : p.PassesCapacity := by
        rw [hpasses]
        rw [ne_eq, hempty] at hfull
        unfold ClientNode.rangeSize at hlen hfull
        omega
      exact ⟨iff_of_true hpass hlen, fun _ => checkedPorts_isSome.mpr hsum,
        fun _ => clientPorts_nodup (by omega), fun _ _ => clientPorts_inside hlen,
        fun _ => sentPorts_exact.mpr hcontainers⟩
    · have hfails : ¬p.PassesCapacity := by
        rw [hpasses]
        omega
      exact ⟨iff_of_false hfails (Nat.not_le.mpr hlen), fun h => absurd h hfails,
        fun h => absurd h hfails, fun h => absurd h hfails, fun h => absurd h hfails⟩

end Plan

/-- A node that reports its range the wrong way round. -/
def invertedPlan : Plan where
  connectionId := 1
  connectionName := "a"
  bridgeId := 1
  node := { id := 1, hostname := "h", portRangeStart := 40000, portRangeEnd := 30000,
            status := .online, authDigest := none, nodeUuid := "u" }
  image := { id := 1, name := "web", source := "nginx", sourceType := "docker_hub" }
  ports := [{ id := 1, bridgeId := 1, containerPort := 80, mode := "route", routePath := some "/a",
              protocols := none, poolPort := some 20000 }]

/-- Its plan passes the capacity check of a range without a port. -/
theorem invertedPlan_passes : ¬invertedPlan.PlansExactly ∧ invertedPlan.PassesCapacity ∧
    invertedPlan.node.rangeSize = 0 := by
  have hpass : invertedPlan.PassesCapacity := by decide
  refine ⟨fun h => ?_, hpass, by decide⟩
  exact absurd (h.capacity.mp hpass) (by decide)

end Kdct
