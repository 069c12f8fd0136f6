/-
The text of a port range and the pool that is bound from it
(`crates/tunnel/src/port_pool.rs`).
-/
import Kdct.PortPool
import Kdct.Text
import Mathlib.Data.List.Nodup

namespace Kdct

inductive PoolError
  | invalidStart
  | invalidEnd
  | startAfterEnd (first last : Port)
  | invalidNumber
  | empty
  | inUse (port : Port)
  deriving DecidableEq

def PoolError.text (osError : String) : PoolError → String
  | .invalidStart => "Invalid port range start"
  | .invalidEnd => "Invalid port range end"
  | .startAfterEnd first last =>
      "Port range start " ++ toString first ++ " > end " ++ toString last
  | .invalidNumber => "Invalid port number"
  | .empty => "Port pool is empty"
  | .inUse port => "Port " ++ toString port ++ " is already in use: " ++ osError ++ ". Aborting."

/-- The first and the last port of one part of a range. -/
def partBounds (part : String) : Except PoolError (Port × Port) :=
  let chars := (trim part).toList
  if '-' ∈ chars then
    match parseU16 (trim (String.ofList (chars.takeWhile (· ≠ '-')))) with
    | none => .error .invalidStart
    | some first =>
        match parseU16 (trim (String.ofList (chars.dropWhile (· ≠ '-')).tail)) with
        | none => .error .invalidEnd
        | some last =>
            if first > last then .error (.startAfterEnd first last) else .ok (first, last)
  else
    match parseU16 (trim part) with
    | none => .error .invalidNumber
    | some port => .ok (port, port)

def portsBetween (first last : Port) : List Port :=
  (List.range (last.toNat + 1 - first.toNat)).map fun i => UInt16.ofNat (first.toNat + i)

/-- The loop over the parts. -/
def partPorts : List String → Except PoolError (List Port)
  | [] => .ok []
  | part :: parts => do
      let bounds ← partBounds part
      let rest ← partPorts parts
      return portsBetween bounds.1 bounds.2 ++ rest

def parsePortRange (spec : String) : Except PoolError (List Port) := partPorts (splitCommas spec)

/-- Whether a part of a range lists the port, by itself or between its bounds. -/
def Spans (part : String) (port : Port) : Prop :=
  ∃ bounds, partBounds part = .ok bounds ∧ bounds.1 ≤ port ∧ port ≤ bounds.2

theorem spans_iff {part : String} {port : Port} {bounds : Port × Port}
    (h : partBounds part = .ok bounds) :
    Spans part port ↔ bounds.1 ≤ port ∧ port ≤ bounds.2 := by
  refine ⟨?_, fun hp => ⟨bounds, h, hp⟩⟩
  rintro ⟨bounds', hbounds', hp⟩
  obtain rfl := Except.ok.inj (h.symm.trans hbounds')
  exact hp

theorem mem_portsBetween {first last port : Port} :
    port ∈ portsBetween first last ↔ first ≤ port ∧ port ≤ last := by
  unfold portsBetween
  rw [List.mem_map, UInt16.le_iff_toNat_le, UInt16.le_iff_toNat_le]
  constructor
  · rintro ⟨i, hi, rfl⟩
    rw [List.mem_range] at hi
    have hlast := last.toNat_lt
    rw [UInt16.toNat_ofNat_of_lt' (by show _ < 2 ^ 16; omega)]
    omega
  · rintro ⟨hfirst, hlast⟩
    refine ⟨port.toNat - first.toNat, by rw [List.mem_range]; omega, ?_⟩
    rw [Nat.add_sub_cancel' hfirst, UInt16.ofNat_toNat]

theorem portsBetween_nodup (first last : Port) : (portsBetween first last).Nodup := by
  refine List.nodup_range.map_on fun i hi j hj hij => ?_
  rw [List.mem_range] at hi hj
  have hlast := last.toNat_lt
  have hnat := congrArg UInt16.toNat hij
  rw [UInt16.toNat_ofNat_of_lt' (by show _ < 2 ^ 16; omega),
    UInt16.toNat_ofNat_of_lt' (by show _ < 2 ^ 16; omega)] at hnat
  omega

theorem partPorts_cons_eq_ok_iff {part : String} {parts : List String} {ports : List Port} :
    partPorts (part :: parts) = .ok ports ↔
      ∃ bounds rest, partBounds part = .ok bounds ∧ partPorts parts = .ok rest ∧
        ports = portsBetween bounds.1 bounds.2 ++ rest := by
  rw [partPorts]
  cases partBounds part with
  | error e => exact ⟨fun h => (by cases h), fun ⟨_, _, h, _⟩ => (by cases h)⟩
  | ok bounds =>
      cases partPorts parts with
      | error e => exact ⟨fun h => (by cases h), fun ⟨_, _, _, h, _⟩ => (by cases h)⟩
      | ok rest =>
          constructor
          · intro h
            exact ⟨bounds, rest, rfl, rfl, (Except.ok.inj h).symm⟩
          · rintro ⟨bounds', rest', hbounds, hrest, rfl⟩
            obtain rfl := Except.ok.inj hbounds
            obtain rfl := Except.ok.inj hrest
            rfl

theorem mem_partPorts {parts : List String} {ports : List Port} (h : partPorts parts = .ok ports)
    {port : Port} : port ∈ ports ↔ ∃ part ∈ parts, Spans part port := by
  induction parts generalizing ports with
  | nil =>
      obtain rfl := Except.ok.inj h
      simp
  | cons part parts ih =>
      obtain ⟨bounds, rest, hbounds, hrest, rfl⟩ := partPorts_cons_eq_ok_iff.mp h
      rw [List.mem_append, mem_portsBetween, ih hrest, List.exists_mem_cons_iff, spans_iff hbounds]

/-- The ports of a range are those its parts list. -/
theorem mem_parsePortRange {spec : String} {ports : List Port}
    (h : parsePortRange spec = .ok ports) {port : Port} :
    port ∈ ports ↔ ∃ part ∈ splitCommas spec, Spans part port :=
  mem_partPorts h

/-! ## Binding the ports -/

/-- The loop that binds the ports; `held` are the ports that other listeners hold. -/
def bindAll (held : List Port) : List Port → Except PoolError Unit
  | [] => .ok ()
  | port :: ports => if port ∈ held then .error (.inUse port) else bindAll (port :: held) ports

theorem bindAll_ok_iff {held ports : List Port} :
    bindAll held ports = .ok () ↔ ports.Nodup ∧ ∀ port ∈ ports, port ∉ held := by
  induction ports generalizing held with
  | nil => simp [bindAll]
  | cons port ports ih =>
      unfold bindAll
      rw [List.nodup_cons, List.forall_mem_cons]
      by_cases hheld : port ∈ held
      · rw [if_pos hheld]
        exact ⟨fun h => (by cases h), fun h => absurd hheld h.2.1⟩
      · rw [if_neg hheld, ih]
        constructor
        · rintro ⟨hnodup, hfree⟩
          refine ⟨⟨fun hmem => hfree port hmem List.mem_cons_self, hnodup⟩, hheld, ?_⟩
          exact fun q hq hin => hfree q hq (List.mem_cons_of_mem _ hin)
        · rintro ⟨⟨hnew, hnodup⟩, -, hfree⟩
          refine ⟨hnodup, fun q hq hin => ?_⟩
          rcases List.mem_cons.mp hin with rfl | hin
          · exact hnew hq
          · exact hfree q hq hin

/-- `PortPool::new`, up to the pool itself. -/
def FreshPool.bind (held : List Port) (spec : String) : Except PoolError FreshPool :=
  match parsePortRange spec with
  | .error e => .error e
  | .ok ports =>
      if hempty : ports = [] then .error .empty
      else
        match hbind : bindAll held ports with
        | .error e => .error e
        | .ok () => .ok ⟨ports, (bindAll_ok_iff.mp hbind).1, hempty⟩

theorem FreshPool.bind_ok {held : List Port} {spec : String} {pool : FreshPool}
    (h : FreshPool.bind held spec = .ok pool) : parsePortRange spec = .ok pool.ports := by
  unfold FreshPool.bind at h
  split at h
  · cases h
  · rename_i ports hparse
    split at h
    · cases h
    · split at h
      · cases h
      · obtain rfl := Except.ok.inj h
        exact hparse

theorem FreshPool.exists_bind {held : List Port} {spec : String} {ports : List Port}
    (hparse : parsePortRange spec = .ok ports) (hempty : ports ≠ []) (hnodup : ports.Nodup)
    (hfree : ∀ port ∈ ports, port ∉ held) :
    ∃ pool, FreshPool.bind held spec = .ok pool ∧ pool.ports = ports := by
  refine ⟨⟨ports, hnodup, hempty⟩, ?_, rfl⟩
  unfold FreshPool.bind
  rw [hparse]
  dsimp only
  rw [dif_neg hempty]
  split
  · rename_i e herror
    rw [bindAll_ok_iff.mpr ⟨hnodup, hfree⟩] at herror
    cases herror
  · rfl

end Kdct
