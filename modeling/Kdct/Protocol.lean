/-
The messages of the tunnel and their frames (`crates/tunnel/src/protocol.rs`).

The readers and writers take the serializer as a parameter.  `Bincode` lists
what they rely on: deserializing undoes serializing, and the messages without
strings or lists have the sizes their types give them.

The writers have no failing path of their own.  `bincode::serialize` runs
without a size limit and every sequence knows its length, and the length prefix
is a cast, so a writer always emits a frame.
-/
import Kdct.Lib.Framing

namespace Kdct

/-! ## Messages -/

def hashWidthInBytes : Nat := 32

abbrev ProtocolVersion := UInt8

def protoV1 : ProtocolVersion := 1

def currentProtoVersion : ProtocolVersion := protoV1

abbrev Digest := { bytes : Bytes // bytes.length = hashWidthInBytes }

structure ContainerInfo where
  containerName : String
  image : String
  ports : List UInt16
  status : String
  deriving DecidableEq, Repr

inductive Hello
  | controlChannelHello (version : ProtocolVersion) (digest : Digest)
  | dataChannelHello (version : ProtocolVersion) (digest : Digest)
  deriving DecidableEq

def Hello.version : Hello → ProtocolVersion
  | .controlChannelHello v _ => v
  | .dataChannelHello v _ => v

structure Auth where
  digest : Digest
  deriving DecidableEq

inductive Ack
  | ok
  | serviceNotExist
  | authFailed
  deriving DecidableEq, Repr

structure NodeStatus where
  nodeUuid : Option String
  hostname : String
  os : String
  arch : String
  dockerVersion : String
  portRangeStart : UInt16
  portRangeEnd : UInt16
  cpuCores : UInt32
  memoryMb : UInt64
  runningContainers : List ContainerInfo
  deriving DecidableEq, Repr

/-- What a client with nothing running reports. -/
def sampleStatus : NodeStatus where
  nodeUuid := some "u"
  hostname := "h"
  os := "linux"
  arch := "x86_64"
  dockerVersion := "27"
  portRangeStart := 40000
  portRangeEnd := 40010
  cpuCores := 4
  memoryMb := 8192
  runningContainers := []

structure ImageStart where
  imageTag : String
  source : String
  sourceType : String
  containerName : String
  portMap : List (UInt16 × UInt16)
  env : List (String × String)
  deriving DecidableEq, Repr

inductive ControlChannelCmd
  | createDataChannel
  | heartBeat
  | portsAssigned (mappings : List (UInt16 × UInt16))
  | reportNodeStatus (status : NodeStatus)
  | assignNodeUuid (uuid : String)
  | imageStart (start : ImageStart)
  | imageStop (containerName : String)
  | containerStarted (containerName : String) (ports : List UInt16)
  | containerStopped (containerName : String)
  | containerError (containerName : String) (error : String)
  deriving DecidableEq, Repr

inductive DataChannelCmd
  | startForwardTcp (port : Option UInt16)
  | startForwardUdp
  deriving DecidableEq, Repr

/-! ## What the readers and writers rely on of the serializer -/

structure Bincode where
  hello : Serde Hello
  auth : Serde Auth
  ack : Serde Ack
  controlCmd : Serde ControlChannelCmd
  dataCmd : Serde DataChannelCmd
  hello_length : ∀ hello', (hello.serialize hello').length = 37
  auth_length : ∀ auth', (auth.serialize auth').length = 32
  ack_length : ∀ ack', (ack.serialize ack').length = 4
  dataCmd_length_le : ∀ cmd, (dataCmd.serialize cmd).length ≤ 7

/-! ## Readers -/

inductive ReadError
  | lengthPrefix
  | body (len : Nat)
  | deserialize (what : String)
  | version (got : ProtocolVersion)
  deriving DecidableEq, Repr

/-- The outermost context of the error. -/
def ReadError.text : ReadError → String
  | .lengthPrefix => "Failed to read length prefix"
  | .body len => "Failed to read " ++ toString len ++ " bytes"
  | .deserialize what => "Failed to deserialize " ++ what
  | .version got =>
      "Protocol version mismatched. Expected " ++ toString currentProtoVersion ++ ", got " ++
        toString got ++ ". Please update the tunnel crate."

/-- Reads from a connection that holds `conn` and then ends. -/
def readLenPrefixed (conn : Bytes) : Except ReadError (Bytes × Bytes) :=
  match Codec.takeExact 2 conn with
  | none => .error .lengthPrefix
  | some (pre, conn) =>
      let len := Framing.announced pre
      match Codec.takeExact len conn with
      | none => .error (.body len)
      | some (buf, conn) => .ok (buf, conn)

variable {α : Type}

/-- The common part of the readers: a frame, deserialized. -/
def readMessage (serde : Serde α) (what : String) (conn : Bytes) :
    Except ReadError (α × Bytes) :=
  match readLenPrefixed conn with
  | .error e => .error e
  | .ok (buf, conn) =>
      match serde.deserialize buf with
      | none => .error (.deserialize what)
      | some a => .ok (a, conn)

variable (b : Bincode)

def readHello (conn : Bytes) : Except ReadError (Hello × Bytes) :=
  match readMessage b.hello "hello" conn with
  | .error e => .error e
  | .ok (hello, conn) =>
      if hello.version ≠ currentProtoVersion then .error (.version hello.version)
      else .ok (hello, conn)

def readAuth : Bytes → Except ReadError (Auth × Bytes) := readMessage b.auth "auth"

def readAck : Bytes → Except ReadError (Ack × Bytes) := readMessage b.ack "ack"

def readControlCmd : Bytes → Except ReadError (ControlChannelCmd × Bytes) :=
  readMessage b.controlCmd "control cmd"

def readDataCmd : Bytes → Except ReadError (DataChannelCmd × Bytes) :=
  readMessage b.dataCmd "data cmd"

/-! ## Writers -/

/-- The bytes a writer puts on the connection: the length, cast to 16 bits, and
the payload. -/
def writeLenPrefixed (payload : Bytes) : Bytes :=
  Framing.beU16 payload.length ++ payload

def writeHello (hello : Hello) : Bytes := writeLenPrefixed (b.hello.serialize hello)

def writeAuth (auth : Auth) : Bytes := writeLenPrefixed (b.auth.serialize auth)

def writeAck (ack : Ack) : Bytes := writeLenPrefixed (b.ack.serialize ack)

def writeControlCmd (cmd : ControlChannelCmd) : Bytes :=
  writeLenPrefixed (b.controlCmd.serialize cmd)

def writeDataCmd (cmd : DataChannelCmd) : Bytes := writeLenPrefixed (b.dataCmd.serialize cmd)

/-! ## Round trips -/

/-- The same reader `n` times in a row. -/
def readN (read : Bytes → Except ReadError (α × Bytes)) :
    Nat → Bytes → Except ReadError (List α × Bytes)
  | 0, conn => .ok ([], conn)
  | n + 1, conn =>
      match read conn with
      | .error e => .error e
      | .ok (a, conn) =>
          match readN read n conn with
          | .error e => .error e
          | .ok (as, conn) => .ok (a :: as, conn)

/-- Writing the messages one after the other and reading as many back gives the
list and leaves no byte over. -/
def RoundTrips (write : α → Bytes) (read : Bytes → Except ReadError (α × Bytes))
    (l : List α) : Prop :=
  readN read l.length (l.flatMap write) = .ok (l, [])

theorem readLenPrefixed_eq_ok {conn buf rest : Bytes} :
    readLenPrefixed conn = .ok (buf, rest) ↔ Framing.readFrame conn = some (buf, rest) := by
  unfold readLenPrefixed Framing.readFrame
  cases Codec.takeExact 2 conn with
  | none => simp
  | some p =>
      obtain ⟨pre, conn⟩ := p
      dsimp only
      rw [Option.bind_some]
      cases Codec.takeExact (Framing.announced pre) conn with
      | none => simp
      | some q => simp

theorem readMessage_eq_ok {serde : Serde α} {what : String} {conn rest : Bytes} {a : α} :
    readMessage serde what conn = .ok (a, rest) ↔
      ∃ buf, Framing.readFrame conn = some (buf, rest) ∧ serde.deserialize buf = some a := by
  unfold readMessage
  split
  · rename_i hread
    refine ⟨nofun, ?_⟩
    rintro ⟨buf, hframe, _⟩
    rw [readLenPrefixed_eq_ok.mpr hframe] at hread
    cases hread
  · rename_i buf conn' hread
    have hframe := readLenPrefixed_eq_ok.mp hread
    rw [hframe]
    split <;> rename_i hde <;> simp [hde]
    exact and_comm

/-- A reader that returns exactly what the framed read of a format returns. -/
def Reads (read : Bytes → Except ReadError (α × Bytes)) (F : Format α) : Prop :=
  ∀ conn a rest, read conn = .ok (a, rest) ↔ Framing.read F conn = some (a, rest)

theorem readMessage_reads (serde : Serde α) (what : String) :
    Reads (readMessage serde what) (serde.format fun _ => true) := by
  intro conn a rest
  rw [readMessage_eq_ok, Framing.read, Option.bind_eq_some_iff]
  simp only [Serde.format, if_true, Option.bind_fun_some, Option.map_eq_some_iff, Prod.exists,
    Prod.mk.injEq]
  constructor
  · rintro ⟨buf, hframe, hde⟩
    exact ⟨buf, rest, hframe, a, hde, rfl, rfl⟩
  · rintro ⟨buf, _, hframe, _, hde, rfl, rfl⟩
    exact ⟨buf, hframe, hde⟩

def currentVersion (hello : Hello) : Bool := hello.version == currentProtoVersion

theorem readHello_reads : Reads (readHello b) (b.hello.format currentVersion) := by
  intro conn a rest
  have hmsg : readHello b conn = .ok (a, rest) ↔
      readMessage b.hello "hello" conn = .ok (a, rest) ∧ a.version = currentProtoVersion := by
    unfold readHello
    split
    · rename_i hread
      simp [hread]
    · rename_i hello conn' hread
      rw [hread]
      split <;> rename_i hv <;> simp only [Except.ok.injEq, Prod.mk.injEq, reduceCtorEq]
      · refine ⟨nofun, ?_⟩
        rintro ⟨⟨rfl, _⟩, hcur⟩
        exact absurd hcur hv
      · refine ⟨fun h => ⟨h, h.1 ▸ of_not_not hv⟩, And.left⟩
  rw [hmsg, readMessage_eq_ok, Framing.read, Option.bind_eq_some_iff]
  simp only [Serde.format, currentVersion, Option.map_eq_some_iff, Prod.exists, Prod.mk.injEq,
    Option.bind_eq_some_iff, beq_iff_eq]
  constructor
  · rintro ⟨⟨buf, hframe, hde⟩, hv⟩
    exact ⟨buf, rest, hframe, a, ⟨a, hde, by simp [hv]⟩, rfl, rfl⟩
  · rintro ⟨buf, _, hframe, _, ⟨a', hde, ha⟩, rfl, rfl⟩
    split at ha
    · rename_i hv
      obtain rfl := Option.some.inj ha
      exact ⟨⟨buf, hframe, hde⟩, hv⟩
    · cases ha

theorem readN_eq_ok {read : Bytes → Except ReadError (α × Bytes)} {F : Format α}
    (hr : Reads read F) {n : Nat} {conn rest : Bytes} {l : List α} :
    readN read n conn = .ok (l, rest) ↔ Framing.readMany F n conn = some (l, rest) := by
  induction n generalizing conn l rest with
  | zero => simp [readN, Framing.readMany]
  | succ n ih =>
      unfold readN Framing.readMany
      cases hread : read conn with
      | error e =>
          have hnone : Framing.read F conn = none := by
            rw [Option.eq_none_iff_forall_ne_some]
            rintro ⟨a, rest'⟩ hsome
            rw [(hr conn a rest').mpr hsome] at hread
            cases hread
          simp [hnone]
      | ok p =>
          obtain ⟨a, conn'⟩ := p
          rw [(hr conn a conn').mp hread, Option.bind_some]
          dsimp only
          cases hrest : readN read n conn' with
          | error e =>
              have hnone : Framing.readMany F n conn' = none := by
                rw [Option.eq_none_iff_forall_ne_some]
                rintro ⟨as, rest'⟩ hsome
                rw [ih.mpr hsome] at hrest
                cases hrest
              simp [hnone]
          | ok q =>
              obtain ⟨as, rest'⟩ := q
              rw [ih.mp hrest]
              simp

/-- A list survives its writer and its reader exactly when every message of it
is one the reader lets through and fits a 16-bit length. -/
theorem roundTrips_iff_fits {read : Bytes → Except ReadError (α × Bytes)} {F : Format α}
    (hr : Reads read F) (l : List α) :
    RoundTrips (fun a => writeLenPrefixed (F.serialize a)) read l ↔
      ∀ a ∈ l, Framing.Fits F a := by
  rw [← Framing.readMany_iff F l, ← readN_eq_ok hr]
  rfl

end Kdct
