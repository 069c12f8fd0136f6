/-
The control connection as a stream of frames.

`roundTrips_iff` is about complete streams: what the writers of `Protocol` put
on a connection and its readers get back.  `controlLoops_handle_iff` is about
the two loops that read commands while other things happen, `ControlChannel::run`
in `crates/tunnel/src/server.rs` and in `crates/tunnel/src/client.rs`.  Both call
`read_control_cmd` anew in every turn of a `select!`, so a branch that completes
first drops the read together with the bytes it has taken.
-/
import Kdct.Bincode

namespace Kdct

variable (b : Bincode)

/-! ## Complete streams -/

def controlFormat : Format ControlChannelCmd := b.controlCmd.format fun _ => true

theorem roundTrips_of_short {α : Type} {serde : Serde α} {what : String}
    (h : ∀ a, (serde.serialize a).length < 2 ^ 16) (l : List α) :
    RoundTrips (fun a => writeLenPrefixed (serde.serialize a)) (readMessage serde what) l :=
  (roundTrips_iff_fits (readMessage_reads serde what) l).mpr fun a _ => ⟨rfl, h a⟩

theorem fits_controlFormat {cmd : ControlChannelCmd} :
    Framing.Fits (controlFormat b) cmd ↔ (b.controlCmd.serialize cmd).length ≤ 65535 := by
  show true = true ∧ _ < 2 ^ 16 ↔ _
  simp only [true_and]
  exact Nat.lt_succ_iff

theorem fits_hello {hello : Hello} :
    Framing.Fits (b.hello.format currentVersion) hello ↔
      hello.version = currentProtoVersion := by
  show (hello.version == currentProtoVersion) = true ∧ (b.hello.serialize hello).length < 2 ^ 16 ↔ _
  rw [b.hello_length, beq_iff_eq]
  exact and_iff_left (by decide)

/-- A list of commands round-trips exactly when the length of every
serialization is one that 16 bits can carry.  The other messages are all short
enough; a greeting is also rejected when it speaks another version. -/
theorem roundTrips_iff :
    (∀ l : List ControlChannelCmd, RoundTrips (writeControlCmd b) (readControlCmd b) l ↔
      ∀ cmd ∈ l, (b.controlCmd.serialize cmd).length ≤ 65535) ∧
    (∀ l : List Hello, RoundTrips (writeHello b) (readHello b) l ↔
      ∀ hello ∈ l, hello.version = currentProtoVersion) ∧
    (∀ l : List Auth, RoundTrips (writeAuth b) (readAuth b) l) ∧
    (∀ l : List Ack, RoundTrips (writeAck b) (readAck b) l) ∧
    (∀ l : List DataChannelCmd, RoundTrips (writeDataCmd b) (readDataCmd b) l) := by
  refine ⟨fun l => ?_, fun l => ?_, fun l => ?_, fun l => ?_, fun l => ?_⟩
  · rw [show (∀ cmd ∈ l, (b.controlCmd.serialize cmd).length ≤ 65535) ↔
      ∀ cmd ∈ l, Framing.Fits (controlFormat b) cmd by simp only [fits_controlFormat]]
    exact roundTrips_iff_fits (readMessage_reads b.controlCmd "control cmd") l
  · rw [show (∀ hello ∈ l, hello.version = currentProtoVersion) ↔
      ∀ hello ∈ l, Framing.Fits (b.hello.format currentVersion) hello by simp only [fits_hello]]
    exact roundTrips_iff_fits (readHello_reads b) l
  · exact roundTrips_of_short (fun a => by rw [b.auth_length]; decide) l
  · exact roundTrips_of_short (fun a => by rw [b.ack_length]; decide) l
  · exact roundTrips_of_short (fun a => Nat.lt_of_le_of_lt (b.dataCmd_length_le a) (by decide)) l

theorem ofList_replicate_length (n : Nat) :
    (String.ofList (List.replicate n 'x')).toByteArray.data.toList.length = n := by
  induction n with
  | zero => rfl
  | succ n ih =>
      rw [String.toByteArray_ofList] at ih ⊢
      rw [List.replicate_succ, List.utf8Encode_cons, ByteArray.data_append, Array.toList_append,
        List.length_append, ih]
      exact Nat.add_comm 1 n

/-- The client's answer to an image that failed to start, with `n` bytes of
error text. -/
def longError (n : Nat) : ControlChannelCmd :=
  .containerError "web" (String.ofList (List.replicate n 'x'))

theorem longError_length (n : Nat) :
    (bincode.controlCmd.serialize (longError n)).length = 23 + n := by
  show (ControlChannelCmd.codec.enc (longError n)).length = _
  rw [longError, ControlChannelCmd.codec_containerError_length, ofList_replicate_length]
  exact congrArg (· + n) rfl

/-- A frame whose prefix says less than its payload holds is cut short. -/
theorem roundTrips_longError_not :
    ¬RoundTrips (writeControlCmd bincode) (readControlCmd bincode) [longError 65536] := by
  intro h
  have hfits := (roundTrips_iff_fits (readMessage_reads bincode.controlCmd "control cmd") _).mp h
    _ (List.mem_singleton.mpr rfl)
  have hlen := (fits_controlFormat bincode).mp hfits
  rw [longError_length] at hlen
  omega

/-! ## The two receiving loops -/

/-- How writing a command to the peer ends. -/
inductive Written
  | ok
  | failed
  deriving DecidableEq

/-- What else completes in a turn of the server's `select!`.  The timer is
there only with an interval other than zero. -/
inductive ServerBranch (heartbeatInterval : Nat)
  | dataChReq (w : Written)
  | dataChReqClosed
  | heartbeat (w : Written) (guard : heartbeatInterval ≠ 0)
  | cmd (w : Written)
  | cmdClosed
  | shutdown
  /-- The connection ended: `read_control_cmd` itself returned an error. -/
  | readError

/-- The branches that break the server's loop. -/
def ServerBranch.breaks {heartbeatInterval : Nat} : ServerBranch heartbeatInterval → Bool
  | .dataChReq w => w == .failed
  | .dataChReqClosed => true
  | .heartbeat w _ => w == .failed
  | .cmd w => w == .failed
  | .cmdClosed => true
  | .shutdown => true
  | .readError => true

/-- What else completes in a turn of the client's `select!`.  A status that
cannot be written is only logged. -/
inductive ClientBranch (heartbeatTimeout : Nat)
  | statusInterval (w : Written)
  | heartbeatTimedOut (guard : heartbeatTimeout ≠ 0)
  | shutdown
  /-- The connection ended: `read_control_cmd` itself returned an error. -/
  | readError
  /-- The handler of `AssignNodeUuid` could not save the uuid. -/
  | saveFailed

def ClientBranch.breaks {heartbeatTimeout : Nat} : ClientBranch heartbeatTimeout → Bool
  | .statusInterval _ => false
  | .heartbeatTimedOut _ => true
  | .shutdown => true
  | .readError => true
  | .saveFailed => true

/-- The server's loop, fed by a client that calls `write_control_cmd`. -/
def serverLoop (heartbeatInterval : Nat) :
    Machine (Framing.Loop ControlChannelCmd)
      (Framing.Event ControlChannelCmd (ServerBranch heartbeatInterval)) :=
  Framing.loop (controlFormat b) ServerBranch.breaks

/-- The client's loop, fed by a server that calls `write_control_cmd`. -/
def clientLoop (heartbeatTimeout : Nat) :
    Machine (Framing.Loop ControlChannelCmd)
      (Framing.Event ControlChannelCmd (ClientBranch heartbeatTimeout)) :=
  Framing.loop (controlFormat b) ClientBranch.breaks

/-- No branch that keeps the loop going completes while `read_control_cmd` has
taken part of a frame. -/
def Undropped {β : Type} (breaks : β → Bool) (s : Framing.Loop ControlChannelCmd)
    (e : Framing.Event ControlChannelCmd β) : Prop :=
  ∀ branch, e = .branch branch → breaks branch = false → s.held = []

/-- Every command sent fits its length prefix, and no read that held bytes was
dropped. -/
def Intact {β : Type} (breaks : β → Bool)
    (es : List (Framing.Event ControlChannelCmd β)) (t : Framing.Loop ControlChannelCmd) : Prop :=
  (∀ cmd ∈ t.sent, (b.controlCmd.serialize cmd).length ≤ 65535) ∧
    (Framing.loop (controlFormat b) breaks).Meets (Undropped breaks) .start es

/-- The frame a read completes is handled as `read_control_cmd` reads it. -/
theorem readControlCmd_of_complete {held : Bytes} {cmd : ControlChannelCmd}
    (h : Framing.complete held = true) :
    readControlCmd b held = .ok (cmd, []) ↔
      (controlFormat b).deserialize (held.drop 2) = some cmd := by
  rw [← Framing.read_of_complete (controlFormat b) h]
  exact readMessage_reads b.controlCmd "control cmd" held cmd []

section Loops

variable {β : Type} {breaks : β → Bool} {es : List (Framing.Event ControlChannelCmd β)}
  {t : Framing.Loop ControlChannelCmd}

theorem loop_handled_prefix_sent
    (hr : (Framing.loop (controlFormat b) breaks).run .start es = some t)
    (h : Intact b breaks es t) : t.handled <+: t.sent := by
  have hfits : ∀ cmd ∈ t.sent, Framing.Fits (controlFormat b) cmd :=
    fun cmd hcmd => (fits_controlFormat b).mpr (h.1 cmd hcmd)
  exact Framing.handled_prefix_sent (controlFormat b)
    (Framing.inStep_run (controlFormat b) breaks hr h.2 hfits)

theorem loop_handled_eq_sent_iff
    (hr : (Framing.loop (controlFormat b) breaks).run .start es = some t) (hex : t.Exhausted) :
    t.handled = t.sent ↔ Intact b breaks es t := by
  unfold Intact
  simp only [← fits_controlFormat]
  exact Framing.handled_eq_sent_iff (controlFormat b) breaks hr hex

end Loops

/-- On both sides: when every command fits its length prefix and no other branch
completes in the middle of a frame, what is handled is always the front of what
was sent; and a loop with nothing left to read has handled exactly what was sent
if and only if that is so. -/
theorem controlLoops_handle_iff :
    (∀ heartbeatInterval es t, (serverLoop b heartbeatInterval).run .start es = some t →
      (Intact b ServerBranch.breaks es t → t.handled <+: t.sent) ∧
      (t.Exhausted → (t.handled = t.sent ↔ Intact b ServerBranch.breaks es t))) ∧
    (∀ heartbeatTimeout es t, (clientLoop b heartbeatTimeout).run .start es = some t →
      (Intact b ClientBranch.breaks es t → t.handled <+: t.sent) ∧
      (t.Exhausted → (t.handled = t.sent ↔ Intact b ClientBranch.breaks es t))) :=
  ⟨fun _ _ _ hr => ⟨loop_handled_prefix_sent b hr, loop_handled_eq_sent_iff b hr⟩,
    fun _ _ _ hr => ⟨loop_handled_prefix_sent b hr, loop_handled_eq_sent_iff b hr⟩⟩

/-- A heartbeat that the client reads in one go. -/
def wholeRun : List (Framing.Event ControlChannelCmd (ClientBranch 40)) :=
  [.send .heartBeat, .arrive 6, .read 2, .read 4, .branch (.statusInterval .ok)]

def wholeRunEnd : Framing.Loop ControlChannelCmd where
  sent := [.heartBeat]
  inFlight := []
  wire := []
  held := []
  handled := [.heartBeat]
  lost := 0
  status := .running

theorem controlLoops_handle_wholeRun : Intact bincode ClientBranch.breaks wholeRun wholeRunEnd :=
  (((controlLoops_handle_iff bincode).2 40 wholeRun wholeRunEnd (by decide)).2
    (.inr ⟨rfl, rfl⟩)).mp rfl

/-- A status tick completes after the client has read the first byte of a
heartbeat. -/
def splitRun : List (Framing.Event ControlChannelCmd (ClientBranch 40)) :=
  [.send .heartBeat, .arrive 1, .read 1, .branch (.statusInterval .ok), .arrive 5, .read 2,
    .read 3]

def splitRunEnd : Framing.Loop ControlChannelCmd where
  sent := [.heartBeat]
  inFlight := []
  wire := []
  held := [4, 1, 0, 0, 0]
  handled := []
  lost := 1
  status := .running

theorem clientLoop_splitRun_loses :
    (clientLoop bincode 40).run .start splitRun = some splitRunEnd ∧ splitRunEnd.Exhausted ∧
      splitRunEnd.handled ≠ splitRunEnd.sent :=
  ⟨by decide, .inr ⟨rfl, rfl⟩, nofun⟩

end Kdct
