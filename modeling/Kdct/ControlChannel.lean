/-
Control channels and what they share (`crates/tunnel/src/server.rs`,
`crates/tunnel/src/registry.rs`, `crates/tunnel/src/node_update.rs`).

A channel is a task that handles one command at a time and waits at every lock
and every send.  `advance` takes it from one of these points to the next.
Between two of its steps any other channel may move, so a run is any
interleaving of the handshakes, the loops and the cleanups of all channels.

What a channel does for deployments, resolving the waiters in `pending_docker`
and requesting data channels, is in `Server`.
-/
import Kdct.Lib.Machine
import Kdct.Lib.HashMap
import Kdct.Protocol
import Kdct.Text

namespace Kdct

/-- The random id of a connection.  Ids are taken to be fresh. -/
abbrev ChannelId := Nat

abbrev NodeUuid := String

def hexDigit (n : Nat) : Char := "0123456789abcdef".toList.getD n '0'

/-- `hex::encode`. -/
def hexEncode (bs : Bytes) : String :=
  String.ofList (bs.flatMap fun b => [hexDigit (b.toNat / 16), hexDigit (b.toNat % 16)])

/-! ## The registry and the maps beside it -/

structure ClientEntry where
  nodeUuid : NodeUuid
  /-- The report the entry was made from: hostname, system and port range. -/
  status : NodeStatus
  /-- The channel that `cmd_tx`, `pending_docker`, `data_ch_req_tx` and
  `port_data_callbacks` belong to. -/
  channel : ChannelId
  deriving DecidableEq

inductive NodeEvent
  | connected (serviceDigest : String) (status : NodeStatus)
  | disconnected (hostname : String)
  | containerStarted (containerName : String) (ports : List UInt16)
  | containerStopped (containerName : String)
  | containerError (containerName : String) (error : String)
  deriving DecidableEq

/-- What a client says about a container of its own accord or when asked. -/
inductive ContainerReport
  | started (containerName : String) (ports : List UInt16)
  | stopped (containerName : String)
  | error (containerName : String) (text : String)
  deriving DecidableEq

def ContainerReport.event : ContainerReport → NodeEvent
  | .started name ports => .containerStarted name ports
  | .stopped name => .containerStopped name
  | .error name text => .containerError name text

structure NodeUpdate where
  uuid : NodeUuid
  event : NodeEvent
  deriving DecidableEq

/-- The keys of `control_channels`: channel id and session key. -/
abbrev ControlChannelMap := List (ChannelId × Digest)

namespace ControlChannelMap

/-- Insertion fails when either key is taken. -/
def insert (m : ControlChannelMap) (c : ChannelId) (sessionKey : Digest) : ControlChannelMap :=
  if m.any fun p => p.1 == c || p.2 == sessionKey then m else (c, sessionKey) :: m

def remove1 (m : ControlChannelMap) (c : ChannelId) : ControlChannelMap :=
  m.filter fun p => p.1 != c

def Contains (m : ControlChannelMap) (c : ChannelId) : Prop := ∃ sessionKey, (c, sessionKey) ∈ m

instance (m : ControlChannelMap) (c : ChannelId) : Decidable (m.Contains c) :=
  decidable_of_iff (∃ p ∈ m, p.1 = c)
    ⟨fun ⟨p, hp, hc⟩ => ⟨p.2, hc ▸ hp⟩, fun ⟨k, hk⟩ => ⟨(c, k), hk, rfl⟩⟩

theorem contains_insert {m : ControlChannelMap} {c d : ChannelId} {k : Digest}
    (h : Contains m c) : Contains (m.insert d k) c := by
  obtain ⟨key, hkey⟩ := h
  refine ⟨key, ?_⟩
  unfold insert
  split
  · exact hkey
  · exact List.mem_cons_of_mem _ hkey

theorem contains_remove1 {m : ControlChannelMap} {c d : ChannelId} (h : Contains m c)
    (hne : c ≠ d) : Contains (m.remove1 d) c := by
  obtain ⟨key, hkey⟩ := h
  exact ⟨key, List.mem_filter.mpr ⟨hkey, bne_iff_ne.mpr hne⟩⟩

end ControlChannelMap

/-! ## Resolving the identity of a channel -/

inductive Resolve
  | accept (uuid : NodeUuid)
  | assignAndUse (uuid : NodeUuid)
  deriving DecidableEq

def Resolve.uuid : Resolve → NodeUuid
  | .accept u => u
  | .assignAndUse u => u

/-- The uuid a report claims, if it claims one that parses. -/
def claimedUuid (parses : String → Bool) (nodeUuid : Option String) : Option NodeUuid :=
  nodeUuid.bind fun s =>
    let trimmed := trim s
    if trimmed.isEmpty then none
    else if parses trimmed then some trimmed else none

/-- What a channel without an identity resolves to, and the bindings afterwards.
`fresh` is the uuid `Uuid::new_v4` would generate. -/
def resolveBinding (bindings : HashMap NodeUuid String) (digestHex : String)
    (online : List NodeUuid) (claimed : Option NodeUuid) (fresh : NodeUuid) :
    Resolve × HashMap NodeUuid String :=
  match claimed with
  | some c =>
      match bindings.lookup c with
      | some d =>
          if d = digestHex then (.accept c, bindings)
          else (.assignAndUse fresh, bindings.insert fresh digestHex)
      | none => (.accept c, bindings.insert c digestHex)
  | none =>
      -- A lost file is recovered only when the digest owns one uuid, offline.
      match (bindings.entries.filter fun e => e.2 == digestHex).map Sigma.fst with
      | [only] =>
          if only ∈ online then (.assignAndUse fresh, bindings.insert fresh digestHex)
          else (.assignAndUse only, bindings)
      | _ => (.assignAndUse fresh, bindings.insert fresh digestHex)

/-! ## Channels -/

/-- Where a channel's task is. -/
inductive ChannelPc
  /-- Waiting in `select!`. -/
  | select
  /-- Handling a report: about to read the keys of the registry. -/
  | snapshot (status : NodeStatus)
  | resolve (status : NodeStatus) (online : List NodeUuid)
  | assign (status : NodeStatus) (resolved : Resolve)
  | dropPrev (status : NodeStatus) (uuid : NodeUuid)
  | index (status : NodeStatus) (uuid : NodeUuid)
  | evict (status : NodeStatus) (uuid : NodeUuid) (prev : Option ChannelId)
  | upsert (status : NodeStatus) (uuid : NodeUuid)
  | identify (status : NodeStatus) (uuid : NodeUuid)
  | connected (status : NodeStatus) (uuid : NodeUuid)
  /-- About to send the update for a container command. -/
  | update (report : ContainerReport)
  /-- The loop has ended. -/
  | shutdown
  /-- `run` has returned: about to read the slot. -/
  | cleanup
  | clearIndex (uuid : NodeUuid)
  | unregister (uuid : NodeUuid)
  | leave
  | done
  deriving DecidableEq

structure Channel where
  serviceDigest : Digest
  sessionKey : Digest
  /-- Whether the handshake has put the handle into `control_channels`. -/
  inserted : Bool
  hostname : Option String
  nodeUuid : Option NodeUuid
  nodeUuidSlot : Option NodeUuid
  /-- Uuids sent to the client and not yet written. -/
  assigned : List NodeUuid
  pc : ChannelPc
  deriving DecidableEq

def Channel.new (serviceDigest sessionKey : Digest) : Channel where
  serviceDigest := serviceDigest
  sessionKey := sessionKey
  inserted := false
  hostname := none
  nodeUuid := none
  nodeUuidSlot := none
  assigned := []
  pc := .select

def ChannelPc.InLoop : ChannelPc → Prop
  | .shutdown | .cleanup | .clearIndex _ | .unregister _ | .leave | .done => False
  | _ => True

instance (pc : ChannelPc) : Decidable pc.InLoop := by
  cases pc <;> unfold ChannelPc.InLoop <;> infer_instance

/-- What a run has done, newest first.  Only the updates exist in the program. -/
inductive Trace
  /-- The channel became `uuid_index[u]` for the first time. -/
  | claimed (u : NodeUuid) (c : ChannelId)
  /-- The channel was put into the registry for the first time. -/
  | registered (u : NodeUuid) (c : ChannelId)
  | update (c : ChannelId) (u : NodeUpdate)
  deriving DecidableEq

structure Hub where
  channels : ChannelId → Option Channel
  clients : HashMap NodeUuid ClientEntry
  bindings : HashMap NodeUuid String
  uuidIndex : HashMap NodeUuid ChannelId
  controlChannels : ControlChannelMap
  trace : List Trace

namespace Hub

def start (bindings : HashMap NodeUuid String) : Hub where
  channels := fun _ => none
  clients := ∅
  bindings := bindings
  uuidIndex := ∅
  controlChannels := []
  trace := []

def setChannel (s : Hub) (c : ChannelId) (ch : Channel) : Hub :=
  { s with channels := Function.update s.channels c (some ch) }

section setChannel

variable {s : Hub} {c : ChannelId} {ch : Channel}

@[simp] theorem setChannel_channels :
    (s.setChannel c ch).channels = Function.update s.channels c (some ch) := rfl
@[simp] theorem setChannel_clients : (s.setChannel c ch).clients = s.clients := rfl
@[simp] theorem setChannel_uuidIndex : (s.setChannel c ch).uuidIndex = s.uuidIndex := rfl
@[simp] theorem setChannel_controlChannels :
    (s.setChannel c ch).controlChannels = s.controlChannels := rfl
@[simp] theorem setChannel_trace : (s.setChannel c ch).trace = s.trace := rfl

end setChannel

/-- Note something in the trace unless it is there already. -/
def note (s : Hub) (e : Trace) : Hub :=
  if e ∈ s.trace then s else { s with trace := e :: s.trace }

/-- `node_update_tx.send`. -/
def send (s : Hub) (c : ChannelId) (uuid : NodeUuid) (event : NodeEvent) : Hub :=
  { s with trace := .update c ⟨uuid, event⟩ :: s.trace }

/-- `registry::upsert`. -/
def upsert (s : Hub) (c : ChannelId) (uuid : NodeUuid) (status : NodeStatus) : Hub :=
  { s with clients := s.clients.insert uuid { nodeUuid := uuid, status := status, channel := c } }

/-- `registry::remove`. -/
def remove (s : Hub) (uuid : NodeUuid) : Hub :=
  { s with clients := s.clients.erase uuid }

variable (parses : String → Bool)

/-- One step of the task of channel `c`, from where it waits to where it waits
next. -/
def advance (s : Hub) (c : ChannelId) (ch : Channel) (fresh : NodeUuid) : Option Hub :=
  let goto (t : Hub) (pc : ChannelPc) : Option Hub := some (t.setChannel c { ch with pc := pc })
  match ch.pc with
  | .select => none
  | .snapshot status => goto s (.resolve status s.clients.keys)
  | .resolve status online =>
      match ch.nodeUuid with
      | some existing => goto s (.assign status (.accept existing))
      | none =>
          let (resolved, bindings) := resolveBinding s.bindings (hexEncode ch.serviceDigest.1)
            online (claimedUuid parses status.nodeUuid) fresh
          goto { s with bindings := bindings } (.assign status resolved)
  | .assign status (.accept u) => goto s (.dropPrev status u)
  | .assign status (.assignAndUse u) =>
      some (s.setChannel c { ch with assigned := ch.assigned ++ [u], pc := .dropPrev status u })
  | .dropPrev status u =>
      match ch.nodeUuid with
      | some prev => goto (if prev ≠ u then s.remove prev else s) (.index status u)
      | none => goto s (.index status u)
  | .index status u =>
      let prev := s.uuidIndex.lookup u
      goto ({ s with uuidIndex := s.uuidIndex.insert u c }.note (.claimed u c))
        (.evict status u prev)
  | .evict status u none => goto s (.upsert status u)
  | .evict status u (some prev) =>
      goto (if prev ≠ c then { s with controlChannels := s.controlChannels.remove1 prev } else s)
        (.upsert status u)
  | .upsert status u => goto ((s.upsert c u status).note (.registered u c)) (.identify status u)
  | .identify status u =>
      some (s.setChannel c
        { ch with nodeUuid := some u, nodeUuidSlot := some u, pc := .connected status u })
  | .connected status u =>
      some ((s.send c u (.connected (hexEncode ch.serviceDigest.1) status)).setChannel c
        { ch with hostname := some status.hostname, pc := .select })
  | .update report =>
      match ch.nodeUuid, report with
      -- The send of a container error is never awaited.
      | some _, .error _ _ => goto s .select
      | some u, report => goto (s.send c u report.event) .select
      | none, _ => goto s .select
  | .shutdown =>
      match ch.hostname, ch.nodeUuid with
      | some hostname, some u =>
          some ((s.send c u (.disconnected hostname)).setChannel c
            { ch with hostname := none, pc := .cleanup })
      | _, _ => some (s.setChannel c { ch with hostname := none, pc := .cleanup })
  | .cleanup =>
      match ch.nodeUuidSlot with
      | some u => goto s (.clearIndex u)
      | none => goto s .leave
  | .clearIndex u =>
      goto (if s.uuidIndex.lookup u = some c then { s with uuidIndex := s.uuidIndex.erase u }
        else s)
        (.unregister u)
  | .unregister u => goto (s.remove u) .leave
  | .leave => goto { s with controlChannels := s.controlChannels.remove1 c } .done
  | .done => none

end Hub

inductive HubLabel
  /-- A handshake ends with `ControlChannelHandle::new`. -/
  | spawn (c : ChannelId) (serviceDigest sessionKey : Digest)
  /-- The handshake puts the handle into `control_channels`. -/
  | insert (c : ChannelId)
  | report (c : ChannelId) (status : NodeStatus)
  | container (c : ChannelId) (report : ContainerReport)
  /-- The task of the channel moves on; `fresh` is the next generated uuid. -/
  | advance (c : ChannelId) (fresh : NodeUuid)
  /-- Another branch of `select!` writes a command to the client. -/
  | written (c : ChannelId)
  /-- The loop breaks. -/
  | exit (c : ChannelId)
  deriving DecidableEq

def Hub.step (parses : String → Bool) (s : Hub) : HubLabel → Option Hub
  | .spawn c serviceDigest sessionKey =>
      match s.channels c with
      | some _ => none
      | none => some (s.setChannel c (.new serviceDigest sessionKey))
  | .insert c => (s.channels c).bind fun ch =>
      if ch.inserted then none
      else some ({ s with controlChannels := s.controlChannels.insert c ch.sessionKey }.setChannel c
        { ch with inserted := true })
  | .report c status => (s.channels c).bind fun ch =>
      if ch.pc = .select then some (s.setChannel c { ch with pc := .snapshot status }) else none
  | .container c report => (s.channels c).bind fun ch =>
      if ch.pc = .select then some (s.setChannel c { ch with pc := .update report }) else none
  | .advance c fresh => (s.channels c).bind fun ch => s.advance parses c ch fresh
  | .written c => (s.channels c).bind fun ch =>
      if ch.pc = .select then some (s.setChannel c { ch with assigned := ch.assigned.tail })
      else none
  | .exit c => (s.channels c).bind fun ch =>
      if ch.pc = .select then some (s.setChannel c { ch with pc := .shutdown }) else none

/-- The server's control channels, with the bindings loaded at startup. -/
def hub (parses : String → Bool) (bindings : HashMap NodeUuid String) : Machine Hub HubLabel where
  init := .start bindings
  step := Hub.step parses

end Kdct
