/-
What a control channel tells the database.

Every command a client sends is heard by its channel, and the arms of the loop
send updates for some of them.  `listeners` is the server's channels together with
what each of them has heard.  Once `run` has returned, the updates of a channel are
the events of what it heard from its first report on and one disconnect, unless a
container error was heard in between: the update of an error is built and never sent.
-/
import Kdct.ControlChannel.Identity
import Mathlib.Data.List.TakeWhile

namespace Kdct

namespace ControlChannelCmd

/-- The event the arm of the command builds. -/
def event (digestHex : String) : ControlChannelCmd → Option NodeEvent
  | .reportNodeStatus status => some (.connected digestHex status)
  | .containerStarted name ports => some (.containerStarted name ports)
  | .containerStopped name => some (.containerStopped name)
  | .containerError name text => some (.containerError name text)
  | _ => none

def hostname? : ControlChannelCmd → Option String
  | .reportNodeStatus status => some status.hostname
  | _ => none

def isError : ControlChannelCmd → Bool
  | .containerError _ _ => true
  | _ => false

end ControlChannelCmd

open ControlChannelCmd

/-! ## What a client has said -/

/-- What was heard from the first report on. -/
def sinceReport (heard : List ControlChannelCmd) : List ControlChannelCmd :=
  heard.dropWhile fun cmd => cmd.hostname?.isNone

def lastHostname (heard : List ControlChannelCmd) : Option String :=
  (heard.filterMap hostname?).getLast?

/-- One disconnect, if there was a report. -/
def disconnects (heard : List ControlChannelCmd) : List NodeEvent :=
  (lastHostname heard).toList.map .disconnected

/-- The image of what was heard: an event for each status or container command once the
client has reported, and a disconnect at the end. -/
def eventImage (digestHex : String) (heard : List ControlChannelCmd) : List NodeEvent :=
  (sinceReport heard).filterMap (event digestHex) ++ disconnects heard

/-- The events that are sent: all but the container errors. -/
def sentEvents (digestHex : String) (heard : List ControlChannelCmd) : List NodeEvent :=
  ((sinceReport heard).filter fun cmd => !cmd.isError).filterMap (event digestHex)

section

variable {heard : List ControlChannelCmd} {cmd : ControlChannelCmd} {digestHex : String}

theorem lastHostname_append :
    lastHostname (heard ++ [cmd]) = cmd.hostname?.or (lastHostname heard) := by
  unfold lastHostname
  rw [List.filterMap_append, List.getLast?_append]
  cases cmd <;> rfl

theorem sinceReport_eq_nil_iff : sinceReport heard = [] ↔ lastHostname heard = none := by
  rw [sinceReport, lastHostname, List.dropWhile_eq_nil_iff, List.getLast?_eq_none_iff,
    List.filterMap_eq_nil_iff]
  simp only [Option.isNone_iff_eq_none]

/-- Before the first report only a report counts. -/
theorem sinceReport_append_of_none (h : lastHostname heard = none) :
    sinceReport (heard ++ [cmd]) = if cmd.hostname?.isNone then [] else [cmd] := by
  rw [sinceReport, List.dropWhile_append, ← sinceReport, sinceReport_eq_nil_iff.mpr h]
  cases cmd <;> rfl

theorem sinceReport_append_of_some (h : (lastHostname heard).isSome) :
    sinceReport (heard ++ [cmd]) = sinceReport heard ++ [cmd] := by
  have hne : sinceReport heard ≠ [] := by
    intro hnil
    rw [sinceReport_eq_nil_iff.mp hnil] at h
    cases h
  rw [sinceReport, List.dropWhile_append, ← sinceReport, if_neg (by simpa using hne)]

/-- A report is always told. -/
theorem sentEvents_append_report {status : NodeStatus} :
    sentEvents digestHex (heard ++ [.reportNodeStatus status]) =
      sentEvents digestHex heard ++ [.connected digestHex status] := by
  unfold sentEvents
  cases h : lastHostname heard with
  | none =>
      rw [sinceReport_append_of_none h, sinceReport_eq_nil_iff.mpr h]
      rfl
  | some name =>
      rw [sinceReport_append_of_some (by rw [h]; rfl), List.filter_append, List.filterMap_append]
      rfl

/-- Without a report nothing else is told. -/
theorem sentEvents_append_of_none (h : lastHostname heard = none) (hcmd : cmd.hostname? = none) :
    sentEvents digestHex (heard ++ [cmd]) = sentEvents digestHex heard := by
  rw [sentEvents, sentEvents, sinceReport_append_of_none h, sinceReport_eq_nil_iff.mpr h, hcmd]
  rfl

theorem sentEvents_append_of_some (h : (lastHostname heard).isSome) :
    sentEvents digestHex (heard ++ [cmd]) =
      sentEvents digestHex heard ++ if cmd.isError then [] else (cmd.event digestHex).toList := by
  rw [sentEvents, sentEvents, sinceReport_append_of_some h, List.filter_append,
    List.filterMap_append]
  cases cmd <;> rfl

end

/-! ## Channels and what they have heard -/

def ContainerReport.command : ContainerReport → ControlChannelCmd
  | .started name ports => .containerStarted name ports
  | .stopped name => .containerStopped name
  | .error name text => .containerError name text

/-- The command whose arm the loop is in. -/
def ChannelPc.handling : ChannelPc → Option ControlChannelCmd
  | .snapshot status | .resolve status _ | .assign status _ | .dropPrev status _
  | .index status _ | .evict status _ _ | .upsert status _ | .identify status _
  | .connected status _ => some (.reportNodeStatus status)
  | .update report => some report.command
  | _ => none

/-- Where the next step may change what the database knows of the channel. -/
def ChannelPc.speaks : ChannelPc → Bool
  | .connected .. | .shutdown => true
  | _ => false

/-- Whether `run` has returned. -/
def ChannelPc.returned : ChannelPc → Bool
  | .cleanup | .clearIndex _ | .unregister _ | .leave | .done => true
  | _ => false

namespace Hub

/-- The arms of the loop over the commands of the client. -/
def handle (parses : String → Bool) (s : Hub) (c : ChannelId) : ControlChannelCmd → Option Hub
  | .reportNodeStatus status => s.step parses (.report c status)
  | .containerStarted name ports => s.step parses (.container c (.started name ports))
  | .containerStopped name => s.step parses (.container c (.stopped name))
  | .containerError name text => s.step parses (.container c (.error name text))
  | _ => (s.channels c).bind fun ch => if ch.pc = .select then some s else none

/-- The updates of a channel, oldest first. -/
def delivered (s : Hub) (c : ChannelId) : List NodeUpdate :=
  s.trace.reverse.filterMap fun e =>
    match e with
    | .update d v => if d = c then some v else none
    | _ => none

theorem delivered_setChannel (s : Hub) (c d : ChannelId) (ch : Channel) :
    (s.setChannel c ch).delivered d = s.delivered d := rfl

theorem delivered_send (s : Hub) (c d : ChannelId) (uuid : NodeUuid) (event : NodeEvent) :
    (s.send c uuid event).delivered d =
      s.delivered d ++ if c = d then [⟨uuid, event⟩] else [] := by
  unfold delivered send
  rw [List.reverse_cons, List.filterMap_append]
  by_cases h : c = d <;> simp [h]

theorem delivered_note_claimed (s : Hub) (c d : ChannelId) (u : NodeUuid) :
    (s.note (.claimed u c)).delivered d = s.delivered d := by
  unfold note
  split
  · rfl
  · unfold delivered
    rw [List.reverse_cons, List.filterMap_append]
    simp

theorem delivered_note_registered (s : Hub) (c d : ChannelId) (u : NodeUuid) :
    (s.note (.registered u c)).delivered d = s.delivered d := by
  unfold note
  split
  · rfl
  · unfold delivered
    rw [List.reverse_cons, List.filterMap_append]
    simp

end Hub

structure Listener where
  hub : Hub
  heard : ChannelId → List ControlChannelCmd

inductive ListenerLabel
  /-- The client of a channel sends a command. -/
  | command (c : ChannelId) (cmd : ControlChannelCmd)
  | hub (label : HubLabel)
  deriving DecidableEq

namespace Listener

def start (bindings : HashMap NodeUuid String) : Listener where
  hub := .start bindings
  heard := fun _ => []

def step (parses : String → Bool) (s : Listener) : ListenerLabel → Option Listener
  | .command c cmd =>
      (s.hub.handle parses c cmd).map fun hub =>
        { hub := hub, heard := Function.update s.heard c (s.heard c ++ [cmd]) }
  | .hub (.report ..) | .hub (.container ..) => none
  | .hub label => (s.hub.step parses label).map fun hub => { s with hub := hub }

end Listener

/-- The server's control channels and their clients. -/
def listeners (parses : String → Bool) (bindings : HashMap NodeUuid String) :
    Machine Listener ListenerLabel where
  init := .start bindings
  step := Listener.step parses

/-! ## What has been told so far -/

/-- What the arm of a container command sends. -/
def Channel.tells (ch : Channel) (report : ContainerReport) : List NodeUpdate :=
  match ch.nodeUuid, report with
  | some _, .error _ _ => []
  | some u, report => [⟨u, report.event⟩]
  | none, _ => []

/-- What the end of the loop sends. -/
def Channel.farewell (ch : Channel) : List NodeUpdate :=
  match ch.hostname, ch.nodeUuid with
  | some hostname, some u => [⟨u, .disconnected hostname⟩]
  | _, _ => []

/-- How far a channel is that has dealt with all of `heard`. -/
structure Progress (ch : Channel) (heard : List ControlChannelCmd) (vs : List NodeUpdate) :
    Prop where
  uuids : ∀ v ∈ vs, ch.nodeUuid = some v.uuid
  known : (lastHostname heard).isSome → ch.nodeUuid.isSome
  named : (∀ status u, ch.pc ≠ .connected status u) → ch.nodeUuid.isSome →
    (lastHostname heard).isSome
  hostname : ch.pc.returned = false → ch.hostname = lastHostname heard
  events : vs.map NodeUpdate.event =
    sentEvents ch.digestHex heard ++ if ch.pc.returned then disconnects heard else []

/-- A channel has told of all it has heard but the command it is handling. -/
def Told (ch : Channel) (heard : List ControlChannelCmd) (vs : List NodeUpdate) : Prop :=
  ∃ before, heard = before ++ ch.pc.handling.toList ∧ Progress ch before vs

section

variable {ch ch' : Channel} {heard : List ControlChannelCmd} {vs : List NodeUpdate}

/-- A move that tells nothing and learns nothing. -/
theorem Told.quiet (h : Told ch heard vs) (hdigest : ch'.serviceDigest = ch.serviceDigest)
    (hnode : ch'.nodeUuid = ch.nodeUuid) (hhostname : ch'.hostname = ch.hostname)
    (hhandling : ch'.pc.handling = ch.pc.handling) (hreturned : ch'.pc.returned = ch.pc.returned)
    (hconnected : ∀ status u, ch.pc ≠ .connected status u) : Told ch' heard vs := by
  obtain ⟨before, hheard, hp⟩ := h
  refine ⟨before, by rw [hhandling]; exact hheard, ?_⟩
  exact
    { uuids := fun v hv => hnode.trans (hp.uuids v hv)
      known := fun hl => by rw [hnode]; exact hp.known hl
      named := fun _ hn => hp.named hconnected (hnode ▸ hn)
      hostname := fun hr => hhostname.trans (hp.hostname (hreturned ▸ hr))
      events := by rw [hreturned, Channel.digestHex, hdigest]; exact hp.events }

/-- A command comes in. -/
theorem Told.command {cmd : ControlChannelCmd} {pc : ChannelPc} (h : Told ch heard vs)
    (hpc : ch.pc = .select) (hhandling : pc.handling = some cmd) (hreturned : pc.returned = false) :
    Told { ch with pc := pc } (heard ++ [cmd]) vs := by
  obtain ⟨before, hheard, hp⟩ := h
  have hbefore : heard = before := by rw [hheard, hpc]; exact List.append_nil before
  refine ⟨heard, by rw [hhandling]; rfl, ?_⟩
  rw [hbefore]
  have hloop : ch.pc.returned = false := by rw [hpc]; rfl
  exact
    { uuids := hp.uuids
      known := hp.known
      named := fun _ hn => hp.named (fun _ _ heq => by rw [hpc] at heq; cases heq) hn
      hostname := fun _ => hp.hostname hloop
      events := by
        show _ = sentEvents ch.digestHex before ++ if pc.returned then _ else _
        rw [hreturned, hp.events, hloop] }

/-- A command without an arm of its own. -/
theorem Told.ignored {cmd : ControlChannelCmd} (h : Told ch heard vs) (hpc : ch.pc = .select)
    (hname : cmd.hostname? = none) (hevent : ∀ digestHex, cmd.event digestHex = none) :
    Told ch (heard ++ [cmd]) vs := by
  obtain ⟨before, hheard, hp⟩ := h
  have hbefore : heard = before := by rw [hheard, hpc]; exact List.append_nil before
  have hlast : lastHostname (before ++ [cmd]) = lastHostname before := by
    rw [lastHostname_append, hname]
    rfl
  have hsent : sentEvents ch.digestHex (before ++ [cmd]) = sentEvents ch.digestHex before := by
    cases hl : lastHostname before with
    | none => exact sentEvents_append_of_none hl hname
    | some name =>
        rw [sentEvents_append_of_some (by rw [hl]; rfl), hevent]
        split <;> exact List.append_nil _
  refine ⟨before ++ [cmd], by rw [hbefore, hpc]; exact (List.append_nil _).symm, ?_⟩
  exact
    { uuids := hp.uuids
      known := by rw [hlast]; exact hp.known
      named := by rw [hlast]; exact hp.named
      hostname := by rw [hlast]; exact hp.hostname
      events := by rw [hsent, disconnects, hlast]; exact hp.events }

/-- The channel becomes known. -/
theorem Told.identify {status : NodeStatus} {u : NodeUuid} (h : Told ch heard vs)
    (hsound : ch.Sound) (hpc : ch.pc = .identify status u) :
    Told { ch with nodeUuid := some u, nodeUuidSlot := some u, pc := .connected status u }
      heard vs := by
  obtain ⟨before, hheard, hp⟩ := h
  refine ⟨before, by rw [hheard, hpc]; rfl, ?_⟩
  have hreturned : ch.pc.returned = false := by rw [hpc]; rfl
  exact
    { uuids := fun v hv => by
        have hu : u = v.uuid := hsound.stable u v.uuid (by rw [hpc]; rfl) (hp.uuids v hv)
        exact congrArg some hu
      known := fun _ => rfl
      named := fun hne => absurd rfl (hne status u)
      hostname := fun _ => hp.hostname hreturned
      events := by
        have hevents := hp.events
        rw [hreturned] at hevents
        exact hevents }

/-- The end of a report. -/
theorem Told.connected {status : NodeStatus} {u : NodeUuid} (h : Told ch heard vs)
    (hsound : ch.Sound) (hpc : ch.pc = .connected status u) :
    Told { ch with hostname := some status.hostname, pc := .select } heard
      (vs ++ [⟨u, .connected ch.digestHex status⟩]) := by
  obtain ⟨before, hheard, hp⟩ := h
  have hnode : ch.nodeUuid = some u := hsound.connected status u hpc
  have hreturned : ch.pc.returned = false := by rw [hpc]; rfl
  have hreport : heard = before ++ [.reportNodeStatus status] := by rw [hheard, hpc]; rfl
  have hlast : lastHostname heard = some status.hostname := by
    rw [hreport, lastHostname_append]
    rfl
  refine ⟨heard, (List.append_nil heard).symm, ?_⟩
  exact
    { uuids := fun v hv => by
        rcases List.mem_append.mp hv with hold | hnew
        · exact hp.uuids v hold
        · rw [List.mem_singleton.mp hnew]
          exact hnode
      known := fun _ => by
        show ch.nodeUuid.isSome = true
        rw [hnode]
        rfl
      named := fun _ _ => by rw [hlast]; rfl
      hostname := fun _ => hlast.symm
      events := by
        rw [List.map_append, hp.events, hreturned, hreport, sentEvents_append_report]
        simp [Channel.digestHex, ChannelPc.returned] }

theorem mem_tells {report : ContainerReport} {v : NodeUpdate} (hv : v ∈ ch.tells report) :
    ch.nodeUuid = some v.uuid := by
  unfold Channel.tells at hv
  split at hv
  · cases hv
  · rename_i u report' hnode _
    rw [List.mem_singleton.mp hv]
    exact hnode
  · cases hv

theorem mem_farewell {v : NodeUpdate} (hv : v ∈ ch.farewell) : ch.nodeUuid = some v.uuid := by
  unfold Channel.farewell at hv
  split at hv
  · rename_i hnode
    rw [List.mem_singleton.mp hv]
    exact hnode
  · cases hv

theorem tells_event {report : ContainerReport} (digestHex : String) :
    (ch.tells report).map NodeUpdate.event =
      if ch.nodeUuid.isSome ∧ report.command.isError = false then
        (report.command.event digestHex).toList
      else [] := by
  unfold Channel.tells
  cases ch.nodeUuid with
  | none => rfl
  | some u => cases report <;> rfl

/-- The end of a container command: the update is sent unless the channel is unknown or
the command is an error. -/
theorem Told.update {report : ContainerReport} (h : Told ch heard vs)
    (hpc : ch.pc = .update report) :
    Told { ch with pc := .select } heard (vs ++ ch.tells report) := by
  obtain ⟨before, hheard, hp⟩ := h
  have hreturned : ch.pc.returned = false := by rw [hpc]; rfl
  have hcommand : heard = before ++ [report.command] := by rw [hheard, hpc]; rfl
  have hname : report.command.hostname? = none := by cases report <;> rfl
  have hlast : lastHostname heard = lastHostname before := by
    rw [hcommand, lastHostname_append, hname]
    rfl
  have hnamed : ch.nodeUuid.isSome → (lastHostname before).isSome :=
    hp.named fun _ _ heq => by rw [hpc] at heq; cases heq
  have hevents : vs.map NodeUpdate.event = sentEvents ch.digestHex before := by
    simpa [hreturned] using hp.events
  have hsent : (vs ++ ch.tells report).map NodeUpdate.event = sentEvents ch.digestHex heard := by
    rw [List.map_append, hevents, tells_event ch.digestHex, hcommand]
    by_cases hnode : ch.nodeUuid.isSome = true
    · rw [sentEvents_append_of_some (hnamed hnode)]
      cases report.command.isError <;> simp [hnode]
    · have hnone : lastHostname before = none := by
        by_contra hne
        exact hnode (hp.known (Option.isSome_iff_ne_none.mpr hne))
      rw [sentEvents_append_of_none hnone hname, if_neg fun hand => hnode hand.1]
      exact List.append_nil _
  refine ⟨heard, (List.append_nil heard).symm, ?_⟩
  exact
    { uuids := fun v hv => (List.mem_append.mp hv).elim (hp.uuids v) mem_tells
      known := by rw [hlast]; exact hp.known
      named := fun _ hn => by rw [hlast]; exact hnamed hn
      hostname := fun _ => by rw [hlast]; exact hp.hostname hreturned
      events := hsent.trans (List.append_nil _).symm }

/-- The loop has ended. -/
theorem Told.shutdown (h : Told ch heard vs) (hpc : ch.pc = .shutdown) :
    Told { ch with hostname := none, pc := .cleanup } heard (vs ++ ch.farewell) := by
  obtain ⟨before, hheard, hp⟩ := h
  have hreturned : ch.pc.returned = false := by rw [hpc]; rfl
  obtain rfl : heard = before := by rw [hheard, hpc]; exact List.append_nil before
  have hhostname : ch.hostname = lastHostname heard := hp.hostname hreturned
  have hevents : vs.map NodeUpdate.event = sentEvents ch.digestHex heard := by
    simpa [hreturned] using hp.events
  have hfarewell : ch.farewell.map NodeUpdate.event = disconnects heard := by
    unfold Channel.farewell disconnects
    rw [hhostname]
    cases hl : lastHostname heard with
    | none => rfl
    | some hostname =>
        obtain ⟨u, hu⟩ := Option.isSome_iff_exists.mp (hp.known (by rw [hl]; rfl))
        rw [hu]
        rfl
  refine ⟨heard, (List.append_nil heard).symm, ?_⟩
  exact
    { uuids := fun v hv => (List.mem_append.mp hv).elim (hp.uuids v) mem_farewell
      known := hp.known
      named := fun _ hn => hp.named (fun _ _ heq => by rw [hpc] at heq; cases heq) hn
      hostname := fun hr => by cases hr
      events := by
        rw [List.map_append, hevents, hfarewell]
        rfl }

end

/-! ## What a step tells -/

namespace Hub

/-- A step of one channel that tells what it has to. -/
structure Turn (s t : Hub) (c : ChannelId) (ch ch' : Channel) : Prop where
  after : t.channels = Function.update s.channels c (some ch')
  others : ∀ d, d ≠ c → t.delivered d = s.delivered d
  told : ∀ heard, Told ch heard (s.delivered c) → Told ch' heard (t.delivered c)
  digest : ch'.serviceDigest = ch.serviceDigest
  returned : ch'.pc.returned = true ↔ ch.pc.returned = true ∨ ch.pc = .shutdown

section

variable {parses : String → Bool} {s t : Hub} {c : ChannelId} {ch ch' : Channel}
  {label : HubLabel} {fresh : NodeUuid}

/-- A step that sends nothing. -/
theorem turn_quiet {pc : ChannelPc} (hpc : ch.pc = pc) (hsilent : pc.speaks = false)
    (hchannels : t.channels = s.channels) (hdelivered : ∀ d, t.delivered d = s.delivered d)
    (hdigest : ch'.serviceDigest = ch.serviceDigest) (hnode : ch'.nodeUuid = ch.nodeUuid)
    (hhostname : ch'.hostname = ch.hostname) (hhandling : ch'.pc.handling = pc.handling)
    (hreturned : ch'.pc.returned = pc.returned) : s.Turn (t.setChannel c ch') c ch ch' := by
  subst hpc
  have hconnected : ∀ status u, ch.pc ≠ .connected status u := by
    intro status u heq
    rw [heq] at hsilent
    cases hsilent
  have hshutdown : ch.pc ≠ .shutdown := by
    intro heq
    rw [heq] at hsilent
    cases hsilent
  exact
    { after := by rw [setChannel_channels, hchannels]
      others := fun d _ => (delivered_setChannel t c d ch').trans (hdelivered d)
      told := fun heard h => by
        rw [delivered_setChannel, hdelivered]
        exact h.quiet hdigest hnode hhostname hhandling hreturned hconnected
      digest := hdigest
      returned := by
        rw [hreturned]
        exact ⟨.inl, fun h => h.resolve_right hshutdown⟩ }

/-- A step that sends updates of its channel. -/
theorem turn_send {vs : List NodeUpdate} (hchannels : t.channels = s.channels)
    (hdelivered : ∀ d, t.delivered d = s.delivered d ++ if c = d then vs else [])
    (htold : ∀ heard, Told ch heard (s.delivered c) → Told ch' heard (s.delivered c ++ vs))
    (hdigest : ch'.serviceDigest = ch.serviceDigest)
    (hreturned : ch'.pc.returned = true ↔ ch.pc.returned = true ∨ ch.pc = .shutdown) :
    s.Turn (t.setChannel c ch') c ch ch' where
  after := by rw [setChannel_channels, hchannels]
  others := fun d hd => by
    rw [delivered_setChannel, hdelivered, if_neg (Ne.symm hd)]
    exact List.append_nil _
  told := fun heard h => by
    rw [delivered_setChannel, hdelivered, if_pos rfl]
    exact htold heard h
  digest := hdigest
  returned := hreturned

theorem delivered_self (d : ChannelId) :
    s.delivered d = s.delivered d ++ if c = d then [] else [] := by
  split <;> exact (List.append_nil _).symm

theorem turn_advance (hsound : ch.Sound) (h : s.advance parses c ch fresh = some t) :
    ∃ ch', s.Turn t c ch ch' := by
  have hsame : ∀ d, s.delivered d = s.delivered d := fun _ => rfl
  have hselect : ∀ {report}, ch.pc = .update report →
      (ChannelPc.select.returned = true ↔ ch.pc.returned = true ∨ ch.pc = .shutdown) := by
    intro report hpc
    rw [hpc]
    simp [ChannelPc.returned]
  have hcleanup : ch.pc = .shutdown →
      (ChannelPc.cleanup.returned = true ↔ ch.pc.returned = true ∨ ch.pc = .shutdown) := by
    intro hpc
    rw [hpc]
    simp [ChannelPc.returned]
  cases advance_cases h with
  | index hpc =>
      exact ⟨_, turn_quiet hpc rfl note_channels (fun d => delivered_note_claimed _ c d _) rfl rfl
        rfl rfl rfl⟩
  | upsert hpc =>
      exact ⟨_, turn_quiet hpc rfl note_channels (fun d => delivered_note_registered _ c d _) rfl
        rfl rfl rfl rfl⟩
  | identify hpc =>
      refine ⟨_, turn_send rfl delivered_self (fun heard ht => ?_) rfl
        (by rw [hpc]; simp [ChannelPc.returned])⟩
      rw [List.append_nil]
      exact ht.identify hsound hpc
  | connected hpc =>
      exact ⟨_, turn_send rfl (fun d => delivered_send s c d _ _)
        (fun heard ht => ht.connected hsound hpc) rfl (by rw [hpc]; simp [ChannelPc.returned])⟩
  | @unsent report hpc hunsent =>
      have htells : ch.tells report = [] := by
        unfold Channel.tells
        rcases hunsent with hnode | ⟨name, text, rfl⟩
        · rw [hnode]
        · cases ch.nodeUuid <;> rfl
      refine ⟨_, turn_send rfl delivered_self (fun heard ht => ?_) rfl (hselect hpc)⟩
      exact htells ▸ ht.update hpc
  | @sent report u hpc hnode hreport =>
      have htells : ch.tells report = [⟨u, report.event⟩] := by
        unfold Channel.tells
        rw [hnode]
        cases report with
        | started name ports | stopped name => rfl
        | error name text => exact absurd rfl (hreport name text)
      refine ⟨_, turn_send rfl (fun d => delivered_send s c d _ _) (fun heard ht => ?_) rfl
        (hselect hpc)⟩
      exact htells ▸ ht.update hpc
  | @farewell hostname u hpc hhostname hnode =>
      have hfarewell : ch.farewell = [⟨u, .disconnected hostname⟩] := by
        rw [Channel.farewell, hhostname, hnode]
      refine ⟨_, turn_send rfl (fun d => delivered_send s c d _ _) (fun heard ht => ?_) rfl
        (hcleanup hpc)⟩
      exact hfarewell ▸ ht.shutdown hpc
  | shutdown hpc hnever =>
      have hfarewell : ch.farewell = [] := by
        unfold Channel.farewell
        split
        · rename_i hostname u hhostname hnode
          exact absurd hnode (hnever hostname u hhostname)
        · rfl
      refine ⟨_, turn_send rfl delivered_self (fun heard ht => ?_) rfl (hcleanup hpc)⟩
      exact hfarewell ▸ ht.shutdown hpc
  | snapshot hpc | known hpc | resolve hpc | accept hpc | assign hpc | keepPrev hpc | dropPrev hpc
  | keep hpc | evict hpc | identified hpc | unidentified hpc | clearIndex hpc | keepIndex hpc
  | unregister hpc | leave hpc =>
      exact ⟨_, turn_quiet hpc rfl rfl hsame rfl rfl rfl rfl rfl⟩

end

end Hub

/-! ## The image of a channel that has ended -/

/-- Nothing is missing among the sent events exactly when no error was heard. -/
theorem sent_eq_iff {digestHex : String} (heard : List ControlChannelCmd) :
    (heard.filter fun cmd => !cmd.isError).filterMap (event digestHex) =
      heard.filterMap (event digestHex) ↔ ∀ cmd ∈ heard, cmd.isError = false := by
  constructor
  · intro h
    induction heard with
    | nil => exact fun cmd hcmd => absurd hcmd List.not_mem_nil
    | cons cmd rest ih =>
        cases herror : cmd.isError with
        | true =>
            obtain ⟨e, he⟩ : ∃ e, cmd.event digestHex = some e := by
              cases cmd <;> first | exact ⟨_, rfl⟩ | cases herror
            rw [List.filter_cons, herror, List.filterMap_cons_some he] at h
            have hle := (List.filter_sublist (l := rest) (p := fun cmd => !cmd.isError)).filterMap
              (event digestHex)
            have hlen := hle.length_le
            simp only [Bool.not_true, Bool.false_eq_true, if_false] at h
            rw [h, List.length_cons] at hlen
            omega
        | false =>
            rw [List.filter_cons, herror, List.filterMap_cons] at h
            simp only [Bool.not_false, if_true, List.filterMap_cons] at h
            have htail : (rest.filter fun cmd => !cmd.isError).filterMap (event digestHex) =
                rest.filterMap (event digestHex) := by
              cases he : cmd.event digestHex with
              | none =>
                  rw [he] at h
                  exact h
              | some e =>
                  rw [he] at h
                  exact (List.cons.inj h).2
            exact List.forall_mem_cons.mpr ⟨herror, ih htail⟩
  · intro h
    rw [List.filter_eq_self.mpr fun cmd hcmd => by rw [h cmd hcmd]; rfl]

namespace Listener

/-- The updates of a channel are the image of what it heard, under its own uuid. -/
def Faithful (s : Listener) (c : ChannelId) (ch : Channel) : Prop :=
  (s.hub.delivered c).map NodeUpdate.event = eventImage ch.digestHex (s.heard c) ∧
    ∀ v ∈ s.hub.delivered c, ch.nodeUuid = some v.uuid

/-- Every channel whose loop has returned has told the database what it heard. -/
def AllFaithful (s : Listener) : Prop :=
  ∀ c ch, s.hub.channels c = some ch → ch.pc.returned = true → s.Faithful c ch

/-- A loop that returns has heard no container error since its first report. -/
def ErrorFree (s : Listener) : ListenerLabel → Prop
  | .hub (.advance c _) => ∀ ch ∈ s.hub.channels c, ch.pc = .shutdown →
      ∀ cmd ∈ sinceReport (s.heard c), cmd.isError = false
  | _ => True

theorem faithful_iff {s : Listener} {c : ChannelId} {ch : Channel}
    (h : Told ch (s.heard c) (s.hub.delivered c)) (hreturned : ch.pc.returned = true) :
    s.Faithful c ch ↔ ∀ cmd ∈ sinceReport (s.heard c), cmd.isError = false := by
  obtain ⟨before, hheard, hp⟩ := h
  have hall : s.heard c = before := by
    rw [hheard]
    have hnone : ch.pc.handling = none := by
      cases hpc : ch.pc <;> rw [hpc] at hreturned <;> first | rfl | cases hreturned
    rw [hnone]
    exact List.append_nil before
  have hevents := hp.events
  rw [hreturned, if_pos rfl, ← hall] at hevents
  unfold Faithful
  rw [hevents, sentEvents, eventImage, List.append_left_inj, sent_eq_iff]
  exact and_iff_left hp.uuids

/-! ## The steps of channels and clients -/

/-- What a step does to the channel it is a step of. -/
inductive Step (s : Listener) : ListenerLabel → Listener → Prop
  | spawn {c : ChannelId} {serviceDigest sessionKey : Digest}
      (hnew : s.hub.channels c = none) :
      Step s (.hub (.spawn c serviceDigest sessionKey))
        { s with hub := s.hub.setChannel c (.new serviceDigest sessionKey) }
  | turn {label : ListenerLabel} {t : Listener} {c : ChannelId} {ch ch' : Channel}
      (hch : s.hub.channels c = some ch)
      (hafter : t.hub.channels = Function.update s.hub.channels c (some ch'))
      (hothers : ∀ d, d ≠ c → t.hub.delivered d = s.hub.delivered d ∧ t.heard d = s.heard d)
      (htold : Told ch (s.heard c) (s.hub.delivered c) →
        Told ch' (t.heard c) (t.hub.delivered c))
      (hheard : ch.pc ≠ .select → t.heard c = s.heard c)
      (hactor : ∀ d fresh, label = .hub (.advance d fresh) → d = c)
      (hreturned : ch'.pc.returned = true ↔ ch.pc.returned = true ∨
        ch.pc = .shutdown ∧ ∃ fresh, label = .hub (.advance c fresh)) :
      Step s label t

structure Inv (s : Listener) : Prop where
  sound : ∀ c ch, s.hub.channels c = some ch → ch.Sound
  told : ∀ c ch, s.hub.channels c = some ch → Told ch (s.heard c) (s.hub.delivered c)
  silent : ∀ c, s.hub.channels c = none → s.heard c = [] ∧ s.hub.delivered c = []

section

variable {parses : String → Bool} {s t : Listener} {label : ListenerLabel} {c : ChannelId}

/-- A command that starts an arm with an event. -/
theorem step_arm {cmd : ControlChannelCmd} {pc : ChannelPc} {ch : Channel}
    (hch : s.hub.channels c = some ch) (hpc : ch.pc = .select) (hhandling : pc.handling = some cmd)
    (hreturned : pc.returned = false) :
    s.Step (.command c cmd)
      { hub := s.hub.setChannel c { ch with pc := pc }
        heard := Function.update s.heard c (s.heard c ++ [cmd]) } := by
  refine .turn hch rfl (fun d hd => ⟨rfl, Function.update_of_ne hd _ _⟩) (fun ht => ?_)
    (fun hne => absurd hpc hne) (fun _ _ heq => by cases heq) ?_
  · show Told _ (Function.update s.heard c (s.heard c ++ [cmd]) c) (s.hub.delivered c)
    rw [Function.update_self]
    exact ht.command hpc hhandling hreturned
  · rw [hpc]
    show pc.returned = true ↔ _
    rw [hreturned]
    simp [ChannelPc.returned]

/-- A command without an arm of its own. -/
theorem step_ignored {cmd : ControlChannelCmd} {ch : Channel} (hch : s.hub.channels c = some ch)
    (hpc : ch.pc = .select) (hname : cmd.hostname? = none)
    (hevent : ∀ digestHex, cmd.event digestHex = none) :
    s.Step (.command c cmd) { s with heard := Function.update s.heard c (s.heard c ++ [cmd]) } := by
  refine .turn hch (Function.update_eq_self_iff.mpr hch.symm).symm
    (fun d hd => ⟨rfl, Function.update_of_ne hd _ _⟩) (fun ht => ?_) (fun hne => absurd hpc hne)
    (fun _ _ heq => by cases heq) ?_
  · show Told _ (Function.update s.heard c (s.heard c ++ [cmd]) c) (s.hub.delivered c)
    rw [Function.update_self]
    exact ht.ignored hpc hname hevent
  · rw [hpc]
    simp

theorem step_command {cmd : ControlChannelCmd} (h : s.step parses (.command c cmd) = some t) :
    s.Step (.command c cmd) t := by
  obtain ⟨hub, hhub, rfl⟩ := Option.map_eq_some_iff.mp h
  cases cmd with
  | reportNodeStatus status =>
      obtain ⟨ch, hch, hhub⟩ := Option.bind_eq_some_iff.mp hhub
      split at hhub
      · rename_i hpc
        obtain rfl := Option.some.inj hhub
        exact step_arm hch hpc rfl rfl
      · cases hhub
  | containerStarted name ports | containerStopped name | containerError name text =>
      obtain ⟨ch, hch, hhub⟩ := Option.bind_eq_some_iff.mp hhub
      split at hhub
      · rename_i hpc
        obtain rfl := Option.some.inj hhub
        exact step_arm hch hpc rfl rfl
      · cases hhub
  | createDataChannel | heartBeat | portsAssigned _ | assignNodeUuid _ | imageStart _
  | imageStop _ =>
      obtain ⟨ch, hch, hhub⟩ := Option.bind_eq_some_iff.mp hhub
      split at hhub
      · rename_i hpc
        obtain rfl := Option.some.inj hhub
        exact step_ignored hch hpc rfl fun _ => rfl
      · cases hhub

/-- A move of one channel that neither hears nor tells anything. -/
theorem step_still {ch ch' : Channel} {hub : Hub} (hch : s.hub.channels c = some ch)
    (hafter : hub.channels = Function.update s.hub.channels c (some ch'))
    (hdelivered : ∀ d, hub.delivered d = s.hub.delivered d)
    (hdigest : ch'.serviceDigest = ch.serviceDigest) (hnode : ch'.nodeUuid = ch.nodeUuid)
    (hhostname : ch'.hostname = ch.hostname) (hpc : ch'.pc = ch.pc ∨
      ch.pc = .select ∧ ch'.pc = .shutdown) (hlabel : ∀ d fresh, label ≠ .hub (.advance d fresh)) :
    s.Step label { s with hub := hub } := by
  have hreturned : ch'.pc.returned = ch.pc.returned := by
    rcases hpc with hpc | ⟨hselect, hshutdown⟩
    · rw [hpc]
    · rw [hselect, hshutdown]
      rfl
  refine .turn hch hafter (fun d _ => ⟨hdelivered d, rfl⟩) (fun ht => ?_) (fun _ => rfl)
    (fun d fresh heq => absurd heq (hlabel d fresh)) ?_
  · rw [hdelivered]
    obtain ⟨before, hheard, hp⟩ := ht
    refine ⟨before, ?_, ?_⟩
    · rcases hpc with hpc | ⟨hselect, hshutdown⟩
      · rw [hpc]
        exact hheard
      · rw [hshutdown, hheard, hselect]
        rfl
    · exact
        { uuids := fun v hv => hnode.trans (hp.uuids v hv)
          known := fun hl => by rw [hnode]; exact hp.known hl
          named := fun hne hn => hp.named (fun status u heq => by
            rcases hpc with hpc | ⟨hselect, _⟩
            · exact hne status u (hpc.trans heq)
            · rw [hselect] at heq
              cases heq) (hnode ▸ hn)
          hostname := fun hr => hhostname.trans (hp.hostname (hreturned ▸ hr))
          events := by rw [hreturned, Channel.digestHex, hdigest]; exact hp.events }
  · rw [hreturned]
    refine ⟨.inl, fun h => h.resolve_right ?_⟩
    rintro ⟨-, fresh, hadvance⟩
    exact hlabel c fresh hadvance

theorem step_cases (hs : s.Inv) (h : s.step parses label = some t) : s.Step label t := by
  cases label with
  | command c cmd => exact step_command h
  | hub label =>
      cases label with
      | report c status => cases h
      | container c report => cases h
      | spawn c serviceDigest sessionKey =>
          obtain ⟨hub, hhub, rfl⟩ := Option.map_eq_some_iff.mp h
          simp only [Hub.step] at hhub
          split at hhub
          · cases hhub
          · rename_i hnew
            obtain rfl := Option.some.inj hhub
            exact .spawn hnew
      | insert c =>
          obtain ⟨hub, hhub, rfl⟩ := Option.map_eq_some_iff.mp h
          obtain ⟨ch, hch, hhub⟩ := Option.bind_eq_some_iff.mp hhub
          split at hhub
          · cases hhub
          · obtain rfl := Option.some.inj hhub
            exact step_still hch rfl (fun _ => rfl) rfl rfl rfl (.inl rfl)
              fun _ _ heq => by cases heq
      | written c =>
          obtain ⟨hub, hhub, rfl⟩ := Option.map_eq_some_iff.mp h
          obtain ⟨ch, hch, hhub⟩ := Option.bind_eq_some_iff.mp hhub
          split at hhub
          · obtain rfl := Option.some.inj hhub
            exact step_still hch rfl (fun _ => rfl) rfl rfl rfl (.inl rfl)
              fun _ _ heq => by cases heq
          · cases hhub
      | exit c =>
          obtain ⟨hub, hhub, rfl⟩ := Option.map_eq_some_iff.mp h
          obtain ⟨ch, hch, hhub⟩ := Option.bind_eq_some_iff.mp hhub
          split at hhub
          · rename_i hpc
            obtain rfl := Option.some.inj hhub
            exact step_still hch rfl (fun _ => rfl) rfl rfl rfl (.inr ⟨hpc, rfl⟩)
              fun _ _ heq => by cases heq
          · cases hhub
      | advance c fresh =>
          obtain ⟨hub, hhub, rfl⟩ := Option.map_eq_some_iff.mp h
          obtain ⟨ch, hch, hhub⟩ := Option.bind_eq_some_iff.mp hhub
          obtain ⟨ch', hturn⟩ := Hub.turn_advance (hs.sound c ch hch) hhub
          refine .turn hch hturn.after (fun d hd => ⟨hturn.others d hd, rfl⟩) (hturn.told _)
            (fun _ => rfl) (fun _ _ heq => by cases heq; rfl) ?_
          rw [hturn.returned]
          simp

theorem handle_cases {cmd : ControlChannelCmd} {hub : Hub}
    (h : s.hub.handle parses c cmd = some hub) :
    hub = s.hub ∨ ∃ label, s.hub.step parses label = some hub := by
  cases cmd with
  | reportNodeStatus _ | containerStarted _ _ | containerStopped _ | containerError _ _ =>
      simp only [Hub.handle] at h
      exact .inr ⟨_, h⟩
  | createDataChannel | heartBeat | portsAssigned _ | assignNodeUuid _ | imageStart _
  | imageStop _ =>
      obtain ⟨ch, hch, h⟩ := Option.bind_eq_some_iff.mp h
      split at h
      · exact .inl (Option.some.inj h).symm
      · cases h

theorem hub_cases (h : s.step parses label = some t) :
    t.hub = s.hub ∨ ∃ label, s.hub.step parses label = some t.hub := by
  cases label with
  | command c cmd =>
      obtain ⟨hub, hhub, rfl⟩ := Option.map_eq_some_iff.mp h
      exact handle_cases hhub
  | hub label =>
      cases label with
      | report c status | container c report => cases h
      | spawn c serviceDigest sessionKey | insert c | written c | exit c | advance c fresh =>
          obtain ⟨hub, hhub, rfl⟩ := Option.map_eq_some_iff.mp h
          exact .inr ⟨_, hhub⟩

/-! ## Runs -/

theorem told_new (serviceDigest sessionKey : Digest) :
    Told (.new serviceDigest sessionKey) [] [] := by
  refine ⟨[], rfl, ?_⟩
  exact
    { uuids := fun v hv => absurd hv List.not_mem_nil
      known := fun h => by cases h
      named := fun _ h => by cases h
      hostname := fun _ => rfl
      events := rfl }

theorem inv_step (hs : s.Inv) (h : s.step parses label = some t) : t.Inv := by
  have hsound : ∀ c ch, t.hub.channels c = some ch → ch.Sound := by
    rcases hub_cases h with heq | ⟨hlabel, hhub⟩
    · rw [heq]
      exact hs.sound
    · exact fun c ch => Hub.sound_of_identityStep hs.sound
        (Hub.identityStep_of_step hs.sound hhub)
  cases step_cases hs h with
  | @spawn c serviceDigest sessionKey hnew =>
      obtain ⟨hheard, hdelivered⟩ := hs.silent c hnew
      refine ⟨hsound, fun d ch hd => ?_, fun d hd => ?_⟩
      · rw [Hub.setChannel_channels] at hd
        by_cases hdc : d = c
        · subst hdc
          rw [Function.update_self] at hd
          obtain rfl := Option.some.inj hd
          rw [hheard, Hub.delivered_setChannel, hdelivered]
          exact told_new serviceDigest sessionKey
        · rw [Function.update_of_ne hdc] at hd
          exact hs.told d ch hd
      · rw [Hub.setChannel_channels] at hd
        by_cases hdc : d = c
        · rw [hdc, Function.update_self] at hd
          cases hd
        · rw [Function.update_of_ne hdc] at hd
          exact hs.silent d hd
  | @turn _ _ c ch ch' hch hafter hothers htold hheard hactor hreturned =>
      refine ⟨hsound, fun d chd hd => ?_, fun d hd => ?_⟩
      · rw [hafter] at hd
        by_cases hdc : d = c
        · subst hdc
          rw [Function.update_self] at hd
          obtain rfl := Option.some.inj hd
          exact htold (hs.told d ch hch)
        · rw [Function.update_of_ne hdc] at hd
          rw [(hothers d hdc).1, (hothers d hdc).2]
          exact hs.told d chd hd
      · rw [hafter] at hd
        by_cases hdc : d = c
        · rw [hdc, Function.update_self] at hd
          cases hd
        · rw [Function.update_of_ne hdc] at hd
          rw [(hothers d hdc).1, (hothers d hdc).2]
          exact hs.silent d hd

theorem inv_start (bindings : HashMap NodeUuid String) : (start bindings).Inv where
  sound := fun _ _ hch => by cases hch
  told := fun _ _ hch => by cases hch
  silent := fun _ _ => ⟨rfl, rfl⟩

theorem allFaithful_step (hs : s.Inv) (hfaithful : s.AllFaithful) (hC : s.ErrorFree label)
    (h : s.step parses label = some t) : t.AllFaithful := by
  have ht := inv_step hs h
  intro d chd hd hreturned'
  rw [faithful_iff (ht.told d chd hd) hreturned']
  cases step_cases hs h with
  | @spawn c serviceDigest sessionKey hnew =>
      rw [Hub.setChannel_channels] at hd
      by_cases hdc : d = c
      · subst hdc
        rw [Function.update_self] at hd
        obtain rfl := Option.some.inj hd
        cases hreturned'
      · rw [Function.update_of_ne hdc] at hd
        exact (faithful_iff (hs.told d chd hd) hreturned').mp (hfaithful d chd hd hreturned')
  | @turn _ _ c ch ch' hch hafter hothers htold hheard hactor hreturned =>
      rw [hafter] at hd
      by_cases hdc : d = c
      · subst hdc
        rw [Function.update_self] at hd
        obtain rfl := Option.some.inj hd
        rcases hreturned.mp hreturned' with hbefore | ⟨hshutdown, fresh, rfl⟩
        · have hnot : ch.pc ≠ .select := by
            intro hselect
            rw [hselect] at hbefore
            cases hbefore
          rw [hheard hnot]
          exact (faithful_iff (hs.told d ch hch) hbefore).mp (hfaithful d ch hch hbefore)
        · rw [hheard (by rw [hshutdown]; nofun)]
          exact hC ch hch hshutdown
      · rw [Function.update_of_ne hdc] at hd
        rw [(hothers d hdc).2]
        exact (faithful_iff (hs.told d chd hd) hreturned').mp (hfaithful d chd hd hreturned')

/-- A loop that returns faithfully has heard no error. -/
theorem errorFree_of_allFaithful (hs : s.Inv) (h : s.step parses label = some t)
    (hfaithful : t.AllFaithful) : s.ErrorFree label := by
  have ht := inv_step hs h
  cases hstep : label with
  | command c cmd => trivial
  | hub hubLabel =>
      cases hubLabel with
      | spawn _ _ _ | insert _ | report _ _ | container _ _ | written _ | exit _ => trivial
      | advance c fresh =>
          intro ch hch hshutdown
          rw [hstep] at h
          cases step_cases hs h with
          | @turn _ _ c' ch₀ ch' hch₀ hafter hothers htold hheard hactor hreturned =>
              obtain rfl : c = c' := hactor c fresh rfl
              obtain rfl : ch₀ = ch := Option.some.inj (hch₀.symm.trans hch)
              have hafter' : t.hub.channels c = some ch' := by rw [hafter, Function.update_self]
              have hdone : ch'.pc.returned = true := hreturned.mpr (.inr ⟨hshutdown, fresh, rfl⟩)
              have herrors := (faithful_iff (ht.told c ch' hafter') hdone).mp
                (hfaithful c ch' hafter' hdone)
              rw [hheard (by rw [hshutdown]; nofun)] at herrors
              exact herrors

end

end Listener

/-- In a run every channel whose loop has returned has told the database exactly what it
heard from its first report on, exactly when no loop returns after a container error. -/
theorem allFaithful_iff_errorFree (parses : String → Bool) (bindings : HashMap NodeUuid String)
    (labels : List ListenerLabel) :
    (listeners parses bindings).Always Listener.AllFaithful (.start bindings) labels ↔
      (listeners parses bindings).Meets Listener.ErrorFree (.start bindings) labels :=
  Machine.always_iff_meets (I := fun s : Listener => s.Inv ∧ s.AllFaithful)
    (fun _ _ _ hI hC hstep => ⟨Listener.inv_step hI.1 hstep,
      Listener.allFaithful_step hI.1 hI.2 hC hstep⟩)
    (fun _ hI => hI.2)
    (fun _ _ _ hI hstep hP => Listener.errorFree_of_allFaithful hI.1 hstep hP)
    ⟨Listener.inv_start bindings, fun _ _ hch => by cases hch⟩

/-- A connection that reports, sends one more command and is gone. -/
def reportsThen (cmd : ControlChannelCmd) : List ListenerLabel :=
  [.hub (.spawn 0 (sampleDigest 0) (sampleDigest 1)), .hub (.insert 0),
    .command 0 (.reportNodeStatus sampleStatus)] ++
    List.replicate 9 (.hub (.advance 0 "")) ++ [.command 0 cmd, .hub (.advance 0 "")] ++
    [.hub (.exit 0), .hub (.advance 0 "")]

/-- The update of a container error never reaches the database. -/
theorem containerError_lost :
    ¬(listeners (fun _ => true) ∅).Always Listener.AllFaithful (.start ∅)
      (reportsThen (.containerError "web" "exited")) := by
  intro h
  obtain ⟨s, hs⟩ : ∃ s, (listeners (fun _ => true) ∅).run (.start ∅)
      (reportsThen (.containerError "web" "exited")) = some s :=
    Option.isSome_iff_exists.mp (by decide)
  have hfacts : ((listeners (fun _ => true) ∅).run (.start ∅)
      (reportsThen (.containerError "web" "exited"))).map (fun s =>
        ((s.hub.channels 0).map fun ch => (ch.pc, (eventImage ch.digestHex (s.heard 0)).length),
          (s.hub.delivered 0).length)) = some (some (.cleanup, 3), 2) := by decide
  rw [hs] at hfacts
  simp only [Option.map_some, Option.some.injEq, Prod.mk.injEq] at hfacts
  obtain ⟨hchannel, hdelivered⟩ := hfacts
  obtain ⟨ch, hch, hpc⟩ := Option.map_eq_some_iff.mp hchannel
  obtain ⟨hcleanup, himage⟩ := Prod.mk.inj hpc
  have hevents := ((h.last hs) 0 ch hch (by rw [hcleanup]; rfl)).1
  have hlength := congrArg List.length hevents
  rw [List.length_map, hdelivered, himage] at hlength
  omega

end Kdct
