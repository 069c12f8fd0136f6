/-
Where the traffic of a bridge port goes on its client: the dispatch of a data channel
and the start of the container (`run_data_channel` and `docker_run` in
`crates/tunnel/src/client.rs`).

The client port that a deploy chooses for a bridge port takes two ways.  `docker_run`
publishes it, and the loop of the port names it in the command it writes on every data
channel.  The command for UDP has no place for a port, and the flag that publishes the
port names no protocol, so both ways are for TCP only.
-/
import Kdct.ControlStream
import Kdct.Server.Machine

namespace Kdct

/-! ## Data channels -/

/-- What `run_data_channel` reads of `[client.services]`. -/
structure ClientService where
  name : String
  localAddr : Option String

/-- The command a loop writes on the data channel of a visitor. -/
def PortLoop.command (l : PortLoop) : DataChannelCmd :=
  match l.kind with
  | .tcp => .startForwardTcp (some l.localPort)
  | .udp => .startForwardUdp

/-- The forwarding a client starts on a data channel: the protocol and the address it
connects to. -/
def runDataChannel (b : Bincode) (service : ClientService) (conn : Bytes) :
    Except String (LoopKind × String) :=
  match readDataCmd b conn with
  | .error e => .error e.text
  | .ok (.startForwardTcp (some port), _) => .ok (.tcp, Shared.address port)
  | .ok (.startForwardTcp none, _) =>
      match service.localAddr with
      | some addr => .ok (.tcp, addr)
      | none =>
          .error ("Server requested forwarding without a port and no `local_addr` is set " ++
            "on [client.services." ++ service.name ++ "]")
  | .ok (.startForwardUdp, _) =>
      match service.localAddr with
      | some addr => .ok (.udp, addr)
      | none =>
          .error ("Server requested UDP forwarding but no `local_addr` is set on " ++
            "[client.services." ++ service.name ++ "]")

theorem readDataCmd_writeDataCmd (b : Bincode) (cmd : DataChannelCmd) :
    readDataCmd b (writeDataCmd b cmd) = .ok (cmd, []) := by
  have hfits : Framing.Fits (b.dataCmd.format fun _ => true) cmd :=
    ⟨rfl, Nat.lt_of_le_of_lt (b.dataCmd_length_le cmd) (by decide)⟩
  have hread := Framing.read_frame _ hfits []
  rw [List.append_nil] at hread
  exact (readMessage_reads b.dataCmd "data cmd" _ cmd []).mpr hread

theorem runDataChannel_tcp (b : Bincode) (service : ClientService) {l : PortLoop}
    (hl : l.kind = .tcp) :
    runDataChannel b service (writeDataCmd b l.command) =
      .ok (.tcp, Shared.address l.localPort) := by
  unfold runDataChannel
  rw [readDataCmd_writeDataCmd, PortLoop.command, hl]

/-- The client connects a visitor to the address that `target` says, and to none when
`target` has none. -/
theorem runDataChannel_target (b : Bincode) (service : ClientService) {localAddr : LocalAddr}
    {l : PortLoop} (hservice : localAddr l.deploy.channel = service.localAddr) :
    (runDataChannel b service (writeDataCmd b l.command)).toOption =
      (Shared.target localAddr l).map fun addr => (l.kind, addr) := by
  unfold runDataChannel Shared.target
  rw [readDataCmd_writeDataCmd, PortLoop.command]
  cases hkind : l.kind with
  | tcp => rfl
  | udp =>
      rw [hservice]
      cases service.localAddr with
      | none => rfl
      | some addr => rfl

/-! ## Containers -/

def publishFlag (hostPort containerPort : Port) : String :=
  toString hostPort ++ ":" ++ toString containerPort

/-- The arguments of `docker run -d`. -/
structure DockerRun where
  name : String
  /-- The values of `-p`. -/
  publish : List String
  /-- The values of `-e`. -/
  env : List String
  image : String

/-- The command that starts a container, and the ports that are reported once it has
succeeded. -/
def dockerRun (start : ImageStart) : DockerRun × List Port :=
  ({ name := start.containerName
     publish := start.portMap.map fun (hostPort, containerPort) =>
       publishFlag hostPort containerPort
     env := start.env.map fun (k, v) => k ++ "=" ++ v
     image := start.imageTag }, start.portMap.map Prod.fst)

/-- A port of the host that leads to a port of the container. -/
structure Publication where
  hostPort : Port
  containerPort : Port
  kind : LoopKind
  deriving DecidableEq

/-- What Docker does with a value of `-p`: without a protocol it publishes TCP, a host
port 0 is replaced by a free port and a container port 0 is refused. -/
structure Docker where
  publication : String → Option Publication
  plain : ∀ hostPort containerPort, hostPort ≠ 0 → containerPort ≠ 0 →
    publication (publishFlag hostPort containerPort) = some ⟨hostPort, containerPort, .tcp⟩
  noProtocol : ∀ hostPort containerPort x,
    publication (publishFlag hostPort containerPort) = some x →
      x.kind = .tcp ∧ x.hostPort ≠ 0 ∧ x.containerPort ≠ 0

def Docker.published (docker : Docker) (run : DockerRun) : List Publication :=
  run.publish.filterMap docker.publication

theorem Docker.published_tcp (docker : Docker) {start : ImageStart} {x : Publication}
    (hx : x ∈ docker.published (dockerRun start).1) :
    x.kind = .tcp ∧ x.hostPort ≠ 0 ∧ x.containerPort ≠ 0 := by
  obtain ⟨flag, hflag, hpub⟩ := List.mem_filterMap.mp hx
  obtain ⟨pair, _, rfl⟩ := List.mem_map.mp hflag
  exact docker.noProtocol _ _ x hpub

theorem Docker.published_plain (docker : Docker) {start : ImageStart}
    {hostPort containerPort : Port}
    (h : (hostPort, containerPort) ∈ start.portMap) (hhost : hostPort ≠ 0)
    (hcontainer : containerPort ≠ 0) :
    ⟨hostPort, containerPort, .tcp⟩ ∈ docker.published (dockerRun start).1 := by
  refine List.mem_filterMap.mpr ⟨publishFlag hostPort containerPort, ?_, ?_⟩
  · exact List.mem_map.mpr ⟨_, h, rfl⟩
  · exact docker.plain hostPort containerPort hhost hcontainer

/-! ## Bridge ports -/

def LoopKind.protocol : LoopKind → String
  | .tcp => "tcp"
  | .udp => "udp"

/-- The loops of the deploy at a bridge port, whatever loops there are besides. -/
def Deploy.Spawns (d : Deploy) (p : BridgePort) (clientPort : Port) (loops : List PortLoop) :
    Prop :=
  ∃ s : Shared, (s.spawnLoops d p clientPort).loops = loops ++ s.loops

/-- Traffic of one kind at a bridge port reaches the container: a loop of the deploy
takes it at the pool port, the client forwards it to the client port, and this port is
published for the protocol and the container port. -/
structure Reaches (b : Bincode) (docker : Docker) (service : ClientService) (d : Deploy)
    (env : List (String × String)) (p : BridgePort) (clientPort : Port) (kind : LoopKind) :
    Prop where
  accepted : ∀ loops, d.Spawns p clientPort loops →
    ∃ l ∈ loops, l.kind = kind ∧ l.serverPort = p.poolPort.getD 0
  forwarded : ∀ loops, d.Spawns p clientPort loops → ∀ l ∈ loops, l.kind = kind →
    runDataChannel b service (writeDataCmd b l.command) = .ok (kind, Shared.address clientPort)
  published : ∃ x ∈ docker.published (dockerRun (d.plan.imageStart env)).1,
    x.hostPort = clientPort ∧ (x.containerPort.toNat : Int) = p.containerPort ∧ x.kind = kind

/-- UDP is not listed, and if TCP is, both ends are ports. -/
def BridgePort.TcpOnly (p : BridgePort) (clientPort : Port) : Prop :=
  p.hasProtocol "udp" = false ∧
    (p.hasProtocol "tcp" = true → clientPort ≠ 0 ∧ 0 < p.containerPort ∧ p.containerPort < 2 ^ 16)

section

variable {d : Deploy} {p : BridgePort} {clientPort : Port} {loops : List PortLoop}

theorem Deploy.Spawns.eq_tcp (h : d.Spawns p clientPort loops)
    (hudp : p.hasProtocol "udp" = false) :
    ∃ l, loops = [l] ∧ l.kind = .tcp ∧ l.serverPort = p.poolPort.getD 0 ∧
      l.localPort = clientPort := by
  obtain ⟨s, hs⟩ := h
  unfold Shared.spawnLoops at hs
  simp only [hudp, Bool.not_false, Bool.or_true, if_true, Bool.false_eq_true, if_false] at hs
  rw [← List.singleton_append] at hs
  exact ⟨_, (List.append_cancel_right hs).symm, rfl, rfl, rfl⟩

/-- The client port of a bridge port is published for its container port, which the
source cuts to 16 bits. -/
theorem Plan.mem_portMap {plan : Plan} (env : List (String × String))
    (h : (p, clientPort) ∈ plan.forwards) :
    (clientPort, UInt16.ofInt p.containerPort) ∈ (plan.imageStart env).portMap := by
  have hswap : (clientPort, p) ∈ plan.clientPorts.zip plan.ports := by
    obtain ⟨i, hi⟩ := List.mem_iff_getElem?.mp h
    obtain ⟨hport, hclient⟩ := List.getElem?_zip_eq_some.mp hi
    exact List.mem_iff_getElem?.mpr ⟨i, List.getElem?_zip_eq_some.mpr ⟨hclient, hport⟩⟩
  show _ ∈ plan.clientPorts.zip (plan.ports.map fun p => UInt16.ofInt p.containerPort)
  rw [List.zip_map_right]
  exact List.mem_map.mpr ⟨_, hswap, rfl⟩

theorem ofInt_toNat {n : Int} (hpos : 0 < n) (hlt : n < 2 ^ 16) :
    ((UInt16.ofInt n).toNat : Int) = n := by
  have hmod : n % 2 ^ 16 = n := Int.emod_eq_of_lt hpos.le hlt
  rw [UInt16.ofInt, hmod, UInt16.toNat_ofNat']
  omega

theorem toNat_pos {port : Port} (h : port ≠ 0) : 0 < port.toNat :=
  Nat.pos_of_ne_zero fun hzero => h (UInt16.toNat_inj.mp hzero)

end

/-! ## A Docker and a deploy -/

theorem parsePort_toString (port : Port) : parsePort (toString port).toList = some port := by
  have hlist : (toString port).toList = Nat.toDigits 10 port.toNat := Nat.toList_repr
  have hdigits : (Nat.toDigits 10 port.toNat).all Char.isDigit = true :=
    List.all_eq_true.mpr fun _ hc => Nat.isDigit_of_mem_toDigits (by decide) (by decide) hc
  unfold parsePort
  rw [hlist, Nat.ofDigitChars_ten_toDigits]
  exact (if_pos ⟨hdigits, port.toNat_lt⟩).trans (congrArg some UInt16.ofNat_toNat)

theorem colon_not_mem_toString (port : Port) : ':' ∉ (toString port).toList := by
  have hlist : (toString port).toList = Nat.toDigits 10 port.toNat := Nat.toList_repr
  rw [hlist]
  exact not_mem_toDigits (by decide) port.toNat

def parsePublication (spec : String) : Option Publication :=
  match spec.toList.splitOn ':' with
  | [hostPort, containerPort] =>
      (parsePort hostPort).bind fun hostPort =>
        (parsePort containerPort).bind fun containerPort =>
          if containerPort = 0 then none
          else some ⟨if hostPort = 0 then 32768 else hostPort, containerPort, .tcp⟩
  | _ => none

theorem parsePublication_publishFlag (hostPort containerPort : Port) :
    parsePublication (publishFlag hostPort containerPort) =
      if containerPort = 0 then none
      else some ⟨if hostPort = 0 then 32768 else hostPort, containerPort, .tcp⟩ := by
  have hsplit : (publishFlag hostPort containerPort).toList.splitOn ':' =
      [(toString hostPort).toList, (toString containerPort).toList] := by
    have hno : ∀ port : Port, ∀ c ∈ (toString port).toList, (c == ':') = false := by
      intro port c hc
      refine beq_eq_false_iff_ne.mpr ?_
      rintro rfl
      exact colon_not_mem_toString port hc
    rw [publishFlag, String.toList_append, String.toList_append, List.append_assoc]
    show ((toString hostPort).toList ++ ':' :: (toString containerPort).toList).splitOn ':' = _
    rw [List.splitOn_eq_splitOnP, List.splitOnP_append_cons_of_forall_mem (hno _) ':' (by decide),
      List.splitOnP_eq_singleton (hno _)]
  unfold parsePublication
  rw [hsplit]
  simp only [parsePort_toString, Option.bind_some]

/-- Docker on a host whose next free port is 32768. -/
def sampleDocker : Docker where
  publication := parsePublication
  plain hostPort containerPort hhost hcontainer := by
    rw [parsePublication_publishFlag, if_neg hcontainer, if_neg hhost]
  noProtocol hostPort containerPort x hx := by
    rw [parsePublication_publishFlag] at hx
    split at hx
    · cases hx
    · rename_i hcontainer
      obtain rfl := Option.some.inj hx
      refine ⟨rfl, ?_, hcontainer⟩
      dsimp only
      split
      · decide
      · assumption

/-- A deploy of a bridge with one port, which the client gets as 40000. -/
def sampleDeploy (p : BridgePort) : Deploy where
  call := 0
  channel := 0
  plan :=
    { connectionId := 1, connectionName := "connection", bridgeId := 1
      node :=
        { id := 1, nodeUuid := "u", authDigest := "digest", hostname := "h", status := .online
          portRangeStart := 40000, portRangeEnd := 40010 }
      image := { id := 1, name := "web", source := "nginx", sourceType := "docker" }
      ports := [p] }

def sampleBridgePort (protocols : Option String) : BridgePort where
  id := 1
  bridgeId := 1
  containerPort := 80
  mode := "route"
  routePath := some "/a"
  protocols := protocols
  poolPort := some 20000

/-! ## Traffic -/

end Kdct
