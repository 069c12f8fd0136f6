/-
The handshakes of control and data channels (`do_control_channel_handshake` and
`do_data_channel_handshake` in `crates/tunnel/src/server.rs`, and the client's side of
them in `crates/tunnel/src/client.rs`).

Any number of connections are open at once and their tasks take their steps in any
order.  Messages carry terms instead of 32 bytes.  The clients hold the token.  The
adversary opens connections of its own, sees what the server writes to them, and sends
on them whatever it can build from all that it has seen.
-/
import Kdct.Lib.HashMap
import Kdct.Lib.Machine
import Kdct.Lib.Symbolic
import Kdct.Protocol

namespace Kdct

/-- What terms are made of. -/
inductive Symbol
  /-- `default_token`. -/
  | token
  /-- The server's `n`-th random bytes. -/
  | nonce (n : Nat)
  /-- Public or made up. -/
  | text (k : Nat)
  deriving DecidableEq

def Symbol.public : Symbol → Bool
  | .token | .nonce _ => false
  | .text _ => true

abbrev Word := Term Symbol

/-- The digest of the token and a nonce: the answer to the nonce, and the session key. -/
def sessionKey (nonce : Word) : Word := .digest [.atom .token, nonce]

inductive Message
  | controlChannelHello (version : ProtocolVersion) (digest : Word)
  | dataChannelHello (version : ProtocolVersion) (digest : Word)
  | auth (digest : Word)
  | ack (ack : Ack)
  deriving DecidableEq

def Message.words : Message → List Word
  | .controlChannelHello _ digest | .dataChannelHello _ digest | .auth digest => [digest]
  | .ack _ => []

inductive Party
  | client (i : Nat)
  | adversary
  deriving DecidableEq

abbrev ConnId := Nat

/-- The server's task of a connection. -/
inductive ServerPc
  | readHello
  | readAuth (nonce serviceDigest : Word)
  /-- `Ack::Ok` is written and the map not locked yet. -/
  | insert (key serviceDigest : Word)
  /-- The hello has named a control channel, whose ports are asked next. -/
  | offering (channel : ConnId)
  /-- No port waits: before `data_ch_tx.send(conn).await`. -/
  | sending (channel : ConnId)
  /-- The connection is a control channel or was handed to one. -/
  | done
  | closed
  deriving DecidableEq

/-- The client's task of a connection; the adversary has none. -/
inductive ClientPc
  | writeHello (service : Nat)
  | readHello
  | readAck (key : Word)
  | established (key : Word)
  | writeDataHello (key : Word)
  | done
  deriving DecidableEq

structure Conn where
  owner : Party
  /-- The control channel whose client opened it as a data channel. -/
  session : Option ConnId
  server : ServerPc
  client : ClientPc
  toServer : List Message
  toClient : List Message
  deriving DecidableEq

structure Tunnel where
  conns : List Conn
  /-- The connection that each nonce was drawn for. -/
  drawn : List ConnId
  /-- `control_channels`, by session key. -/
  channels : HashMap Word ConnId
  /-- What the adversary has seen. -/
  known : List Word
  /-- The connections that `Ack::Ok` was written to. -/
  acked : List ConnId
  /-- The connections that were handed to a port or the pool of a control channel. -/
  handed : List (ConnId × ConnId)
  /-- `port_data_callbacks`: an entry for each port that waits for a data channel. -/
  waiting : List ConnId
  /-- The control channels whose pool has ended, and the receiver of `data_ch_tx` with it. -/
  ended : List ConnId

inductive HandshakeLabel
  /-- A client connects to run a control channel for a service. -/
  | connect (i service : Nat)
  /-- The client of an established control channel opens a data channel. -/
  | connectData (c : ConnId)
  | connectAdversary
  /-- The adversary writes to a connection of its own. -/
  | inject (c : ConnId) (m : Message)
  | client (c : ConnId)
  | server (c : ConnId)
  /-- The client's task of the connection ends in its handshake. -/
  | clientFails (c : ConnId)
  /-- The server's task of the connection ends. -/
  | serverFails (c : ConnId)
  /-- The control channel is removed. -/
  | leave (c : ConnId)
  /-- A port of the control channel asks for a data channel. -/
  | request (c : ConnId)
  | poolEnds (c : ConnId)
  deriving DecidableEq

namespace Tunnel

def empty : Tunnel := ⟨[], [], ∅, [], [], [], [], []⟩

def accept (s : Tunnel) (owner : Party) (session : Option ConnId) (client : ClientPc) : Tunnel :=
  { s with conns := s.conns ++ [⟨owner, session, .readHello, client, [], []⟩] }

def put (s : Tunnel) (c : ConnId) (conn : Conn) : Tunnel :=
  { s with conns := s.conns.set c conn }

/-- The server writes to a connection; the adversary sees what is written to its own. -/
def write (s : Tunnel) (c : ConnId) (conn : Conn) (m : Message) : Tunnel :=
  { s.put c { conn with toClient := conn.toClient ++ [m] } with
    known := if conn.owner = .adversary then s.known ++ m.words else s.known }

def close (s : Tunnel) (c : ConnId) (conn : Conn) : Tunnel :=
  s.put c { conn with server := .closed }

/-- `do_control_channel_handshake` up to its own hello. -/
def greet (s : Tunnel) (c : ConnId) (conn : Conn) (serviceDigest : Word) : Tunnel :=
  let nonce : Word := .atom (.nonce s.drawn.length)
  { s with drawn := s.drawn ++ [c] }.write c { conn with server := .readAuth nonce serviceDigest }
    (.controlChannelHello currentProtoVersion nonce)

/-- The answer to the nonce is checked. -/
def authenticate (s : Tunnel) (c : ConnId) (conn : Conn) (nonce serviceDigest d : Word) : Tunnel :=
  if sessionKey nonce ≠ d then s.write c { conn with server := .closed } (.ack .authFailed)
  else
    { s with acked := s.acked ++ [c] }.write c
      { conn with server := .insert (sessionKey nonce) serviceDigest } (.ack .ok)

/-- `do_data_channel_handshake` looks for the channel of the nonce. -/
def find (s : Tunnel) (c : ConnId) (conn : Conn) (nonce : Word) : Tunnel :=
  match s.channels.lookup nonce with
  | some channel => s.put c { conn with server := .offering channel }
  | none => s.close c conn

/-- The channel gets the stream. -/
def hand (s : Tunnel) (c : ConnId) (conn : Conn) (channel : ConnId) : Tunnel :=
  { s.put c { conn with server := .done } with handed := s.handed ++ [(c, channel)] }

/-- The first port that waits gets the stream.  Nothing is ever put into
`port_data_pending`, which is asked before. -/
def offer (s : Tunnel) (c : ConnId) (conn : Conn) (channel : ConnId) : Tunnel :=
  if channel ∈ s.waiting then
    { s.hand c conn channel with waiting := s.waiting.erase channel }
  else s.put c { conn with server := .sending channel }

/-- The pool gets the stream, as soon as its queue has room for it. -/
def send (s : Tunnel) (c : ConnId) (conn : Conn) (channel : ConnId) : Tunnel :=
  if channel ∈ s.ended then s.close c conn else s.hand c conn channel

/-- `handle_connection` reads its hello. -/
def readsHello (s : Tunnel) (c : ConnId) (conn : Conn) : Message → Tunnel
  | .controlChannelHello version digest =>
      if version = currentProtoVersion then s.greet c conn digest else s.close c conn
  | .dataChannelHello version digest =>
      if version = currentProtoVersion then s.find c conn digest else s.close c conn
  | .auth _ | .ack _ => s.close c conn

def readsAuth (s : Tunnel) (c : ConnId) (conn : Conn) (nonce serviceDigest : Word) :
    Message → Tunnel
  | .auth d => s.authenticate c conn nonce serviceDigest d
  | _ => s.close c conn

/-- `MultiMap::insert`: a session key that is there is not replaced.  The other key, the
channel's random id, is always new. -/
def insertChannel (s : Tunnel) (key : Word) (c : ConnId) : HashMap Word ConnId :=
  if (s.channels.lookup key).isSome then s.channels else s.channels.insert key c

/-- The server's task takes its next step. -/
def serverStep (s : Tunnel) (c : ConnId) (conn : Conn) : Option Tunnel :=
  match conn.server with
  | .readHello =>
      match conn.toServer with
      | [] => none
      | m :: rest => some (s.readsHello c { conn with toServer := rest } m)
  | .readAuth nonce serviceDigest =>
      match conn.toServer with
      | [] => none
      | m :: rest => some (s.readsAuth c { conn with toServer := rest } nonce serviceDigest m)
  | .insert key _ =>
      some { s.put c { conn with server := .done } with channels := s.insertChannel key c }
  | .offering channel => some (s.offer c conn channel)
  | .sending channel => some (s.send c conn channel)
  | .done | .closed => none

def fail (s : Tunnel) (c : ConnId) (conn : Conn) : Tunnel := s.put c { conn with client := .done }

/-- The client reads the server's hello and answers its nonce. -/
def answersHello (s : Tunnel) (c : ConnId) (conn : Conn) : Message → Tunnel
  | .controlChannelHello version nonce =>
      if version = currentProtoVersion then
        s.put c { conn with
          client := .readAck (sessionKey nonce)
          toServer := conn.toServer ++ [.auth (sessionKey nonce)] }
      else s.fail c conn
  | _ => s.fail c conn

def readsAck (s : Tunnel) (c : ConnId) (conn : Conn) (key : Word) : Message → Tunnel
  | .ack .ok => s.put c { conn with client := .established key }
  | _ => s.fail c conn

/-- The client's task takes its next step. -/
def clientStep (s : Tunnel) (c : ConnId) (conn : Conn) : Option Tunnel :=
  match conn.client with
  | .writeHello service =>
      some (s.put c { conn with
        client := .readHello
        toServer := conn.toServer ++
          [.controlChannelHello currentProtoVersion (.digest [.atom (.text service)])] })
  | .readHello =>
      match conn.toClient with
      | [] => none
      | m :: rest => some (s.answersHello c { conn with toClient := rest } m)
  | .readAck key =>
      match conn.toClient with
      | [] => none
      | m :: rest => some (s.readsAck c { conn with toClient := rest } key m)
  | .writeDataHello key =>
      some (s.put c { conn with
        client := .done
        toServer := conn.toServer ++ [.dataChannelHello currentProtoVersion key] })
  | .established _ | .done => none

/-- The handle of a control channel, with its queues and its pool, is made before it is
inserted. -/
def hasHandle (s : Tunnel) (c : ConnId) : Bool :=
  match s.conns[c]? with
  | some conn =>
      match conn.server with
      | .insert _ _ | .done => true
      | _ => false
  | none => false

def step (s : Tunnel) : HandshakeLabel → Option Tunnel
  | .connect i service => some (s.accept (.client i) none (.writeHello service))
  | .connectAdversary => some (s.accept .adversary none .done)
  | .connectData c =>
      s.conns[c]?.bind fun conn =>
        match conn.client with
        | .established key => some (s.accept conn.owner (some c) (.writeDataHello key))
        | _ => none
  | .inject c m =>
      s.conns[c]?.bind fun conn =>
        if conn.owner = .adversary ∧ m.words.all (Term.derivable Symbol.public s.known) then
          some (s.put c { conn with toServer := conn.toServer ++ [m] })
        else none
  | .client c => s.conns[c]?.bind (s.clientStep c)
  | .server c => s.conns[c]?.bind (s.serverStep c)
  | .clientFails c =>
      s.conns[c]?.bind fun conn =>
        match conn.client with
        -- what the control channel has spawned may still open data channels
        | .established _ => none
        | _ => some (s.fail c conn)
  | .serverFails c => s.conns[c]?.map (s.close c)
  | .leave c => some { s with channels := HashMap.retain (fun _ d => d != c) s.channels }
  | .request c => if s.hasHandle c then some { s with waiting := s.waiting ++ [c] } else none
  | .poolEnds c => if s.hasHandle c then some { s with ended := c :: s.ended } else none

end Tunnel

def handshakes : Machine Tunnel HandshakeLabel where
  init := .empty
  step := Tunnel.step

namespace Tunnel

/-! ## What is to hold -/

/-- The connection is there and belongs to the party. -/
def Owns (s : Tunnel) (p : Party) (c : ConnId) : Prop :=
  ∃ conn, s.conns[c]? = some conn ∧ conn.owner = p

def Honest (s : Tunnel) (c : ConnId) : Prop := ∃ i, s.Owns (.client i) c

/-- The client of `c` opened `d` for that channel. -/
def Opened (s : Tunnel) (c d : ConnId) : Prop :=
  ∃ conn i, s.conns[d]? = some conn ∧ conn.owner = .client i ∧ conn.session = some c ∧
    s.Owns (.client i) c

structure Safe (s : Tunnel) : Prop where
  /-- `Ack::Ok` goes to clients only. -/
  acked : ∀ c ∈ s.acked, s.Honest c
  /-- Control channels are clients' only. -/
  channels : ∀ key c, s.channels.lookup key = some c → s.Honest c
  /-- What a control channel gets, its own client opened for it. -/
  handed : ∀ d c, (d, c) ∈ s.handed → s.Opened c d

/-! ## Terms without the token -/

/-- The token is not in the message. -/
def Bare (m : Message) : Prop := ∀ w ∈ m.words, w.mentions Symbol.token = false

theorem sessionKey_mentions (nonce : Word) : (sessionKey nonce).mentions Symbol.token = true := by
  rw [sessionKey, Term.mentions, Term.mentionsAny, Term.mentions, decide_eq_true rfl, Bool.true_or]

theorem sessionKey_inj {n n' : Word} (h : sessionKey n = sessionKey n') : n = n' :=
  (List.cons.inj (List.cons.inj (Term.digest.inj h)).2).1

/-! ## Nonces and keys -/

variable {s t : Tunnel} {c d : ConnId} {conn conn' : Conn} {label : HandshakeLabel}

/-- The nonce was drawn for the connection. -/
def Drawn (s : Tunnel) (c : ConnId) (nonce : Word) : Prop :=
  ∃ n, nonce = .atom (.nonce n) ∧ s.drawn[n]? = some c

/-- The session key of the connection. -/
def Key (s : Tunnel) (c : ConnId) (key : Word) : Prop :=
  ∃ nonce, key = sessionKey nonce ∧ s.Drawn c nonce

/-- The key is that of the session the connection was opened for, which is its owner's. -/
def SessionKey (s : Tunnel) (conn : Conn) (key : Word) : Prop :=
  ∃ c, conn.session = some c ∧ s.Key c key ∧ s.Owns conn.owner c

theorem Key.unique {key : Word} (h : s.Key c key) (h' : s.Key d key) : c = d := by
  obtain ⟨nonce, rfl, n, rfl, hn⟩ := h
  obtain ⟨nonce', heq, n', rfl, hn'⟩ := h'
  obtain rfl := Symbol.nonce.inj (Term.atom.inj (sessionKey_inj heq))
  exact Option.some.inj (hn.symm.trans hn')

/-- A client opened the connection for the control channel of its own. -/
def OpenedFor (s : Tunnel) (conn : Conn) (c : ConnId) : Prop :=
  ∃ i, conn.owner = .client i ∧ conn.session = some c ∧ s.Owns (.client i) c

/-- Connections keep their owners and sessions, and nonces stay drawn. -/
structure Extends (s t : Tunnel) : Prop where
  drawn : ∀ (n : Nat) (c : ConnId), s.drawn[n]? = some c → t.drawn[n]? = some c
  conns : ∀ (c : ConnId) (conn : Conn), s.conns[c]? = some conn →
    ∃ conn', t.conns[c]? = some conn' ∧
    conn'.owner = conn.owner ∧ conn'.session = conn.session

namespace Extends

variable {w : Word} {p : Party}

theorem of_eq (hconns : t.conns = s.conns) (hdrawn : t.drawn = s.drawn) : s.Extends t :=
  ⟨fun _ _ hn => hdrawn ▸ hn, fun _ conn hconn => ⟨conn, hconns ▸ hconn, rfl, rfl⟩⟩

theorem nonce (h : s.Extends t) (hdrawn : s.Drawn c w) : t.Drawn c w := by
  obtain ⟨n, rfl, hn⟩ := hdrawn
  exact ⟨n, rfl, h.drawn n c hn⟩

theorem key (h : s.Extends t) (hkey : s.Key c w) : t.Key c w := by
  obtain ⟨n, rfl, hdrawn⟩ := hkey
  exact ⟨n, rfl, h.nonce hdrawn⟩

theorem owns (h : s.Extends t) (howns : s.Owns p c) : t.Owns p c := by
  obtain ⟨conn, hconn, rfl⟩ := howns
  obtain ⟨conn', hconn', howner, -⟩ := h.conns c conn hconn
  exact ⟨conn', hconn', howner⟩

theorem honest (h : s.Extends t) (hhonest : s.Honest c) : t.Honest c := by
  obtain ⟨i, hi⟩ := hhonest
  exact ⟨i, h.owns hi⟩

theorem opened (h : s.Extends t) (hopened : s.Opened c d) : t.Opened c d := by
  obtain ⟨conn, i, hconn, howner, hsession, howns⟩ := hopened
  obtain ⟨conn', hconn', howner', hsession'⟩ := h.conns d conn hconn
  exact ⟨conn', i, hconn', howner'.trans howner, hsession'.trans hsession, h.owns howns⟩

theorem openedFor (h : s.Extends t) (hopened : s.OpenedFor conn c) : t.OpenedFor conn c := by
  obtain ⟨i, howner, hsession, howns⟩ := hopened
  exact ⟨i, howner, hsession, h.owns howns⟩

theorem sessionKey (h : s.Extends t) (hkey : s.SessionKey conn w) : t.SessionKey conn w := by
  obtain ⟨c, hsession, hkey, howns⟩ := hkey
  exact ⟨c, hsession, h.key hkey, h.owns howns⟩

end Extends

/-! ## The invariant -/

/-- What holds of a connection `c`. -/
structure ConnInv (s : Tunnel) (c : ConnId) (conn : Conn) : Prop where
  /-- What the adversary sends is bare, and it runs no client. -/
  bare : conn.owner = .adversary → (∀ m ∈ conn.toServer, Bare m) ∧ conn.client = .done
  /-- A client names a session of its own. -/
  hello : conn.owner ≠ .adversary → ∀ version key, .dataChannelHello version key ∈ conn.toServer →
    s.SessionKey conn key
  /-- The nonces that a connection carries are its own. -/
  nonce : ∀ version n, .controlChannelHello version n ∈ conn.toClient → s.Drawn c n
  readAck : ∀ key, conn.client = .readAck key ∨ conn.client = .established key → s.Key c key
  writeDataHello : ∀ key, conn.client = .writeDataHello key → s.SessionKey conn key
  readAuth : ∀ n digest, conn.server = .readAuth n digest → s.Drawn c n
  insert : ∀ key digest, conn.server = .insert key digest → s.Key c key ∧ conn.owner ≠ .adversary
  offers : ∀ d, conn.server = .offering d ∨ conn.server = .sending d → s.OpenedFor conn d

structure Inv (s : Tunnel) : Prop where
  known : ∀ w ∈ s.known, w.mentions Symbol.token = false
  conns : ∀ c conn, s.conns[c]? = some conn → s.ConnInv c conn
  keys : ∀ key c, s.channels.lookup key = some c → s.Key c key
  safe : s.Safe

theorem ConnInv.mono (h : s.ConnInv c conn) (hext : s.Extends t) : t.ConnInv c conn where
  bare := h.bare
  hello := fun howner version key hm => hext.sessionKey (h.hello howner version key hm)
  nonce := fun version n hm => hext.nonce (h.nonce version n hm)
  readAck := fun key hpc => hext.key (h.readAck key hpc)
  writeDataHello := fun key hpc => hext.sessionKey (h.writeDataHello key hpc)
  readAuth := fun n digest hpc => hext.nonce (h.readAuth n digest hpc)
  insert := fun key digest hpc =>
    ⟨hext.key (h.insert key digest hpc).1, (h.insert key digest hpc).2⟩
  offers := fun d hpc => hext.openedFor (h.offers d hpc)

theorem Safe.mono (h : s.Safe) (hext : s.Extends t) (hacked : t.acked = s.acked)
    (hchannels : t.channels = s.channels) (hhanded : t.handed = s.handed) : t.Safe := by
  refine ⟨?_, ?_, ?_⟩
  · rw [hacked]
    exact fun c hc => hext.honest (h.acked c hc)
  · rw [hchannels]
    exact fun key c hc => hext.honest (h.channels key c hc)
  · rw [hhanded]
    exact fun d c hdc => hext.opened (h.handed d c hdc)

/-- A connection that changes, but not its owner or session. -/
theorem Inv.conns_set (h : s.Inv) (hconn : s.conns[c]? = some conn)
    (howner : conn'.owner = conn.owner) (hsession : conn'.session = conn.session)
    (hconns : t.conns = s.conns.set c conn')
    (hdrawn : ∀ (n : Nat) (d : ConnId), s.drawn[n]? = some d → t.drawn[n]? = some d)
    (hnew : s.Extends t → t.ConnInv c conn') :
    s.Extends t ∧ ∀ (d : ConnId) (e : Conn), t.conns[d]? = some e → t.ConnInv d e := by
  have hc : c < s.conns.length := (List.getElem?_eq_some_iff.mp hconn).1
  have hext : s.Extends t := by
    refine ⟨hdrawn, fun d e he => ?_⟩
    rw [hconns]
    by_cases hd : c = d
    · subst hd
      obtain rfl := Option.some.inj (hconn.symm.trans he)
      exact ⟨conn', List.getElem?_set_self hc, howner, hsession⟩
    · exact ⟨e, (List.getElem?_set_ne hd).trans he, rfl, rfl⟩
  refine ⟨hext, fun d e he => ?_⟩
  rw [hconns] at he
  by_cases hd : c = d
  · subst hd
    rw [List.getElem?_set_self hc] at he
    obtain rfl := Option.some.inj he
    exact hnew hext
  · rw [List.getElem?_set_ne hd] at he
    exact (h.conns d e he).mono hext

theorem Inv.put (h : s.Inv) (hconn : s.conns[c]? = some conn)
    (howner : conn'.owner = conn.owner) (hsession : conn'.session = conn.session)
    (hnew : s.ConnInv c conn') : (s.put c conn').Inv := by
  obtain ⟨hext, hconns⟩ := h.conns_set (t := s.put c conn') hconn howner hsession rfl
    (fun _ _ hn => hn) hnew.mono
  exact ⟨h.known, hconns, fun key d hd => hext.key (h.keys key d hd), h.safe.mono hext rfl rfl rfl⟩

theorem Inv.accept {owner : Party} {session : Option ConnId} {client : ClientPc} (h : s.Inv)
    (hnew : s.ConnInv s.conns.length ⟨owner, session, .readHello, client, [], []⟩) :
    (s.accept owner session client).Inv := by
  have hext : s.Extends (s.accept owner session client) :=
    ⟨fun _ _ hn => hn, fun d e he =>
      ⟨e, (List.getElem?_append_left (List.getElem?_eq_some_iff.mp he).1).trans he, rfl, rfl⟩⟩
  refine ⟨h.known, fun d e he => ?_, fun key d hd => hext.key (h.keys key d hd),
    h.safe.mono hext rfl rfl rfl⟩
  rcases Nat.lt_or_ge d s.conns.length with hd | hd
  · exact (h.conns d e ((List.getElem?_append_left hd).symm.trans he)).mono hext
  · have hat : [(⟨owner, session, .readHello, client, [], []⟩ : Conn)][d - s.conns.length]? =
        some e := (List.getElem?_append_right hd).symm.trans he
    obtain ⟨hlt, rfl⟩ := List.getElem?_eq_some_iff.mp hat
    obtain rfl : d = s.conns.length :=
      Nat.le_antisymm (Nat.sub_eq_zero_iff_le.mp (Nat.lt_one_iff.mp hlt)) hd
    simp only [Nat.sub_self, List.getElem_cons_zero]
    exact hnew.mono hext

/-- A step that leaves the connections alone, where what is new is safe. -/
theorem Inv.extended (h : s.Inv) (hext : s.Extends t) (hconns : t.conns = s.conns)
    (hknown : ∀ w ∈ t.known, w.mentions Symbol.token = false)
    (hacked : ∀ c ∈ t.acked, c ∈ s.acked ∨ s.Honest c)
    (hchannels : ∀ key c, t.channels.lookup key = some c →
      s.channels.lookup key = some c ∨ s.Key c key ∧ s.Honest c)
    (hhanded : ∀ d c, (d, c) ∈ t.handed → (d, c) ∈ s.handed ∨ s.Opened c d) : t.Inv := by
  refine ⟨hknown, fun c conn hconn => ?_, fun key c hc => ?_, ?_, fun key c hc => ?_,
    fun d c hdc => ?_⟩
  · rw [hconns] at hconn
    exact (h.conns c conn hconn).mono hext
  · rcases hchannels key c hc with hold | ⟨hkey, -⟩
    · exact hext.key (h.keys key c hold)
    · exact hext.key hkey
  · intro c hc
    exact hext.honest ((hacked c hc).elim (h.safe.acked c) id)
  · rcases hchannels key c hc with hold | ⟨-, hhonest⟩
    · exact hext.honest (h.safe.channels key c hold)
    · exact hext.honest hhonest
  · exact hext.opened ((hhanded d c hdc).elim (h.safe.handed d c) id)

/-- What the adversary learns. -/
theorem Inv.learn {known : List Word} (h : s.Inv)
    (hknown : ∀ w ∈ known, w.mentions Symbol.token = false) : { s with known := known }.Inv :=
  h.extended (.of_eq rfl rfl) rfl hknown (fun _ => .inl) (fun _ _ => .inl) fun _ _ => .inl

theorem extends_draw (c : ConnId) : s.Extends { s with drawn := s.drawn ++ [c] } :=
  ⟨fun _ _ hn => (List.getElem?_append_left (List.getElem?_eq_some_iff.mp hn).1).trans hn,
    fun _ conn hconn => ⟨conn, hconn, rfl, rfl⟩⟩

/-- A nonce that is drawn. -/
theorem Inv.draw (h : s.Inv) (c : ConnId) : { s with drawn := s.drawn ++ [c] }.Inv :=
  h.extended (extends_draw c) rfl h.known (fun _ => .inl) (fun _ _ => .inl) fun _ _ => .inl

theorem Inv.write {conn₀ : Conn} {m : Message} (h : s.Inv) (hconn : s.conns[c]? = some conn₀)
    (howner : conn.owner = conn₀.owner) (hsession : conn.session = conn₀.session) (hm : Bare m)
    (hnew : s.ConnInv c { conn with toClient := conn.toClient ++ [m] }) :
    (s.write c conn m).Inv := by
  have hput : (s.put c { conn with toClient := conn.toClient ++ [m] }).Inv :=
    h.put hconn howner hsession hnew
  refine hput.learn fun w hw => ?_
  split at hw
  · rcases List.mem_append.mp hw with hw | hw
    · exact h.known w hw
    · exact hm w hw
  · exact h.known w hw

/-! ## The connection's own steps -/

namespace ConnInv

variable {m : Message} {rest : List Message} {pc : ServerPc}

/-- The server's task reads a message, which is bare or its client's. -/
theorem reads (h : s.ConnInv c conn) (hqueue : conn.toServer = m :: rest) :
    s.ConnInv c { conn with toServer := rest } ∧ (conn.owner = .adversary → Bare m) ∧
      (conn.owner ≠ .adversary → ∀ version key, m = .dataChannelHello version key →
        s.SessionKey conn key) := by
  refine ⟨⟨fun howner => ⟨fun m' hm' => ?_, (h.bare howner).2⟩, fun howner version key hm' => ?_,
    h.nonce, h.readAck, h.writeDataHello, h.readAuth, h.insert, h.offers⟩, fun howner => ?_, ?_⟩
  · exact (h.bare howner).1 m' (hqueue ▸ List.mem_cons_of_mem m hm')
  · exact h.hello howner version key (hqueue ▸ List.mem_cons_of_mem m hm')
  · exact (h.bare howner).1 m (hqueue ▸ List.mem_cons_self)
  · rintro howner version key rfl
    exact h.hello howner version key (hqueue ▸ List.mem_cons_self)

/-- The server's task goes on. -/
theorem server (h : s.ConnInv c conn)
    (hreadAuth : ∀ n digest, pc = .readAuth n digest → s.Drawn c n)
    (hinsert : ∀ key digest, pc = .insert key digest → s.Key c key ∧ conn.owner ≠ .adversary)
    (hoffers : ∀ d, pc = .offering d ∨ pc = .sending d → s.OpenedFor conn d) :
    s.ConnInv c { conn with server := pc } :=
  ⟨h.bare, h.hello, h.nonce, h.readAck, h.writeDataHello, hreadAuth, hinsert, hoffers⟩

/-- The server's task is done with the connection. -/
theorem ends (h : s.ConnInv c conn) (hpc : pc = .done ∨ pc = .closed) :
    s.ConnInv c { conn with server := pc } := by
  rcases hpc with rfl | rfl
  · exact h.server (fun _ _ heq => by cases heq) (fun _ _ heq => by cases heq)
      fun _ heq => by rcases heq with heq | heq <;> cases heq
  · exact h.server (fun _ _ heq => by cases heq) (fun _ _ heq => by cases heq)
      fun _ heq => by rcases heq with heq | heq <;> cases heq

/-- The stream is on its way to the channel it was opened for. -/
theorem offered (h : s.ConnInv c conn) (hopened : s.OpenedFor conn d)
    (hpc : pc = .offering d ∨ pc = .sending d) : s.ConnInv c { conn with server := pc } := by
  refine h.server (fun _ _ heq => ?_) (fun _ _ heq => ?_) fun e heq => ?_
  · rcases hpc with rfl | rfl <;> cases heq
  · rcases hpc with rfl | rfl <;> cases heq
  · rcases hpc with rfl | rfl <;> rcases heq with heq | heq <;> cases heq <;> exact hopened

/-- The server writes to the connection. -/
theorem receives (h : s.ConnInv c conn)
    (hm : ∀ version n, m = .controlChannelHello version n → s.Drawn c n) :
    s.ConnInv c { conn with toClient := conn.toClient ++ [m] } := by
  refine ⟨h.bare, h.hello, fun version n hmem => ?_, h.readAck, h.writeDataHello, h.readAuth,
    h.insert, h.offers⟩
  rcases List.mem_append.mp hmem with hmem | hmem
  · exact h.nonce version n hmem
  · exact hm version n (List.mem_singleton.mp hmem).symm

end ConnInv

theorem owner_cases (p : Party) : p = .adversary ∨ ∃ i, p = .client i := by
  cases p with
  | client i => exact .inr ⟨i, rfl⟩
  | adversary => exact .inl rfl

theorem Inv.close {conn₀ : Conn} (h : s.Inv) (hread : s.ConnInv c conn)
    (hconn : s.conns[c]? = some conn₀) (howner : conn.owner = conn₀.owner)
    (hsession : conn.session = conn₀.session) : (s.close c conn).Inv :=
  h.put hconn howner hsession (hread.ends (.inr rfl))

theorem Inv.greet {conn₀ : Conn} (h : s.Inv) (hread : s.ConnInv c conn)
    (hconn : s.conns[c]? = some conn₀) (howner : conn.owner = conn₀.owner)
    (hsession : conn.session = conn₀.session) (serviceDigest : Word) :
    (s.greet c conn serviceDigest).Inv := by
  let t : Tunnel := { s with drawn := s.drawn ++ [c] }
  have hdrawn : t.Drawn c (.atom (.nonce s.drawn.length)) := ⟨_, rfl, List.getElem?_concat_length⟩
  have hext : s.Extends t := extends_draw c
  refine (h.draw c).write (s := t) hconn howner hsession ?_ ?_
  · intro w hw
    obtain rfl := List.mem_singleton.mp hw
    rfl
  · refine ((hread.mono hext).server ?_ ?_ ?_).receives ?_
    · intro n digest heq
      obtain ⟨rfl, -⟩ := ServerPc.readAuth.inj heq
      exact hdrawn
    · intro key digest heq
      cases heq
    · rintro e (heq | heq) <;> cases heq
    · intro version n heq
      obtain ⟨-, rfl⟩ := Message.controlChannelHello.inj heq
      exact hdrawn

theorem honest_of_owner (hconn : s.conns[c]? = some conn) (howner : conn.owner ≠ .adversary) :
    s.Honest c := by
  rcases owner_cases conn.owner with hadversary | ⟨i, hclient⟩
  · exact absurd hadversary howner
  · exact ⟨i, conn, hconn, hclient⟩

/-- Only a client answers a nonce. -/
theorem Inv.authenticate {conn₀ : Conn} {nonce serviceDigest d : Word} (h : s.Inv)
    (hread : s.ConnInv c conn) (hconn : s.conns[c]? = some conn₀)
    (howner : conn.owner = conn₀.owner) (hsession : conn.session = conn₀.session)
    (hpc : conn.server = .readAuth nonce serviceDigest)
    (hbare : conn.owner = .adversary → Bare (.auth d)) :
    (s.authenticate c conn nonce serviceDigest d).Inv := by
  have hdrawn := hread.readAuth nonce serviceDigest hpc
  unfold Tunnel.authenticate
  split
  · refine h.write hconn howner hsession (fun _ hw => by cases hw) ?_
    refine (hread.ends (.inr rfl)).receives ?_
    exact fun _ _ heq => by cases heq
  · rename_i hequal
    have hd : sessionKey nonce = d := not_not.mp hequal
    have hclient : conn.owner ≠ .adversary := by
      intro hadversary
      have hmentions := hbare hadversary d List.mem_cons_self
      rw [← hd, sessionKey_mentions] at hmentions
      cases hmentions
    have hhonest : s.Honest c := honest_of_owner hconn (howner ▸ hclient)
    have hext : s.Extends { s with acked := s.acked ++ [c] } := .of_eq rfl rfl
    have hacked : { s with acked := s.acked ++ [c] }.Inv := by
      refine h.extended hext rfl h.known (fun c' hc' => ?_) (fun _ _ => .inl) fun _ _ => .inl
      rcases List.mem_append.mp hc' with hc' | hc'
      · exact .inl hc'
      · obtain rfl := List.mem_singleton.mp hc'
        exact .inr hhonest
    refine hacked.write hconn howner hsession (fun _ hw => by cases hw) ?_
    refine ((hread.mono hext).server (fun _ _ heq => by cases heq) ?_ ?_).receives ?_
    · intro key digest heq
      obtain ⟨rfl, -⟩ := ServerPc.insert.inj heq
      exact ⟨⟨nonce, rfl, hext.nonce hdrawn⟩, hclient⟩
    · rintro e (heq | heq) <;> cases heq
    · exact fun _ _ heq => by cases heq

/-- A session key leads to its own channel, and only its client has it. -/
theorem Inv.find {conn₀ : Conn} {key : Word} {version : ProtocolVersion} (h : s.Inv)
    (hread : s.ConnInv d conn) (hconn : s.conns[d]? = some conn₀)
    (howner : conn.owner = conn₀.owner) (hsession : conn.session = conn₀.session)
    (hbare : conn.owner = .adversary → Bare (.dataChannelHello version key))
    (hkey : conn.owner ≠ .adversary → s.SessionKey conn key) : (s.find d conn key).Inv := by
  unfold Tunnel.find
  split
  · rename_i c hlookup
    have hchannel := h.keys key c hlookup
    have hclient : conn.owner ≠ .adversary := by
      intro hadversary
      obtain ⟨nonce, rfl, -⟩ := hchannel
      have hmentions := hbare hadversary _ List.mem_cons_self
      rw [sessionKey_mentions] at hmentions
      cases hmentions
    obtain ⟨c', hsession', hkey', howns⟩ := hkey hclient
    obtain rfl := hchannel.unique hkey'
    obtain ⟨i, hi⟩ := (owner_cases conn.owner).resolve_left hclient
    exact h.put hconn howner hsession
      (hread.offered ⟨i, hi, hsession', hi ▸ howns⟩ (.inl rfl))
  · exact h.close hread hconn howner hsession

theorem Inv.hand (h : s.Inv) (hconn : s.conns[d]? = some conn) (hopened : s.OpenedFor conn c) :
    (s.hand d conn c).Inv := by
  have hext : s.Extends { s with handed := s.handed ++ [(d, c)] } := .of_eq rfl rfl
  have hhanded : { s with handed := s.handed ++ [(d, c)] }.Inv := by
    refine h.extended hext rfl h.known (fun _ => .inl) (fun _ _ => .inl) fun d' c' hdc => ?_
    rcases List.mem_append.mp hdc with hdc | hdc
    · exact .inl hdc
    · obtain ⟨rfl, rfl⟩ := Prod.mk.inj (List.mem_singleton.mp hdc)
      obtain ⟨i, howner, hsession, howns⟩ := hopened
      exact .inr ⟨conn, i, hconn, howner, hsession, howns⟩
  exact hhanded.put hconn rfl rfl (((h.conns d conn hconn).mono hext).ends (.inl rfl))

/-- What waits and what has ended is nobody's secret. -/
theorem Inv.queues (h : s.Inv) (waiting ended : List ConnId) :
    Tunnel.Inv { s with waiting := waiting, ended := ended } :=
  h.extended (.of_eq rfl rfl) rfl h.known (fun _ => .inl) (fun _ _ => .inl) fun _ _ => .inl

theorem Inv.offer (h : s.Inv) (hconn : s.conns[d]? = some conn)
    (hpc : conn.server = .offering c) : (s.offer d conn c).Inv := by
  have hopened := (h.conns d conn hconn).offers c (.inl hpc)
  unfold Tunnel.offer
  split
  · exact (h.hand hconn hopened).queues (s.waiting.erase c) s.ended
  · exact h.put hconn rfl rfl ((h.conns d conn hconn).offered hopened (.inr rfl))

theorem Inv.send (h : s.Inv) (hconn : s.conns[d]? = some conn)
    (hpc : conn.server = .sending c) : (s.send d conn c).Inv := by
  unfold Tunnel.send
  split
  · exact h.close (h.conns d conn hconn) hconn rfl rfl
  · exact h.hand hconn ((h.conns d conn hconn).offers c (.inr hpc))

theorem insertChannel_lookup {key w : Word} (h : (s.insertChannel key c).lookup w = some d) :
    s.channels.lookup w = some d ∨ (w = key ∧ d = c) := by
  unfold insertChannel at h
  split at h
  · exact .inl h
  · rw [HashMap.lookup_insert_eq] at h
    split at h
    · rename_i hw
      exact .inr ⟨hw, (Option.some.inj h).symm⟩
    · exact .inl h

/-- `Ack::Ok` was written, so the channel is a client's. -/
theorem Inv.insert {key serviceDigest : Word} (h : s.Inv) (hconn : s.conns[c]? = some conn)
    (hpc : conn.server = .insert key serviceDigest) :
    Tunnel.Inv
      { s.put c { conn with server := .done } with channels := s.insertChannel key c } := by
  have hold := h.conns c conn hconn
  obtain ⟨hkey, howner⟩ := hold.insert key serviceDigest hpc
  have hhonest := honest_of_owner hconn howner
  have hext : s.Extends { s with channels := s.insertChannel key c } := .of_eq rfl rfl
  have hinserted : { s with channels := s.insertChannel key c }.Inv := by
    refine h.extended hext rfl h.known (fun _ => .inl) (fun w d hd => ?_) fun _ _ => .inl
    rcases insertChannel_lookup hd with hd | ⟨rfl, rfl⟩
    · exact .inl hd
    · exact .inr ⟨hkey, hhonest⟩
  exact hinserted.put hconn rfl rfl ((hold.mono hext).ends (.inl rfl))

/-! ## Every step -/

theorem Inv.serverStep (h : s.Inv) (hconn : s.conns[c]? = some conn)
    (hstep : s.serverStep c conn = some t) : t.Inv := by
  unfold Tunnel.serverStep at hstep
  split at hstep
  · split at hstep
    · cases hstep
    · rename_i m rest hqueue
      obtain rfl := Option.some.inj hstep
      obtain ⟨hread, hbare, hkey⟩ := (h.conns c conn hconn).reads hqueue
      cases m with
      | controlChannelHello version digest =>
          simp only [Tunnel.readsHello]
          split
          · exact h.greet hread hconn rfl rfl digest
          · exact h.close hread hconn rfl rfl
      | dataChannelHello version key =>
          simp only [Tunnel.readsHello]
          split
          · exact h.find hread hconn rfl rfl hbare fun howner => hkey howner version key rfl
          · exact h.close hread hconn rfl rfl
      | auth d => exact h.close hread hconn rfl rfl
      | ack a => exact h.close hread hconn rfl rfl
  · split at hstep
    · cases hstep
    · rename_i nonce serviceDigest hpc _ m rest hqueue
      obtain rfl := Option.some.inj hstep
      obtain ⟨hread, hbare, -⟩ := (h.conns c conn hconn).reads hqueue
      cases m with
      | auth d => exact h.authenticate hread hconn rfl rfl hpc hbare
      | controlChannelHello version digest => exact h.close hread hconn rfl rfl
      | dataChannelHello version digest => exact h.close hread hconn rfl rfl
      | ack a => exact h.close hread hconn rfl rfl
  · rename_i key serviceDigest hpc
    obtain rfl := Option.some.inj hstep
    exact h.insert hconn hpc
  · rename_i channel hpc
    obtain rfl := Option.some.inj hstep
    exact h.offer hconn hpc
  · rename_i channel hpc
    obtain rfl := Option.some.inj hstep
    exact h.send hconn hpc
  · cases hstep
  · cases hstep

namespace ConnInv

variable {m : Message} {rest : List Message} {pc : ClientPc}

/-- The client's task goes on. -/
theorem client (h : s.ConnInv c conn) (howner : conn.owner ≠ .adversary)
    (hreadAck : ∀ key, pc = .readAck key ∨ pc = .established key → s.Key c key)
    (hdata : ∀ key, pc = .writeDataHello key → s.SessionKey conn key) :
    s.ConnInv c { conn with client := pc } :=
  ⟨fun hadversary => absurd hadversary howner, h.hello, h.nonce, hreadAck, hdata, h.readAuth,
    h.insert, h.offers⟩

theorem fails (h : s.ConnInv c conn) : s.ConnInv c { conn with client := .done } :=
  ⟨fun hadversary => ⟨(h.bare hadversary).1, rfl⟩, h.hello, h.nonce,
    fun _ heq => (by rcases heq with heq | heq <;> cases heq), fun _ heq => (by cases heq),
    h.readAuth, h.insert, h.offers⟩

/-- The client's task writes: the hello of a data channel names its session. -/
theorem sends (h : s.ConnInv c conn) (howner : conn.owner ≠ .adversary)
    (hm : ∀ version key, m = .dataChannelHello version key → s.SessionKey conn key) :
    s.ConnInv c { conn with toServer := conn.toServer ++ [m] } := by
  refine ⟨fun hadversary => absurd hadversary howner, fun _ version key hmem => ?_, h.nonce,
    h.readAck, h.writeDataHello, h.readAuth, h.insert, h.offers⟩
  rcases List.mem_append.mp hmem with hmem | hmem
  · exact h.hello howner version key hmem
  · exact hm version key (List.mem_singleton.mp hmem).symm

/-- The client's task reads a message: the nonce in it is the connection's. -/
theorem takes (h : s.ConnInv c conn) (hqueue : conn.toClient = m :: rest) :
    s.ConnInv c { conn with toClient := rest } ∧
      ∀ version n, m = .controlChannelHello version n → s.Drawn c n := by
  refine ⟨⟨h.bare, h.hello, fun version n hmem => ?_, h.readAck, h.writeDataHello, h.readAuth,
    h.insert, h.offers⟩, ?_⟩
  · exact h.nonce version n (hqueue ▸ List.mem_cons_of_mem m hmem)
  · rintro version n rfl
    exact h.nonce version n (hqueue ▸ List.mem_cons_self)

end ConnInv

theorem Inv.fail {conn₀ : Conn} (h : s.Inv) (htakes : s.ConnInv c conn)
    (hconn : s.conns[c]? = some conn₀) (howner : conn.owner = conn₀.owner)
    (hsession : conn.session = conn₀.session) : (s.fail c conn).Inv :=
  h.put hconn howner hsession htakes.fails

theorem Inv.clientStep (h : s.Inv) (hconn : s.conns[c]? = some conn)
    (hstep : s.clientStep c conn = some t) : t.Inv := by
  have hold := h.conns c conn hconn
  have howner : conn.client ≠ .done → conn.owner ≠ .adversary :=
    fun hclient hadversary => hclient (hold.bare hadversary).2
  unfold Tunnel.clientStep at hstep
  split at hstep
  · rename_i service hclient
    obtain rfl := Option.some.inj hstep
    have hown := howner (by rw [hclient]; nofun)
    refine h.put hconn rfl rfl ((hold.sends hown ?_).client hown ?_ ?_)
    · exact fun _ _ heq => by cases heq
    · exact fun _ heq => by rcases heq with heq | heq <;> cases heq
    · exact fun _ heq => by cases heq
  · rename_i hclient
    have hown := howner (by rw [hclient]; nofun)
    split at hstep
    · cases hstep
    · rename_i m rest hqueue
      obtain rfl := Option.some.inj hstep
      obtain ⟨htakes, hnonce⟩ := hold.takes hqueue
      cases m with
      | controlChannelHello version nonce =>
          simp only [Tunnel.answersHello]
          split
          · refine h.put hconn rfl rfl ((htakes.sends hown ?_).client hown ?_ ?_)
            · exact fun _ _ heq => by cases heq
            · rintro key (heq | heq)
              · obtain rfl := ClientPc.readAck.inj heq
                exact ⟨nonce, rfl, hnonce version nonce rfl⟩
              · cases heq
            · exact fun _ heq => by cases heq
          · exact h.fail htakes hconn rfl rfl
      | dataChannelHello version key => exact h.fail htakes hconn rfl rfl
      | auth d => exact h.fail htakes hconn rfl rfl
      | ack a => exact h.fail htakes hconn rfl rfl
  · rename_i key hclient
    have hown := howner (by rw [hclient]; nofun)
    split at hstep
    · cases hstep
    · rename_i m rest hqueue
      obtain rfl := Option.some.inj hstep
      obtain ⟨htakes, -⟩ := hold.takes hqueue
      unfold Tunnel.readsAck
      split
      · refine h.put hconn rfl rfl (htakes.client hown ?_ ?_)
        · rintro key' (heq | heq)
          · cases heq
          · obtain rfl := ClientPc.established.inj heq
            exact hold.readAck _ (.inl hclient)
        · exact fun _ heq => by cases heq
      · exact h.fail htakes hconn rfl rfl
  · rename_i key hclient
    obtain rfl := Option.some.inj hstep
    have hown := howner (by rw [hclient]; nofun)
    refine h.put hconn rfl rfl (hold.sends hown ?_).fails
    intro version key' heq
    obtain ⟨-, rfl⟩ := Message.dataChannelHello.inj heq
    exact hold.writeDataHello key hclient
  · cases hstep
  · cases hstep

theorem Inv.step (h : s.Inv) (hstep : s.step label = some t) : t.Inv := by
  cases label with
  | connect i service =>
      obtain rfl := Option.some.inj hstep
      refine h.accept ⟨nofun, nofun, nofun, ?_, nofun, nofun, nofun, ?_⟩
      · exact fun _ heq => by rcases heq with heq | heq <;> cases heq
      · exact fun _ heq => by rcases heq with heq | heq <;> cases heq
  | connectAdversary =>
      obtain rfl := Option.some.inj hstep
      refine h.accept ⟨fun _ => ⟨nofun, rfl⟩, nofun, nofun, ?_, nofun, nofun, nofun, ?_⟩
      · exact fun _ heq => by rcases heq with heq | heq <;> cases heq
      · exact fun _ heq => by rcases heq with heq | heq <;> cases heq
  | connectData c =>
      obtain ⟨conn, hconn, hopen⟩ := Option.bind_eq_some_iff.mp hstep
      split at hopen
      · rename_i key hclient
        obtain rfl := Option.some.inj hopen
        have hold := h.conns c conn hconn
        refine h.accept ⟨fun hadversary => ?_, nofun, nofun, ?_, ?_, nofun, nofun, ?_⟩
        · exact absurd ((hold.bare hadversary).2.symm.trans hclient) nofun
        · exact fun _ heq => by rcases heq with heq | heq <;> cases heq
        · intro key' heq
          obtain rfl := ClientPc.writeDataHello.inj heq
          exact ⟨c, rfl, hold.readAck _ (.inr hclient), conn, hconn, rfl⟩
        · exact fun _ heq => by rcases heq with heq | heq <;> cases heq
      · cases hopen
  | inject c m =>
      obtain ⟨conn, hconn, hinject⟩ := Option.bind_eq_some_iff.mp hstep
      split at hinject
      · rename_i hallowed
        obtain rfl := Option.some.inj hinject
        have hold := h.conns c conn hconn
        refine h.put hconn rfl rfl ⟨fun hadversary => ⟨fun m' hm' => ?_, (hold.bare hadversary).2⟩,
          fun howner => absurd hallowed.1 howner, hold.nonce, hold.readAck, hold.writeDataHello,
          hold.readAuth, hold.insert, hold.offers⟩
        rcases List.mem_append.mp hm' with hm' | hm'
        · exact (hold.bare hadversary).1 m' hm'
        · obtain rfl := List.mem_singleton.mp hm'
          exact fun w hw => Term.not_mentions_of_derivable rfl h.known w
            (List.all_eq_true.mp hallowed.2 w hw)
      · cases hinject
  | client c =>
      obtain ⟨conn, hconn, hclient⟩ := Option.bind_eq_some_iff.mp hstep
      exact h.clientStep hconn hclient
  | server c =>
      obtain ⟨conn, hconn, hserver⟩ := Option.bind_eq_some_iff.mp hstep
      exact h.serverStep hconn hserver
  | clientFails c =>
      obtain ⟨conn, hconn, hfail⟩ := Option.bind_eq_some_iff.mp hstep
      split at hfail
      · cases hfail
      · obtain rfl := Option.some.inj hfail
        exact h.fail (h.conns c conn hconn) hconn rfl rfl
  | serverFails c =>
      obtain ⟨conn, hconn, rfl⟩ := Option.map_eq_some_iff.mp hstep
      exact h.close (h.conns c conn hconn) hconn rfl rfl
  | leave c =>
      obtain rfl := Option.some.inj hstep
      refine h.extended (.of_eq rfl rfl) rfl h.known (fun _ => .inl) (fun key d hd => ?_)
        fun _ _ => .inl
      exact .inl (HashMap.lookup_retain.mp hd).1
  | request c =>
      obtain ⟨-, hrequest⟩ := Option.ite_none_right_eq_some.mp hstep
      obtain rfl := Option.some.inj hrequest
      exact h.queues (s.waiting ++ [c]) s.ended
  | poolEnds c =>
      obtain ⟨-, hends⟩ := Option.ite_none_right_eq_some.mp hstep
      obtain rfl := Option.some.inj hends
      exact h.queues s.waiting (c :: s.ended)

theorem inv_empty : empty.Inv := by
  refine ⟨nofun, fun c conn hconn => ?_, fun _ _ hd => ?_, nofun, fun _ _ hd => ?_, nofun⟩
  · cases hconn
  · cases hd
  · cases hd

/-- In every run only clients are acknowledged and have control channels, and a control
channel is handed only what its own client opened for it. -/
theorem handshakes_safe (labels : List HandshakeLabel) :
    handshakes.Always Safe handshakes.init labels := by
  have hinv : handshakes.Always Inv handshakes.init labels :=
    Machine.always_of_step (fun _ _ _ h hstep => h.step hstep) labels inv_empty
  exact hinv.mono fun s h => h.safe

/-- A client gets its control channel and a data channel for it; the adversary is given a
nonce and answers with it. -/
example : (handshakes.run handshakes.init
    [.connect 7 1, .connectAdversary, .client 0, .server 0, .client 0, .server 0, .server 0,
     .client 0, .connectData 0, .client 2, .server 2, .server 2, .server 2,
     .inject 1 (.controlChannelHello currentProtoVersion (.atom (.text 1))), .server 1,
     .inject 1 (.auth (.atom (.nonce 1))), .server 1]).map (fun s => (s.acked, s.handed)) =
    some ([0], [(2, 0)]) := by decide +kernel

end Tunnel

end Kdct
