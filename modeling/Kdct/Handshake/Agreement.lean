/-
Whether the handshakes of honest clients come through.

Whatever the adversary sends on connections of its own and however the tasks take turns,
neither side of a client's control channel ever refuses what the other has sent, they do
not wait for each other, and they end with the same session key, under which the
channel is then found.  A data channel of the client is offered to its control channel if
that is in the map when the server reads the hello: a port that waits for one gets it, and
else the pool of the channel does, unless it has ended.

A task may end from outside at any time.  What it has sent before is still read, so the
other side goes on as if it were there: `InPhase` takes the two program counters from a
common phase unless their tasks have ended.
-/
import Kdct.Handshake

namespace Kdct

namespace Tunnel

variable {s t : Tunnel} {c d : ConnId} {conn conn' : Conn} {label : HandshakeLabel}

/-! ## What is to hold -/

/-- The connection was opened by a client to run a control channel. -/
def Control (s : Tunnel) (c : ConnId) (conn : Conn) : Prop :=
  s.conns[c]? = some conn ∧ conn.owner ≠ .adversary ∧ conn.session = none

structure Completes (s : Tunnel) : Prop where
  /-- The server refuses no client. -/
  server : ∀ c conn t conn', s.Control c conn → s.serverStep c conn = some t →
    t.conns[c]? = some conn' → conn'.server ≠ .closed
  /-- No client refuses the server. -/
  client : ∀ c conn t conn', s.Control c conn → s.clientStep c conn = some t →
    t.conns[c]? = some conn' → conn'.client ≠ .done
  /-- They do not wait for each other. -/
  moves : ∀ c conn, s.Control c conn → conn.server ≠ .closed → conn.client ≠ .done →
    (s.serverStep c conn).isSome ∨ (s.clientStep c conn).isSome ∨
      conn.server = .done ∧ ∃ key, conn.client = .established key
  agrees : ∀ c conn key, s.Control c conn → conn.client = .established key →
    c ∈ s.acked ∧ (∀ key' digest, conn.server = .insert key' digest → key' = key) ∧
      ∀ key', s.channels.lookup key' = some c → key' = key
  /-- The key is free when the channel is inserted. -/
  inserts : ∀ (c : ConnId) (conn : Conn) key digest, s.conns[c]? = some conn →
    conn.server = .insert key digest → s.channels.lookup key = none
  /-- A data channel finds the control channel it was opened for. -/
  found : ∀ c d (conn : Conn) t key, s.conns[d]? = some conn → conn.owner ≠ .adversary →
    conn.session = some c → conn.server = .readHello → s.serverStep d conn = some t →
      s.channels.lookup key = some c →
        ∃ conn', t.conns[d]? = some conn' ∧ conn'.server = .offering c
  offered : ∀ c d (conn : Conn) t, s.conns[d]? = some conn → conn.server = .offering c →
    s.serverStep d conn = some t → conn.session = some c ∧
      if c ∈ s.waiting then (d, c) ∈ t.handed
      else ∃ conn', t.conns[d]? = some conn' ∧ conn'.server = .sending c
  sent : ∀ c d (conn : Conn) t, s.conns[d]? = some conn → conn.server = .sending c →
    s.serverStep d conn = some t → conn.session = some c ∧
      if c ∈ s.ended then
        ∃ conn', t.conns[d]? = some conn' ∧ conn'.server = .closed ∧ t.handed = s.handed
      else (d, c) ∈ t.handed

/-! ## Nonces are drawn once -/

structure Nonces (s : Tunnel) : Prop where
  drawn : ∀ (n : Nat) (c : ConnId), s.drawn[n]? = some c → c < s.conns.length
  once : ∀ (n n' : Nat) (c : ConnId), s.drawn[n]? = some c → s.drawn[n']? = some c → n = n'
  fresh : ∀ (c : ConnId) (conn : Conn), s.conns[c]? = some conn → conn.server = .readHello →
    ∀ n : Nat, s.drawn[n]? ≠ some c

theorem Nonces.drawn_unique {nonce nonce' : Word} (h : s.Nonces) (hdrawn : s.Drawn c nonce)
    (hdrawn' : s.Drawn c nonce') : nonce = nonce' := by
  obtain ⟨n, rfl, hn⟩ := hdrawn
  obtain ⟨n', rfl, hn'⟩ := hdrawn'
  rw [h.once n n' c hn hn']

theorem Nonces.key_unique {key key' : Word} (h : s.Nonces) (hkey : s.Key c key)
    (hkey' : s.Key c key') : key = key' := by
  obtain ⟨nonce, rfl, hdrawn⟩ := hkey
  obtain ⟨nonce', rfl, hdrawn'⟩ := hkey'
  rw [h.drawn_unique hdrawn hdrawn']

/-! ## Steps of one connection -/

/-- Only the connection has moved, and what is new is its own. -/
structure Moves (s t : Tunnel) (c : ConnId) (conn conn' : Conn) : Prop where
  conns : t.conns = s.conns.set c conn'
  owner : conn'.owner = conn.owner
  session : conn'.session = conn.session
  drawn : t.drawn = s.drawn ∨ t.drawn = s.drawn ++ [c] ∧ conn.server = .readHello
  hello : conn'.server = .readHello → conn.server = .readHello ∧ t.drawn = s.drawn
  ended : conn.server = .done ∨ conn.server = .closed →
    conn'.server = .done ∨ conn'.server = .closed
  acked : ∀ d ∈ s.acked, d ∈ t.acked
  channels : ∀ key d, t.channels.lookup key = some d →
    s.channels.lookup key = some d ∨ d = c ∧ s.Key c key ∧ conn'.server = .done

/-- A step that leaves nothing but the connection different. -/
theorem moves_put (howner : conn'.owner = conn.owner) (hsession : conn'.session = conn.session)
    (hhello : conn'.server = .readHello → conn.server = .readHello)
    (hended : conn.server = .done ∨ conn.server = .closed →
      conn'.server = .done ∨ conn'.server = .closed) : s.Moves (s.put c conn') c conn conn' :=
  ⟨rfl, howner, hsession, .inl rfl, fun h => ⟨hhello h, rfl⟩, hended, fun _ => id,
    fun _ _ => .inl⟩

theorem Moves.self (h : s.Moves t c conn conn') (hconn : s.conns[c]? = some conn) :
    t.conns[c]? = some conn' := by
  rw [h.conns]
  exact List.getElem?_set_self (List.getElem?_eq_some_iff.mp hconn).1

theorem Moves.other (h : s.Moves t c conn conn') (hne : c ≠ d) : t.conns[d]? = s.conns[d]? := by
  rw [h.conns]
  exact List.getElem?_set_ne hne

theorem Moves.extends (h : s.Moves t c conn conn') (hconn : s.conns[c]? = some conn) :
    s.Extends t := by
  refine ⟨fun n e he => ?_, fun e old hold => ?_⟩
  · rcases h.drawn with hsame | ⟨hnew, -⟩
    · exact hsame ▸ he
    · rw [hnew]
      exact (List.getElem?_append_left (List.getElem?_eq_some_iff.mp he).1).trans he
  · by_cases hne : c = e
    · subst hne
      obtain rfl := Option.some.inj (hconn.symm.trans hold)
      exact ⟨conn', h.self hconn, h.owner, h.session⟩
    · exact ⟨old, (h.other hne).trans hold, rfl, rfl⟩

/-- A nonce that is new was drawn for the connection. -/
theorem Moves.of_drawn {n : Nat} (h : s.Moves t c conn conn') (hn : t.drawn[n]? = some d) :
    s.drawn[n]? = some d ∨ d = c ∧ n = s.drawn.length ∧ conn.server = .readHello ∧
      conn'.server ≠ .readHello := by
  rcases h.drawn with hsame | ⟨hnew, hserver⟩
  · exact .inl (hsame ▸ hn)
  · rw [hnew, List.getElem?_append] at hn
    split at hn
    · exact .inl hn
    · rename_i hlen
      have hlt : n - s.drawn.length < [c].length := (List.getElem?_eq_some_iff.mp hn).1
      have hat : n = s.drawn.length := by
        rw [List.length_singleton] at hlt
        omega
      rw [hat, Nat.sub_self] at hn
      obtain rfl := Option.some.inj hn
      refine .inr ⟨rfl, hat, hserver, fun hhello => ?_⟩
      have hsame := (h.hello hhello).2
      rw [hsame] at hnew
      exact absurd hnew (by simp)

theorem Nonces.moves (h : s.Nonces) (hconn : s.conns[c]? = some conn)
    (hmoves : s.Moves t c conn conn') : t.Nonces := by
  have hlen : t.conns.length = s.conns.length := by
    rw [hmoves.conns, List.length_set]
  refine ⟨fun n e he => ?_, fun n n' e he he' => ?_, fun e other hother hserver n hn => ?_⟩
  · rw [hlen]
    rcases hmoves.of_drawn he with he | ⟨rfl, -, -⟩
    · exact h.drawn n e he
    · exact (List.getElem?_eq_some_iff.mp hconn).1
  · rcases hmoves.of_drawn he with he | ⟨rfl, hn, hhello, -⟩
    · rcases hmoves.of_drawn he' with he' | ⟨rfl, hn', hhello, -⟩
      · exact h.once n n' e he he'
      · exact absurd he (h.fresh e conn hconn hhello n)
    · rcases hmoves.of_drawn he' with he' | ⟨-, hn', -, -⟩
      · exact absurd he' (h.fresh e conn hconn hhello n')
      · rw [hn, hn']
  · by_cases hne : c = e
    · subst hne
      obtain rfl := Option.some.inj ((hmoves.self hconn).symm.trans hother)
      obtain ⟨hhello, hsame⟩ := hmoves.hello hserver
      rw [hsame] at hn
      exact h.fresh c conn hconn hhello n hn
    · rw [hmoves.other hne] at hother
      rcases hmoves.of_drawn hn with hn | ⟨heq, -⟩
      · exact h.fresh e other hother hserver n hn
      · exact hne heq.symm

/-! ## Every step moves one connection -/

theorem moves_write {conn₀ : Conn} {m : Message} {drawn acked : List ConnId}
    (howner : conn.owner = conn₀.owner) (hsession : conn.session = conn₀.session)
    (hserver : conn.server ≠ .readHello)
    (hstarted : ¬(conn₀.server = .done ∨ conn₀.server = .closed))
    (hdrawn : drawn = s.drawn ∨ drawn = s.drawn ++ [c] ∧ conn₀.server = .readHello)
    (hacked : ∀ d ∈ s.acked, d ∈ acked) :
    s.Moves ({ s with drawn := drawn, acked := acked }.write c conn m) c conn₀
      { conn with toClient := conn.toClient ++ [m] } :=
  ⟨rfl, howner, hsession, hdrawn, fun h => absurd h hserver,
    fun h => absurd h hstarted, hacked, fun _ _ => .inl⟩

theorem moves_close (howner : conn'.owner = conn.owner) (hsession : conn'.session = conn.session) :
    s.Moves (s.close c conn') c conn { conn' with server := .closed } :=
  moves_put howner hsession nofun fun _ => .inr rfl

theorem moves_readsHello {rest : List Message} (hpc : conn.server = .readHello) (m : Message) :
    ∃ conn', s.Moves (s.readsHello c { conn with toServer := rest } m) c conn conn' := by
  have hstarted : ¬(conn.server = .done ∨ conn.server = .closed) := by
    rw [hpc]
    simp
  cases m with
  | controlChannelHello version digest =>
      simp only [readsHello]
      split
      · exact ⟨_, moves_write rfl rfl (by simp) hstarted (.inr ⟨rfl, hpc⟩) fun _ => id⟩
      · exact ⟨_, moves_close rfl rfl⟩
  | dataChannelHello version key =>
      simp only [readsHello]
      split
      · unfold find
        split
        · exact ⟨_, moves_put rfl rfl (fun h => by cases h) fun h => absurd h hstarted⟩
        · exact ⟨_, moves_close rfl rfl⟩
      · exact ⟨_, moves_close rfl rfl⟩
  | auth d => exact ⟨_, moves_close rfl rfl⟩
  | ack a => exact ⟨_, moves_close rfl rfl⟩

theorem moves_readsAuth {rest : List Message} {nonce digest : Word}
    (hpc : conn.server = .readAuth nonce digest) (m : Message) :
    ∃ conn',
      s.Moves (s.readsAuth c { conn with toServer := rest } nonce digest m) c conn conn' := by
  have hstarted : ¬(conn.server = .done ∨ conn.server = .closed) := by
    rw [hpc]
    simp
  cases m with
  | auth d =>
      simp only [readsAuth, authenticate]
      split
      · exact ⟨_, moves_write rfl rfl (by simp) hstarted (.inl rfl) fun _ => id⟩
      · exact ⟨_, moves_write rfl rfl (by simp) hstarted (.inl rfl) fun _ =>
          List.mem_append_left [c]⟩
  | controlChannelHello version digest => exact ⟨_, moves_close rfl rfl⟩
  | dataChannelHello version digest => exact ⟨_, moves_close rfl rfl⟩
  | ack a => exact ⟨_, moves_close rfl rfl⟩

theorem moves_hand (c d : ConnId) (conn : Conn) (waiting : List ConnId) :
    s.Moves { s.hand c conn d with waiting := waiting } c conn { conn with server := .done } :=
  ⟨rfl, rfl, rfl, .inl rfl, fun h => (by cases h), fun _ => .inl rfl, fun _ => id,
    fun _ _ => .inl⟩

theorem moves_offer (hpc : conn.server = .offering d) :
    ∃ conn', s.Moves (s.offer c conn d) c conn conn' := by
  unfold offer
  split
  · exact ⟨_, moves_hand c d conn _⟩
  · refine ⟨_, moves_put rfl rfl (fun h => by cases h) fun h => ?_⟩
    rw [hpc] at h
    rcases h with h | h <;> cases h

theorem moves_send (c d : ConnId) (conn : Conn) :
    ∃ conn', s.Moves (s.send c conn d) c conn conn' := by
  unfold send
  split
  · exact ⟨_, moves_close rfl rfl⟩
  · exact ⟨_, moves_hand c d conn s.waiting⟩

theorem moves_serverStep (h : s.Inv) (hconn : s.conns[c]? = some conn)
    (hstep : s.serverStep c conn = some t) : ∃ conn', s.Moves t c conn conn' := by
  unfold serverStep at hstep
  split at hstep
  · rename_i hpc
    split at hstep
    · cases hstep
    · obtain rfl := Option.some.inj hstep
      exact moves_readsHello hpc _
  · rename_i nonce digest hpc
    split at hstep
    · cases hstep
    · obtain rfl := Option.some.inj hstep
      exact moves_readsAuth hpc _
  · rename_i key digest hpc
    obtain rfl := Option.some.inj hstep
    have hkey := ((h.conns c conn hconn).insert key digest hpc).1
    refine ⟨_, rfl, rfl, rfl, .inl rfl, nofun, fun _ => .inl rfl, fun _ => id, fun w d hd => ?_⟩
    rcases insertChannel_lookup hd with hd | ⟨rfl, rfl⟩
    · exact .inl hd
    · exact .inr ⟨rfl, hkey, rfl⟩
  · rename_i channel hpc
    obtain rfl := Option.some.inj hstep
    exact moves_offer hpc
  · rename_i channel _
    obtain rfl := Option.some.inj hstep
    exact moves_send c channel conn
  · cases hstep
  · cases hstep

/-- The client's task changes neither the server's nor what is new. -/
theorem moves_clientStep (hstep : s.clientStep c conn = some t) :
    ∃ conn', s.Moves t c conn conn' ∧ conn'.server = conn.server := by
  have hput : ∀ conn' : Conn, conn'.owner = conn.owner → conn'.session = conn.session →
      conn'.server = conn.server →
        ∃ conn'', s.Moves (s.put c conn') c conn conn'' ∧ conn''.server = conn.server := by
    intro conn' howner hsession hserver
    exact ⟨conn', moves_put howner hsession (fun h => hserver ▸ h) (fun h => hserver ▸ h), hserver⟩
  unfold clientStep at hstep
  split at hstep
  · obtain rfl := Option.some.inj hstep
    exact hput _ rfl rfl rfl
  · split at hstep
    · cases hstep
    · rename_i m rest _
      obtain rfl := Option.some.inj hstep
      cases m with
      | controlChannelHello version nonce =>
          simp only [answersHello]
          split
          · exact hput _ rfl rfl rfl
          · exact hput _ rfl rfl rfl
      | dataChannelHello version digest => exact hput _ rfl rfl rfl
      | auth digest => exact hput _ rfl rfl rfl
      | ack a => exact hput _ rfl rfl rfl
  · split at hstep
    · cases hstep
    · obtain rfl := Option.some.inj hstep
      unfold readsAck
      split
      · exact hput _ rfl rfl rfl
      · exact hput _ rfl rfl rfl
  · obtain rfl := Option.some.inj hstep
    exact hput _ rfl rfl rfl
  · cases hstep
  · cases hstep

/-! ## The phases of a handshake -/

/-- The two tasks and what is between them, as long as neither has ended from outside. -/
inductive Phase (s : Tunnel) (c : ConnId) :
    ClientPc → ServerPc → List Message → List Message → Prop
  | connected (service : Nat) : Phase s c (.writeHello service) .readHello [] []
  | hello (digest : Word) :
      Phase s c .readHello .readHello [.controlChannelHello currentProtoVersion digest] []
  | challenged {nonce : Word} (digest : Word) : s.Drawn c nonce →
      Phase s c .readHello (.readAuth nonce digest) []
        [.controlChannelHello currentProtoVersion nonce]
  | answered {nonce : Word} (digest : Word) : s.Drawn c nonce →
      Phase s c (.readAck (sessionKey nonce)) (.readAuth nonce digest)
        [.auth (sessionKey nonce)] []
  | acked {nonce : Word} (digest : Word) : s.Drawn c nonce → c ∈ s.acked →
      Phase s c (.readAck (sessionKey nonce)) (.insert (sessionKey nonce) digest) [] [.ack .ok]
  | established {nonce : Word} (digest : Word) : s.Drawn c nonce → c ∈ s.acked →
      Phase s c (.established (sessionKey nonce)) (.insert (sessionKey nonce) digest) [] []
  | inserted {nonce : Word} : s.Drawn c nonce → c ∈ s.acked →
      Phase s c (.readAck (sessionKey nonce)) .done [] [.ack .ok]
  | through {nonce : Word} : s.Drawn c nonce → c ∈ s.acked →
      Phase s c (.established (sessionKey nonce)) .done [] []

/-- A phase from which the tasks that have ended are taken away. -/
def InPhase (s : Tunnel) (c : ConnId) (conn : Conn) : Prop :=
  ∃ client server, s.Phase c client server conn.toServer conn.toClient ∧
    (conn.client = client ∨ conn.client = .done) ∧
      (conn.server = server ∨ conn.server = .closed)

variable {client : ClientPc} {server : ServerPc} {toServer toClient : List Message}

theorem Phase.mono (h : s.Phase c client server toServer toClient) (hext : s.Extends t)
    (hacked : ∀ d ∈ s.acked, d ∈ t.acked) : t.Phase c client server toServer toClient := by
  cases h with
  | connected service => exact .connected service
  | hello digest => exact .hello digest
  | challenged digest hdrawn => exact .challenged digest (hext.nonce hdrawn)
  | answered digest hdrawn => exact .answered digest (hext.nonce hdrawn)
  | acked digest hdrawn hack => exact .acked digest (hext.nonce hdrawn) (hacked c hack)
  | established digest hdrawn hack => exact .established digest (hext.nonce hdrawn) (hacked c hack)
  | inserted hdrawn hack => exact .inserted (hext.nonce hdrawn) (hacked c hack)
  | through hdrawn hack => exact .through (hext.nonce hdrawn) (hacked c hack)

theorem InPhase.mono (h : s.InPhase c conn) (hext : s.Extends t)
    (hacked : ∀ d ∈ s.acked, d ∈ t.acked) : t.InPhase c conn := by
  obtain ⟨client, server, hphase, hclient, hserver⟩ := h
  exact ⟨client, server, hphase.mono hext hacked, hclient, hserver⟩

theorem InPhase.closes (h : s.InPhase c conn) : s.InPhase c { conn with server := .closed } := by
  obtain ⟨client, server, hphase, hclient, -⟩ := h
  exact ⟨client, server, hphase, hclient, .inr rfl⟩

theorem InPhase.fails (h : s.InPhase c conn) : s.InPhase c { conn with client := .done } := by
  obtain ⟨client, server, hphase, -, hserver⟩ := h
  exact ⟨client, server, hphase, .inr rfl, hserver⟩

/-- The server's task reaches the next phase. -/
theorem InPhase.serverStep (h : s.InPhase c conn) (hconn : s.conns[c]? = some conn)
    (hstep : s.serverStep c conn = some t) :
    ∃ conn', t.conns[c]? = some conn' ∧ t.InPhase c conn' ∧ conn'.server ≠ .closed := by
  have hlt : c < s.conns.length := (List.getElem?_eq_some_iff.mp hconn).1
  obtain ⟨client, server, hphase, hclient, hserver⟩ := h
  rcases hserver with hserver | hclosed
  · rw [Tunnel.serverStep, hserver] at hstep
    generalize hqueue : conn.toServer = toServer at hphase
    generalize hreplies : conn.toClient = toClient at hphase
    cases hphase with
    | connected service | challenged digest hdrawn =>
        rw [hqueue] at hstep
        cases hstep
    | hello digest =>
        rw [hqueue] at hstep
        obtain rfl := Option.some.inj hstep
        refine ⟨_, List.getElem?_set_self hlt, ⟨.readHello, _, ?_, hclient, .inl rfl⟩, nofun⟩
        dsimp only
        rw [hreplies]
        exact .challenged digest ⟨_, rfl, List.getElem?_concat_length⟩
    | answered digest hdrawn =>
        rw [hqueue] at hstep
        obtain rfl := Option.some.inj hstep
        rw [readsAuth, authenticate, if_neg (not_not.mpr rfl)]
        refine ⟨_, List.getElem?_set_self hlt, ⟨_, _, ?_, hclient, .inl rfl⟩, nofun⟩
        dsimp only
        rw [hreplies]
        exact .acked digest hdrawn (List.mem_append_right s.acked List.mem_cons_self)
    | acked digest hdrawn hack =>
        obtain rfl := Option.some.inj hstep
        refine ⟨_, List.getElem?_set_self hlt, ⟨_, _, ?_, hclient, .inl rfl⟩, nofun⟩
        dsimp only
        rw [hqueue, hreplies]
        exact .inserted hdrawn hack
    | established digest hdrawn hack =>
        obtain rfl := Option.some.inj hstep
        refine ⟨_, List.getElem?_set_self hlt, ⟨_, _, ?_, hclient, .inl rfl⟩, nofun⟩
        dsimp only
        rw [hqueue, hreplies]
        exact .through hdrawn hack
    | inserted hdrawn hack | through hdrawn hack => cases hstep
  · rw [Tunnel.serverStep, hclosed] at hstep
    cases hstep

theorem InPhase.clientStep (h : s.InPhase c conn) (hconn : s.conns[c]? = some conn)
    (hstep : s.clientStep c conn = some t) :
    ∃ conn', t.conns[c]? = some conn' ∧ t.InPhase c conn' ∧ conn'.client ≠ .done := by
  have hlt : c < s.conns.length := (List.getElem?_eq_some_iff.mp hconn).1
  obtain ⟨client, server, hphase, hclient, hserver⟩ := h
  rcases hclient with hclient | hdone
  · rw [Tunnel.clientStep, hclient] at hstep
    generalize hqueue : conn.toServer = toServer at hphase
    generalize hreplies : conn.toClient = toClient at hphase
    cases hphase with
    | connected service =>
        obtain rfl := Option.some.inj hstep
        refine ⟨_, List.getElem?_set_self hlt, ⟨_, .readHello, ?_, .inl rfl, hserver⟩, nofun⟩
        dsimp only
        rw [hqueue, hreplies]
        exact .hello _
    | challenged digest hdrawn =>
        rw [hreplies] at hstep
        obtain rfl := Option.some.inj hstep
        refine ⟨_, List.getElem?_set_self hlt, ⟨_, _, ?_, .inl rfl, hserver⟩, nofun⟩
        dsimp only
        rw [hqueue]
        exact .answered digest hdrawn
    | acked digest hdrawn hack =>
        rw [hreplies] at hstep
        obtain rfl := Option.some.inj hstep
        refine ⟨_, List.getElem?_set_self hlt, ⟨_, _, ?_, .inl rfl, hserver⟩, nofun⟩
        dsimp only
        rw [hqueue]
        exact .established digest hdrawn hack
    | inserted hdrawn hack =>
        rw [hreplies] at hstep
        obtain rfl := Option.some.inj hstep
        refine ⟨_, List.getElem?_set_self hlt, ⟨_, _, ?_, .inl rfl, hserver⟩, nofun⟩
        dsimp only
        rw [hqueue]
        exact .through hdrawn hack
    | hello digest | answered digest hdrawn =>
        rw [hreplies] at hstep
        cases hstep
    | established digest hdrawn hack | through hdrawn hack => cases hstep
  · rw [Tunnel.clientStep, hdone] at hstep
    cases hstep

/-- A task that has not ended can go on, or the other one can. -/
theorem InPhase.moves (h : s.InPhase c conn) (hserver : conn.server ≠ .closed)
    (hclient : conn.client ≠ .done) :
    (s.serverStep c conn).isSome ∨ (s.clientStep c conn).isSome ∨
      conn.server = .done ∧ ∃ key, conn.client = .established key := by
  obtain ⟨client, server, hphase, hclient', hserver'⟩ := h
  have hclient' := hclient'.resolve_right hclient
  have hserver' := hserver'.resolve_right hserver
  rw [Tunnel.serverStep, Tunnel.clientStep, hclient', hserver']
  generalize hqueue : conn.toServer = toServer at hphase
  generalize hreplies : conn.toClient = toClient at hphase
  cases hphase with
  | hello digest | answered digest hdrawn => exact .inl rfl
  | acked digest hdrawn hack | established digest hdrawn hack => exact .inl rfl
  | connected service | challenged digest hdrawn => exact .inr (.inl rfl)
  | inserted hdrawn hack => exact .inr (.inl rfl)
  | through hdrawn hack => exact .inr (.inr ⟨rfl, _, rfl⟩)

/-- An established client was acknowledged. -/
theorem InPhase.mem_acked {key : Word} (h : s.InPhase c conn)
    (hclient : conn.client = .established key) : c ∈ s.acked := by
  obtain ⟨client, server, hphase, hclient', -⟩ := h
  generalize conn.toServer = toServer at hphase
  generalize conn.toClient = toClient at hphase
  rw [hclient] at hclient'
  rcases hclient' with rfl | hdone
  · cases hphase with
    | established digest hdrawn hack => exact hack
    | through hdrawn hack => exact hack
  · cases hdone

/-! ## Data channels -/

/-- Where the server's task of a data channel can be. -/
def ServesData : ServerPc → Prop
  | .readAuth _ _ | .insert _ _ => False
  | _ => True

/-- A client's connection that was opened as a data channel. -/
structure DataConn (conn : Conn) : Prop where
  client : conn.client = .done ∨ ∃ key, conn.client = .writeDataHello key
  server : ServesData conn.server
  toServer : ∀ m ∈ conn.toServer, ∃ key, m = .dataChannelHello currentProtoVersion key

/-- The server's task goes on with a data channel. -/
theorem DataConn.goesOn {pc : ServerPc} (h : DataConn conn) (hpc : ServesData pc) :
    DataConn { conn with server := pc } :=
  ⟨h.client, hpc, h.toServer⟩

theorem DataConn.find {key : Word} (h : DataConn conn) (hlt : c < s.conns.length) :
    ∃ conn', (s.find c conn key).conns[c]? = some conn' ∧ DataConn conn' := by
  unfold Tunnel.find
  split
  · exact ⟨_, List.getElem?_set_self hlt, h.goesOn trivial⟩
  · exact ⟨_, List.getElem?_set_self hlt, h.goesOn trivial⟩

theorem DataConn.serverStep (h : DataConn conn) (hconn : s.conns[c]? = some conn)
    (hstep : s.serverStep c conn = some t) :
    ∃ conn', t.conns[c]? = some conn' ∧ DataConn conn' := by
  have hlt : c < s.conns.length := (List.getElem?_eq_some_iff.mp hconn).1
  cases hpc : conn.server with
  | readHello =>
      rw [Tunnel.serverStep, hpc] at hstep
      cases hqueue : conn.toServer with
      | nil =>
          rw [hqueue] at hstep
          cases hstep
      | cons m rest =>
          rw [hqueue] at hstep
          obtain rfl := Option.some.inj hstep
          obtain ⟨key, rfl⟩ := h.toServer m (hqueue ▸ List.mem_cons_self)
          have hread : DataConn { conn with toServer := rest } :=
            ⟨h.client, h.server, fun m hm => h.toServer m (hqueue ▸ List.mem_cons_of_mem _ hm)⟩
          rw [readsHello, if_pos rfl]
          exact hread.find hlt
  | readAuth n digest | insert key digest =>
      have hserver := h.server
      rw [hpc] at hserver
      exact hserver.elim
  | offering d =>
      rw [Tunnel.serverStep, hpc] at hstep
      obtain rfl := Option.some.inj hstep
      unfold offer
      split
      · exact ⟨_, List.getElem?_set_self hlt, h.goesOn trivial⟩
      · exact ⟨_, List.getElem?_set_self hlt, h.goesOn trivial⟩
  | sending d =>
      rw [Tunnel.serverStep, hpc] at hstep
      obtain rfl := Option.some.inj hstep
      unfold send
      split
      · exact ⟨_, List.getElem?_set_self hlt, h.goesOn trivial⟩
      · exact ⟨_, List.getElem?_set_self hlt, h.goesOn trivial⟩
  | done | closed =>
      rw [Tunnel.serverStep, hpc] at hstep
      cases hstep

theorem DataConn.clientStep (h : DataConn conn) (hconn : s.conns[c]? = some conn)
    (hstep : s.clientStep c conn = some t) :
    ∃ conn', t.conns[c]? = some conn' ∧ DataConn conn' := by
  have hlt : c < s.conns.length := (List.getElem?_eq_some_iff.mp hconn).1
  rcases h.client with hpc | ⟨key, hpc⟩
  · rw [Tunnel.clientStep, hpc] at hstep
    cases hstep
  · rw [Tunnel.clientStep, hpc] at hstep
    obtain rfl := Option.some.inj hstep
    refine ⟨_, List.getElem?_set_self hlt, .inl rfl, h.server, fun m hm => ?_⟩
    rcases List.mem_append.mp hm with hm | hm
    · exact h.toServer m hm
    · exact ⟨key, List.mem_singleton.mp hm⟩

/-! ## Runs -/

structure Paired (s : Tunnel) : Prop where
  inv : s.Inv
  nonces : s.Nonces
  /-- A channel in the map was inserted by its connection's task. -/
  entered : ∀ key c conn, s.channels.lookup key = some c → s.conns[c]? = some conn →
    conn.server = .done ∨ conn.server = .closed
  control : ∀ c conn, s.Control c conn → s.InPhase c conn
  data : ∀ (c : ConnId) (conn : Conn), s.conns[c]? = some conn → conn.owner ≠ .adversary →
    conn.session ≠ none → DataConn conn

/-- One connection moves, and what it may be afterwards is known. -/
theorem Paired.moves (h : s.Paired) (hinv : t.Inv) (hconn : s.conns[c]? = some conn)
    (hmoves : s.Moves t c conn conn')
    (hcontrol : s.Control c conn → t.InPhase c conn')
    (hdata : conn.owner ≠ .adversary → conn.session ≠ none → DataConn conn') : t.Paired := by
  have hext := hmoves.extends hconn
  refine ⟨hinv, h.nonces.moves hconn hmoves, fun key d e hd he => ?_, fun d e he => ?_,
    fun d e he howner hsession => ?_⟩
  · by_cases hne : c = d
    · subst hne
      obtain rfl := Option.some.inj ((hmoves.self hconn).symm.trans he)
      rcases hmoves.channels key c hd with hold | ⟨-, -, hdone⟩
      · exact hmoves.ended (h.entered key c conn hold hconn)
      · exact .inl hdone
    · rw [hmoves.other hne] at he
      rcases hmoves.channels key d hd with hold | ⟨heq, -⟩
      · exact h.entered key d e hold he
      · exact absurd heq.symm hne
  · obtain ⟨he, howner, hsession⟩ := he
    by_cases hne : c = d
    · subst hne
      obtain rfl := Option.some.inj ((hmoves.self hconn).symm.trans he)
      exact hcontrol ⟨hconn, hmoves.owner ▸ howner, hmoves.session ▸ hsession⟩
    · rw [hmoves.other hne] at he
      exact (h.control d e ⟨he, howner, hsession⟩).mono hext hmoves.acked
  · by_cases hne : c = d
    · subst hne
      obtain rfl := Option.some.inj ((hmoves.self hconn).symm.trans he)
      exact hdata (hmoves.owner ▸ howner) (hmoves.session ▸ hsession)
    · rw [hmoves.other hne] at he
      exact h.data d e he howner hsession

theorem accept_cases {owner : Party} {session : Option ConnId} {client : ClientPc}
    (h : (s.accept owner session client).conns[d]? = some conn) :
    s.conns[d]? = some conn ∨
      d = s.conns.length ∧ conn = ⟨owner, session, .readHello, client, [], []⟩ := by
  rcases Nat.lt_or_ge d s.conns.length with hd | hd
  · exact .inl ((List.getElem?_append_left hd).symm.trans h)
  · have hat : [(⟨owner, session, .readHello, client, [], []⟩ : Conn)][d - s.conns.length]? =
        some conn := (List.getElem?_append_right hd).symm.trans h
    obtain ⟨hlt, rfl⟩ := List.getElem?_eq_some_iff.mp hat
    obtain rfl : d = s.conns.length :=
      Nat.le_antisymm (Nat.sub_eq_zero_iff_le.mp (Nat.lt_one_iff.mp hlt)) hd
    refine .inr ⟨rfl, ?_⟩
    simp only [Nat.sub_self, List.getElem_cons_zero]

theorem Paired.accept {owner : Party} {session : Option ConnId} {client : ClientPc} (h : s.Paired)
    (hinv : (s.accept owner session client).Inv)
    (hcontrol : owner ≠ .adversary → session = none → ∃ service, client = .writeHello service)
    (hdata : owner ≠ .adversary → session ≠ none → ∃ key, client = .writeDataHello key) :
    (s.accept owner session client).Paired := by
  have hext : s.Extends (s.accept owner session client) :=
    ⟨fun _ _ hn => hn, fun d e he =>
      ⟨e, (List.getElem?_append_left (List.getElem?_eq_some_iff.mp he).1).trans he, rfl, rfl⟩⟩
  refine ⟨hinv, ⟨fun n d hn => ?_, h.nonces.once, fun d e he hpc n hn => ?_⟩,
    fun key d e hd he => ?_, fun d e he => ?_, fun d e he howner hsession => ?_⟩
  · rw [Tunnel.accept, List.length_append]
    exact Nat.lt_add_right _ (h.nonces.drawn n d hn)
  · rcases accept_cases he with he | ⟨rfl, -⟩
    · exact h.nonces.fresh d e he hpc n hn
    · exact absurd (h.nonces.drawn n _ hn) (lt_irrefl _)
  · rcases accept_cases he with he | ⟨rfl, -⟩
    · exact h.entered key d e hd he
    · obtain ⟨nonce, -, n, -, hn⟩ := h.inv.keys key _ hd
      exact absurd (h.nonces.drawn n _ hn) (lt_irrefl _)
  · obtain ⟨he, howner, hsession⟩ := he
    rcases accept_cases he with he | ⟨rfl, rfl⟩
    · exact (h.control d e ⟨he, howner, hsession⟩).mono hext fun _ => id
    · obtain ⟨service, rfl⟩ := hcontrol howner hsession
      exact ⟨_, _, .connected service, .inl rfl, .inl rfl⟩
  · rcases accept_cases he with he | ⟨rfl, rfl⟩
    · exact h.data d e he howner hsession
    · exact ⟨.inr (hdata howner hsession), trivial, nofun⟩

theorem Paired.queues {waiting ended : List ConnId} (h : s.Paired)
    (hinv : Tunnel.Inv { s with waiting := waiting, ended := ended }) :
    Tunnel.Paired { s with waiting := waiting, ended := ended } := by
  have hext : s.Extends { s with waiting := waiting, ended := ended } := .of_eq rfl rfl
  exact ⟨hinv, ⟨h.nonces.drawn, h.nonces.once, h.nonces.fresh⟩, h.entered,
    fun d e he => (h.control d e he).mono hext fun _ => id, h.data⟩

/-- Whatever else moves, a channel and its map agree about the key. -/
theorem Paired.step (h : s.Paired) (hstep : s.step label = some t) : t.Paired := by
  have hinv : t.Inv := h.inv.step hstep
  cases label with
  | connect i service =>
      obtain rfl := Option.some.inj hstep
      exact h.accept hinv (fun _ _ => ⟨service, rfl⟩) fun _ hsession => absurd rfl hsession
  | connectAdversary =>
      obtain rfl := Option.some.inj hstep
      exact h.accept hinv (fun howner => absurd rfl howner) fun howner => absurd rfl howner
  | connectData c =>
      obtain ⟨conn, hconn, hopen⟩ := Option.bind_eq_some_iff.mp hstep
      split at hopen
      · rename_i key hclient
        obtain rfl := Option.some.inj hopen
        exact h.accept hinv nofun fun _ _ => ⟨key, rfl⟩
      · cases hopen
  | inject c m =>
      obtain ⟨conn, hconn, hinject⟩ := Option.bind_eq_some_iff.mp hstep
      split at hinject
      · rename_i hallowed
        obtain rfl := Option.some.inj hinject
        exact h.moves hinv hconn (moves_put rfl rfl id id)
          (fun hcontrol => absurd hallowed.1 hcontrol.2.1) fun howner => absurd hallowed.1 howner
      · cases hinject
  | client c =>
      obtain ⟨conn, hconn, hclient⟩ := Option.bind_eq_some_iff.mp hstep
      obtain ⟨conn', hmoves, -⟩ := moves_clientStep hclient
      refine h.moves hinv hconn hmoves (fun hcontrol => ?_) fun howner hsession => ?_
      · obtain ⟨next, hnext, hphase, -⟩ := (h.control c conn hcontrol).clientStep hconn hclient
        obtain rfl := Option.some.inj ((hmoves.self hconn).symm.trans hnext)
        exact hphase
      · obtain ⟨next, hnext, hdata⟩ :=
          (h.data c conn hconn howner hsession).clientStep hconn hclient
        obtain rfl := Option.some.inj ((hmoves.self hconn).symm.trans hnext)
        exact hdata
  | server c =>
      obtain ⟨conn, hconn, hserver⟩ := Option.bind_eq_some_iff.mp hstep
      obtain ⟨conn', hmoves⟩ := moves_serverStep h.inv hconn hserver
      refine h.moves hinv hconn hmoves (fun hcontrol => ?_) fun howner hsession => ?_
      · obtain ⟨next, hnext, hphase, -⟩ := (h.control c conn hcontrol).serverStep hconn hserver
        obtain rfl := Option.some.inj ((hmoves.self hconn).symm.trans hnext)
        exact hphase
      · obtain ⟨next, hnext, hdata⟩ :=
          (h.data c conn hconn howner hsession).serverStep hconn hserver
        obtain rfl := Option.some.inj ((hmoves.self hconn).symm.trans hnext)
        exact hdata
  | clientFails c =>
      obtain ⟨conn, hconn, hfail⟩ := Option.bind_eq_some_iff.mp hstep
      split at hfail
      · cases hfail
      · obtain rfl := Option.some.inj hfail
        have hmoves : s.Moves (s.fail c conn) c conn { conn with client := .done } :=
          moves_put rfl rfl id id
        refine h.moves hinv hconn hmoves (fun hcontrol => ?_) fun howner hsession => ?_
        · exact (h.control c conn hcontrol).fails.mono (hmoves.extends hconn) hmoves.acked
        · have hold := h.data c conn hconn howner hsession
          exact ⟨.inl rfl, hold.server, hold.toServer⟩
  | serverFails c =>
      obtain ⟨conn, hconn, rfl⟩ := Option.map_eq_some_iff.mp hstep
      have hmoves : s.Moves (s.close c conn) c conn { conn with server := .closed } :=
        moves_close rfl rfl
      refine h.moves hinv hconn hmoves (fun hcontrol => ?_) fun howner hsession => ?_
      · exact (h.control c conn hcontrol).closes.mono (hmoves.extends hconn) hmoves.acked
      · have hold := h.data c conn hconn howner hsession
        exact hold.goesOn trivial
  | leave c =>
      obtain rfl := Option.some.inj hstep
      have hext : s.Extends { s with channels := HashMap.retain (fun _ d => d != c) s.channels } :=
        .of_eq rfl rfl
      exact ⟨hinv, ⟨h.nonces.drawn, h.nonces.once, h.nonces.fresh⟩,
        fun key d e hd he => h.entered key d e (HashMap.lookup_retain.mp hd).1 he,
        fun d e he => (h.control d e he).mono hext fun _ => id, h.data⟩
  | request c =>
      obtain ⟨-, hrequest⟩ := Option.ite_none_right_eq_some.mp hstep
      obtain rfl := Option.some.inj hrequest
      exact h.queues hinv
  | poolEnds c =>
      obtain ⟨-, hends⟩ := Option.ite_none_right_eq_some.mp hstep
      obtain rfl := Option.some.inj hends
      exact h.queues hinv

theorem paired_empty : empty.Paired := by
  refine ⟨inv_empty, ⟨fun n c hn => ?_, fun n n' c hn => ?_, fun c conn hconn => ?_⟩,
    fun key c conn hc => ?_, fun c conn hconn => ?_, fun c conn hconn => ?_⟩
  · cases hn
  · cases hn
  · cases hconn
  · cases hc
  · cases hconn.1
  · cases hconn

theorem Paired.completes (h : s.Paired) : s.Completes where
  server := by
    intro c conn t conn' hcontrol hstep hconn'
    obtain ⟨next, hnext, -, hopen⟩ := (h.control c conn hcontrol).serverStep hcontrol.1 hstep
    obtain rfl := Option.some.inj (hnext.symm.trans hconn')
    exact hopen
  client := by
    intro c conn t conn' hcontrol hstep hconn'
    obtain ⟨next, hnext, -, hopen⟩ := (h.control c conn hcontrol).clientStep hcontrol.1 hstep
    obtain rfl := Option.some.inj (hnext.symm.trans hconn')
    exact hopen
  moves := fun c conn hcontrol => (h.control c conn hcontrol).moves
  agrees := by
    intro c conn key hcontrol hclient
    have hconn := h.inv.conns c conn hcontrol.1
    have hkey : s.Key c key := hconn.readAck key (.inr hclient)
    refine ⟨(h.control c conn hcontrol).mem_acked hclient, fun key' digest hinsert => ?_,
      fun key' hlookup => ?_⟩
    · exact h.nonces.key_unique (hconn.insert key' digest hinsert).1 hkey
    · exact h.nonces.key_unique (h.inv.keys key' c hlookup) hkey
  inserts := by
    intro c conn key digest hconn hinsert
    cases hlookup : s.channels.lookup key with
    | none => rfl
    | some d =>
        have hkey := ((h.inv.conns c conn hconn).insert key digest hinsert).1
        obtain rfl := (h.inv.keys key d hlookup).unique hkey
        have hended := h.entered key d conn hlookup hconn
        rw [hinsert] at hended
        rcases hended with hdone | hclosed
        · cases hdone
        · cases hclosed
  found := by
    intro c d conn t key hconn howner hsession hpc hstep hlookup
    have hlt : d < s.conns.length := (List.getElem?_eq_some_iff.mp hconn).1
    have hdata := h.data d conn hconn howner (by rw [hsession]; nofun)
    rw [serverStep, hpc] at hstep
    cases hqueue : conn.toServer with
    | nil =>
        rw [hqueue] at hstep
        cases hstep
    | cons m rest =>
        rw [hqueue] at hstep
        obtain rfl := Option.some.inj hstep
        have hm : m ∈ conn.toServer := hqueue ▸ List.mem_cons_self
        obtain ⟨key', rfl⟩ := hdata.toServer m hm
        obtain ⟨c', hsession', hkey', -⟩ := (h.inv.conns d conn hconn).hello howner _ _ hm
        obtain rfl := Option.some.inj (hsession.symm.trans hsession')
        obtain rfl := h.nonces.key_unique (h.inv.keys key c hlookup) hkey'
        rw [readsHello, if_pos rfl, find, hlookup]
        exact ⟨_, List.getElem?_set_self hlt, rfl⟩
  offered := by
    intro c d conn t hconn hpc hstep
    have hlt : d < s.conns.length := (List.getElem?_eq_some_iff.mp hconn).1
    obtain ⟨i, -, hsession, -⟩ := (h.inv.conns d conn hconn).offers c (.inl hpc)
    rw [serverStep, hpc] at hstep
    obtain rfl := Option.some.inj hstep
    refine ⟨hsession, ?_⟩
    unfold offer
    split
    · exact List.mem_append_right s.handed List.mem_cons_self
    · exact ⟨_, List.getElem?_set_self hlt, rfl⟩
  sent := by
    intro c d conn t hconn hpc hstep
    have hlt : d < s.conns.length := (List.getElem?_eq_some_iff.mp hconn).1
    obtain ⟨i, -, hsession, -⟩ := (h.inv.conns d conn hconn).offers c (.inr hpc)
    rw [serverStep, hpc] at hstep
    obtain rfl := Option.some.inj hstep
    refine ⟨hsession, ?_⟩
    unfold send
    split
    · exact ⟨_, List.getElem?_set_self hlt, rfl, rfl⟩
    · exact List.mem_append_right s.handed List.mem_cons_self

end Tunnel

end Kdct
