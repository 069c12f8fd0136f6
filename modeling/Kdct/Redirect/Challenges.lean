/-
HTTP-01 challenges while a certificate is being obtained (`obtain_or_renew`,
`spawn_challenge_listener` and `run_acme_flow` in `crates/kdcts/src/acme.rs`, and
`run_https_redirect` in `crates/kdcts/src/proxy.rs`).

A flow puts the key authorization of each token it has to prove into a map and tells the
authority that the challenge is ready.  The authority then asks for it on the plain HTTP
port.  At the start of `kdcts` nobody listens there, and the flow brings a listener of its
own; a renewal leaves the port to the listener that redirects.  A flow may end anywhere, by
an error or its timeout, and then the next one begins with an empty map.

What the flow does on disk is the subject of `AcmeState`.
-/
import Kdct.Redirect.Segmentation
import Kdct.Lib.Machine

namespace Kdct.Redirect

/-! ## The flow and the port -/

/-- Who listens on the plain HTTP port. -/
inductive Listener
  | challenge
  | redirect
  deriving DecidableEq

/-- What the key of an account makes of a token. -/
structure Account where
  keyAuthorization : String → String

inductive Stage
  /-- `spawn_challenge_listener` binds the port. -/
  | binding
  /-- The account is restored or created, and an order placed. -/
  | account
  /-- The next authorization is fetched. -/
  | authorizing
  /-- The token is in the map, and the authority is told. -/
  | notifying (token : String)
  /-- The order is polled and finalized, and the certificate fetched and written. -/
  | polling
  /-- `run_acme_flow` is over, and its listener is told to stop. -/
  | stopping
  /-- The map is cleared for the second time. -/
  | clearing
  deriving DecidableEq

/-- Whether `run_acme_flow` runs, and the timeout with it. -/
def Stage.running : Stage → Bool
  | .account | .authorizing | .notifying _ | .polling => true
  | .binding | .stopping | .clearing => false

structure ChallengeFlow where
  /-- The port to bind, when nobody else listens on it. -/
  httpPort : Option UInt16
  stage : Stage
  account : Option Account
  /-- The tokens that were put into the map. -/
  inserted : List String
  /-- The tokens that the authority was told to ask for. -/
  told : List String

structure ChallengeState where
  challenges : ChallengeMap
  listener : Option Listener
  flow : Option ChallengeFlow

inductive ChallengeLabel
  /-- The process starts. -/
  | start
  /-- `run_https_redirect` has bound the port. -/
  | redirect
  /-- `obtain_or_renew` is called. -/
  | obtain (httpPort : Option UInt16)
  | bind (bound : Bool)
  | account (account : Account)
  /-- An authorization that is not pending. -/
  | valid
  /-- A pending authorization with the token of its challenge. -/
  | pending (token : String)
  /-- `set_ready` succeeds. -/
  | ready
  /-- There are no more authorizations. -/
  | ordered
  /-- `run_acme_flow` returns, with an error or without, or has run out of time. -/
  | returned
  /-- The listener of the flow stops, if it has one. -/
  | stop
  | clear

namespace ChallengeState

def start : ChallengeState := { challenges := ∅, listener := none, flow := none }

def obtain (s : ChallengeState) (httpPort : Option UInt16) : ChallengeState :=
  { s with
    challenges := ∅
    flow := some
      { httpPort := httpPort
        stage := if httpPort.isSome then .binding else .account
        account := none
        inserted := []
        told := [] } }

/-- A step of the flow. -/
def flowStep (s : ChallengeState) (flow : ChallengeFlow) : ChallengeLabel → Option ChallengeState
  | .bind bound =>
      if flow.stage = .binding then
        if bound then
          some { s with listener := some .challenge, flow := some { flow with stage := .account } }
        else
          -- `?` leaves `obtain_or_renew` before the map is cleared again
          some { s with flow := none }
      else none
  | .account account =>
      if flow.stage = .account then
        some { s with flow := some { flow with stage := .authorizing, account := some account } }
      else none
  | .valid => if flow.stage = .authorizing then some s else none
  | .pending token =>
      match flow.stage, flow.account with
      | .authorizing, some account =>
          some { s with
            challenges := s.challenges.insert token (account.keyAuthorization token)
            flow := some
              { flow with stage := .notifying token, inserted := token :: flow.inserted } }
      | _, _ => none
  | .ready =>
      match flow.stage with
      | .notifying token =>
          some { s with
            flow := some { flow with stage := .authorizing, told := token :: flow.told } }
      | _ => none
  | .ordered =>
      if flow.stage = .authorizing then
        some { s with flow := some { flow with stage := .polling } }
      else none
  | .returned =>
      if flow.stage.running then some { s with flow := some { flow with stage := .stopping } }
      else none
  | .stop =>
      if flow.stage = .stopping then
        some { s with
          listener := if flow.httpPort.isSome then none else s.listener
          flow := some { flow with stage := .clearing } }
      else none
  | .clear =>
      if flow.stage = .clearing then some { s with challenges := ∅, flow := none } else none
  | .start | .redirect | .obtain _ => none

def step (s : ChallengeState) (label : ChallengeLabel) : Option ChallengeState :=
  match label with
  | .start => some start
  | .redirect =>
      -- the proxy starts once a flow that has the port to itself is over
      if s.listener.isNone ∧ ∀ flow ∈ s.flow, flow.httpPort.isNone then
        some { s with listener := some .redirect }
      else none
  | .obtain httpPort =>
      if s.flow.isNone ∧ (httpPort.isSome → s.listener.isNone) then some (s.obtain httpPort)
      else none
  | label => s.flow.bind fun flow => s.flowStep flow label

/-- What a request on the plain HTTP port gets, if anybody listens there. -/
def answer (httpsPort : UInt16) (s : ChallengeState) (reads : List Bytes) : Option (List Char) :=
  s.listener.map fun
    | .challenge => serveChallenge s.challenges reads
    | .redirect => handleRedirect httpsPort (some s.challenges) reads

end ChallengeState

def challengePort : Machine ChallengeState ChallengeLabel where
  init := .start
  step := ChallengeState.step

/-! ## Requests for a challenge -/

def challengeRequest (method token more : List Char) : List Char :=
  method ++ ' ' :: (acmePrefix ++ token) ++ ' ' :: more

/-- The reads bring a request for the token, with nothing but ASCII behind its head. -/
def AsksFor (token : String) (reads : List Bytes) : Prop :=
  ∃ method more, ' ' ∉ method ∧ '\r' ∉ method ∧ ' ' ∉ token.toList ∧ '\r' ∉ token.toList ∧
    let request := Utf8.enc (challengeRequest method token.toList more)
    request.length ≤ 4096 ∧ blankLine <:+: request ∧ (∀ b ∈ rest request, b.toNat < 128) ∧
      Splits request reads

def answerOf : Option String → List Char
  | some keyAuth => challengeText keyAuth
  | none => notFoundText

/-- A line goes on until a carriage return. -/
theorem splitCrlf_append_of_not_mem {front : List Char} (h : '\r' ∉ front) (back : List Char) :
    splitCrlf (front ++ back) = (splitCrlf back).modifyHead (front ++ ·) := by
  induction front with
  | nil =>
      obtain ⟨line, lines, hlines⟩ := List.exists_cons_of_ne_nil (splitCrlf_ne_nil back)
      rw [List.nil_append, hlines]
      rfl
  | cons c front ih =>
      have hc : c ≠ '\r' := fun heq => h (heq ▸ List.mem_cons_self)
      have hrest : '\r' ∉ front := fun hmem => h (List.mem_cons_of_mem c hmem)
      obtain ⟨line, lines, hlines⟩ := List.exists_cons_of_ne_nil (splitCrlf_ne_nil back)
      rw [List.cons_append, splitCrlf.eq_3 c _ fun _ heq => absurd heq hc, ih hrest, hlines]
      rfl

theorem requestTarget_challengeRequest {method token : List Char} (hmethod : ' ' ∉ method)
    (hmethodCr : '\r' ∉ method) (htoken : ' ' ∉ token) (htokenCr : '\r' ∉ token)
    (more : List Char) :
    requestTarget (splitCrlf (challengeRequest method token more)) = acmePrefix ++ token := by
  have hacme : ' ' ∉ acmePrefix ∧ '\r' ∉ acmePrefix := by decide
  have hfront : '\r' ∉ method ++ ' ' :: (acmePrefix ++ token) := by
    simp [hmethodCr, hacme.2, htokenCr]
  have htarget : ' ' ∉ acmePrefix ++ token := by
    simp [hacme.1, htoken]
  have hspace : '\r' ∉ [' '] := by decide
  obtain ⟨line, lines, hlines⟩ := List.exists_cons_of_ne_nil (splitCrlf_ne_nil more)
  have hsplit : splitCrlf (challengeRequest method token more) =
      (method ++ ' ' :: (acmePrefix ++ token ++ ' ' :: line)) :: lines := by
    have htext : challengeRequest method token more =
        (method ++ ' ' :: (acmePrefix ++ token)) ++ ([' '] ++ more) := by
      simp [challengeRequest]
    rw [htext, splitCrlf_append_of_not_mem hfront, splitCrlf_append_of_not_mem hspace, hlines]
    simp
  rw [hsplit, requestTarget, List.head?_cons, Option.getD_some,
    List.splitOn_append_cons_self_of_not_mem hmethod,
    List.splitOn_append_cons_self_of_not_mem htarget]
  rfl

theorem respond_of_token {head : List Char} {token : String}
    (h : requestTarget (splitCrlf head) = acmePrefix ++ token.toList) (httpsPort : UInt16)
    (challenges : ChallengeMap) :
    respond httpsPort (some challenges) head = answerOf (challenges.lookup token) ∧
      respondChallenge challenges head = answerOf (challenges.lookup token) := by
  constructor
  · unfold respond
    dsimp only
    rw [h, stripPrefix_append]
    dsimp only
    rw [Option.bind_some, String.ofList_toList]
    cases challenges.lookup token <;> rfl
  · unfold respondChallenge
    rw [h, stripPrefix_append, Option.bind_some, String.ofList_toList]
    cases challenges.lookup token <;> rfl

/-- Both handlers look the token up, however the request is cut into reads. -/
theorem answer_of_asksFor {token : String} {reads : List Bytes} (h : AsksFor token reads)
    (httpsPort : UInt16) (challenges : ChallengeMap) :
    handleRedirect httpsPort (some challenges) reads = answerOf (challenges.lookup token) ∧
      serveChallenge challenges reads = answerOf (challenges.lookup token) := by
  obtain ⟨method, more, hmethod, hmethodCr, htoken, htokenCr, hlen, hblank, hascii, hsplits⟩ := h
  have hne : Utf8.enc (challengeRequest method token.toList more) ≠ [] := by
    intro hnil
    rw [hnil] at hblank
    exact List.cons_ne_nil _ _ (List.infix_nil.mp hblank)
  have hwhole : Splits (Utf8.enc (challengeRequest method token.toList more))
      [Utf8.enc (challengeRequest method token.toList more)] :=
    ⟨List.flatten_singleton, fun read hread => List.mem_singleton.mp hread ▸ hne⟩
  have hsame := @sameAnswers_of_settled httpsPort (some challenges) challenges _ hlen hblank
    (.inr (.inl hascii)) _ _ hsplits hwhole
  have hhead : headOf (readLoop [] [Utf8.enc (challengeRequest method token.toList more)]) =
      challengeRequest method token.toList more := by
    rw [readLoop_singleton hlen, headOf, Utf8.dec_enc, Option.getD_some]
  have hanswer := respond_of_token
    (requestTarget_challengeRequest hmethod hmethodCr htoken htokenCr more) httpsPort challenges
  rw [hsame.1, hsame.2, handleRedirect, serveChallenge, hhead]
  exact hanswer

/-! ## Runs -/

namespace ChallengeState

/-- The key authorization of a token that the flow has to prove. -/
def proving (s : ChallengeState) (token : String) : Option String := do
  let flow ← s.flow
  let account ← flow.account
  if token ∈ flow.inserted then some (account.keyAuthorization token) else none

/-- A token that the authority was told to ask for is answered with its key authorization
until the flow returns, and no handler answers one that the running flow did not insert. -/
structure Serves (httpsPort : UInt16) (s : ChallengeState) : Prop where
  told : ∀ flow, s.flow = some flow → flow.stage.running → ∀ token ∈ flow.told,
    ∃ account, flow.account = some account ∧
      (flow.httpPort.isSome ∨ s.listener.isSome → ∀ reads, AsksFor token reads →
        s.answer httpsPort reads = some (challengeText (account.keyAuthorization token)))
  answered : ∀ token reads, AsksFor token reads →
    handleRedirect httpsPort (some s.challenges) reads = answerOf (s.proving token) ∧
      serveChallenge s.challenges reads = answerOf (s.proving token)

/-- What holds of a flow before its next step. -/
structure Underway (listener : Option Listener) (flow : ChallengeFlow) : Prop where
  early : flow.stage = .binding ∨ flow.stage = .account → flow.inserted = []
  account : flow.account = none → flow.inserted = []
  told : ∀ token ∈ flow.told, token ∈ flow.inserted
  notifying : ∀ token, flow.stage = .notifying token → token ∈ flow.inserted
  listener : flow.stage.running → flow.httpPort.isSome → listener = some .challenge

structure Inv (s : ChallengeState) : Prop where
  lookup : ∀ token, s.challenges.lookup token = s.proving token
  flow : ∀ flow, s.flow = some flow → Underway s.listener flow

variable {s t : ChallengeState} {flow : ChallengeFlow} {label : ChallengeLabel}

theorem proving_of_flow (h : s.flow = some flow) (token : String) :
    s.proving token = flow.account.bind fun account =>
      if token ∈ flow.inserted then some (account.keyAuthorization token) else none := by
  rw [proving, h]
  rfl

theorem proving_of_no_flow (h : s.flow = none) (token : String) : s.proving token = none := by
  rw [proving, h]
  rfl

theorem proving_of_not_inserted (h : s.flow = some flow) (hinserted : flow.inserted = [])
    (token : String) : s.proving token = none := by
  rw [proving_of_flow h, hinserted]
  cases flow.account <;> rfl

/-- A flow that goes on with the same account and the same tokens. -/
theorem proving_congr {flow' : ChallengeFlow} (hs : s.flow = some flow) (ht : t.flow = some flow')
    (haccount : flow'.account = flow.account) (hinserted : flow'.inserted = flow.inserted)
    (token : String) : t.proving token = s.proving token := by
  rw [proving_of_flow hs, proving_of_flow ht, haccount, hinserted]

/-- A state without a flow and with an empty map. -/
theorem inv_of_no_flow (hflow : s.flow = none) (hmap : s.challenges = ∅) : s.Inv where
  lookup := by
    intro token
    rw [hmap, proving_of_no_flow hflow, AList.lookup_empty]
  flow := by
    intro flow h
    rw [hflow] at h
    cases h

theorem inv_obtain (s : ChallengeState) (httpPort : Option UInt16) : (s.obtain httpPort).Inv where
  lookup := by
    intro token
    rw [proving_of_not_inserted rfl rfl]
    exact AList.lookup_empty token
  flow := by
    intro flow h
    obtain rfl := Option.some.inj h
    cases httpPort with
    | none => exact ⟨fun _ => rfl, fun _ => rfl, nofun, nofun, nofun⟩
    | some port => exact ⟨fun _ => rfl, fun _ => rfl, nofun, nofun, nofun⟩

/-- The flow goes on, and the map is as it was. -/
theorem Inv.advance {flow' : ChallengeFlow} {listener : Option Listener} (h : s.Inv)
    (hflow : s.flow = some flow) (haccount : flow'.account = flow.account)
    (hinserted : flow'.inserted = flow.inserted) (hunder : Underway listener flow') :
    Inv { s with listener := listener, flow := some flow' } where
  lookup := fun token =>
    (h.lookup token).trans (proving_congr hflow rfl haccount hinserted token).symm
  flow := by
    intro next hnext
    obtain rfl := Option.some.inj hnext
    exact hunder

theorem Inv.bind {bound : Bool} (h : s.Inv) (hflow : s.flow = some flow)
    (hstep : s.flowStep flow (.bind bound) = some t) : t.Inv := by
  have hunder := h.flow flow hflow
  simp only [flowStep] at hstep
  split at hstep
  · rename_i hstage
    have hinserted := hunder.early (.inl hstage)
    split at hstep
    · obtain rfl := Option.some.inj hstep
      exact h.advance hflow rfl rfl ⟨fun _ => hinserted, hunder.account, hunder.told, nofun,
        fun _ _ => rfl⟩
    · obtain rfl := Option.some.inj hstep
      refine ⟨fun token => ?_, nofun⟩
      rw [h.lookup, proving_of_not_inserted hflow hinserted, proving_of_no_flow rfl]
  · cases hstep

theorem Inv.pending {token : String} (h : s.Inv) (hflow : s.flow = some flow)
    (hstep : s.flowStep flow (.pending token) = some t) : t.Inv := by
  have hunder := h.flow flow hflow
  simp only [flowStep] at hstep
  split at hstep
  · rename_i account hstage haccount
    obtain rfl := Option.some.inj hstep
    constructor
    · intro other
      rw [HashMap.lookup_insert_eq, h.lookup, proving_of_flow hflow, proving_of_flow rfl, haccount]
      dsimp only [Option.bind_some]
      by_cases heq : other = token
      · rw [if_pos heq, if_pos (by simp [heq]), heq]
      · simp [heq]
    · intro next hnext
      obtain rfl := Option.some.inj hnext
      refine ⟨by simp, ?_, ?_, ?_, fun _ => hunder.listener (by rw [hstage]; rfl)⟩
      · intro hnone
        rw [haccount] at hnone
        cases hnone
      · exact fun other hother => List.mem_cons_of_mem token (hunder.told other hother)
      · intro other hother
        cases hother
        exact List.mem_cons_self
  · cases hstep

theorem Inv.flowStep (h : s.Inv) (hflow : s.flow = some flow)
    (hstep : s.flowStep flow label = some t) : t.Inv := by
  have hunder := h.flow flow hflow
  cases label with
  | start | redirect | obtain httpPort => cases hstep
  | bind bound => exact h.bind hflow hstep
  | pending token => exact h.pending hflow hstep
  | account account =>
      simp only [ChallengeState.flowStep] at hstep
      split at hstep
      · rename_i hstage
        obtain rfl := Option.some.inj hstep
        have hinserted := hunder.early (.inr hstage)
        constructor
        · intro token
          rw [h.lookup, proving_of_not_inserted hflow hinserted]
          symm
          apply proving_of_not_inserted
          · rfl
          · exact hinserted
        · intro next hnext
          obtain rfl := Option.some.inj hnext
          exact ⟨fun _ => hinserted, fun _ => hinserted, hunder.told, nofun,
            fun _ => hunder.listener (by rw [hstage]; rfl)⟩
      · cases hstep
  | valid =>
      simp only [ChallengeState.flowStep] at hstep
      split at hstep
      · obtain rfl := Option.some.inj hstep
        exact h
      · cases hstep
  | ready =>
      simp only [ChallengeState.flowStep] at hstep
      split at hstep
      · rename_i token hstage
        obtain rfl := Option.some.inj hstep
        refine h.advance hflow rfl rfl ⟨by simp, hunder.account, ?_, nofun,
          fun _ => hunder.listener (by rw [hstage]; rfl)⟩
        intro other hother
        rcases List.mem_cons.mp hother with rfl | hother
        · exact hunder.notifying other hstage
        · exact hunder.told other hother
      · cases hstep
  | ordered =>
      simp only [ChallengeState.flowStep] at hstep
      split at hstep
      · rename_i hstage
        obtain rfl := Option.some.inj hstep
        exact h.advance hflow rfl rfl ⟨by simp, hunder.account, hunder.told, nofun,
          fun _ => hunder.listener (by rw [hstage]; rfl)⟩
      · cases hstep
  | returned =>
      simp only [ChallengeState.flowStep] at hstep
      split at hstep
      · obtain rfl := Option.some.inj hstep
        exact h.advance hflow rfl rfl ⟨by simp, hunder.account, hunder.told, nofun, nofun⟩
      · cases hstep
  | stop =>
      simp only [ChallengeState.flowStep] at hstep
      split at hstep
      · obtain rfl := Option.some.inj hstep
        exact h.advance hflow rfl rfl ⟨by simp, hunder.account, hunder.told, nofun, nofun⟩
      · cases hstep
  | clear =>
      simp only [ChallengeState.flowStep] at hstep
      split at hstep
      · obtain rfl := Option.some.inj hstep
        exact inv_of_no_flow rfl rfl
      · cases hstep

theorem Inv.step (h : s.Inv) (hstep : s.step label = some t) : t.Inv := by
  cases label with
  | start =>
      obtain rfl := Option.some.inj hstep
      exact inv_of_no_flow rfl rfl
  | redirect =>
      simp only [ChallengeState.step] at hstep
      split at hstep
      · rename_i hfree
        obtain rfl := Option.some.inj hstep
        refine ⟨h.lookup, fun flow hflow => ?_⟩
        have hunder := h.flow flow hflow
        refine ⟨hunder.early, hunder.account, hunder.told, hunder.notifying, fun _ hport => ?_⟩
        have hnone := hfree.2 flow hflow
        rw [Option.isNone_iff_eq_none.mp hnone] at hport
        cases hport
      · cases hstep
  | obtain httpPort =>
      simp only [ChallengeState.step] at hstep
      split at hstep
      · obtain rfl := Option.some.inj hstep
        exact inv_obtain s httpPort
      · cases hstep
  | bind | account | valid | pending | ready | ordered | returned | stop | clear =>
      obtain ⟨flow, hflow, hstep⟩ := Option.bind_eq_some_iff.mp hstep
      exact h.flowStep hflow hstep

theorem Inv.serves (h : s.Inv) (httpsPort : UInt16) : s.Serves httpsPort where
  told := by
    intro flow hflow hrunning token htoken
    have hunder := h.flow flow hflow
    have hinserted : token ∈ flow.inserted := hunder.told token htoken
    cases haccount : flow.account with
    | none =>
        rw [hunder.account haccount] at hinserted
        cases hinserted
    | some account =>
        refine ⟨account, rfl, fun hlistens reads hreads => ?_⟩
        have hproving : s.proving token = some (account.keyAuthorization token) := by
          rw [proving_of_flow hflow, haccount, Option.bind_some, if_pos hinserted]
        obtain ⟨hredirect, hserve⟩ := answer_of_asksFor hreads httpsPort s.challenges
        rw [h.lookup, hproving] at hredirect hserve
        obtain ⟨listener, hlistener⟩ : ∃ listener, s.listener = some listener := by
          rcases hlistens with hport | hsome
          · exact ⟨_, hunder.listener hrunning hport⟩
          · exact Option.isSome_iff_exists.mp hsome
        rw [answer, hlistener, Option.map_some]
        split
        · exact congrArg some hserve
        · exact congrArg some hredirect
  answered := by
    intro token reads hreads
    rw [← h.lookup]
    exact answer_of_asksFor hreads httpsPort s.challenges

end ChallengeState

end Kdct.Redirect
