/-
The server behind its API.

`httpServer` is `kdcts` with its requests as they come over HTTP: the router turns a request
away, or hands what it has read to the API thread, or panics and takes the process with it.
What this file is for is that nothing else comes of a request, and nothing less: the server
gets into the same states over HTTP as over any requests that a path and a body can say, and
without credentials a request leaves no trace.

What the texts of bodies are read as is up to `serde_json`; that a request can be said by such
a text at all needs no more than numbers of 64 bits.

A change of the settings and a load that begins are not about this state (`Kdct.Settings`,
`Kdct.LoadJobs`).
-/
import Kdct.Server.HubQueries
import Kdct.Server.Machine
import Kdct.Server.Routes

namespace Kdct

/-! ## Requests over HTTP -/

/-- No row has an id below one. -/
def slotOf (field : SlotField) : Database.Slot := field.map fun value => value.map Int.toNat

/-- What the API thread starts with, where the database runs `good` statements. -/
def Action.request (good : Nat) : Action → Option Request
  | insertBridge name => some (.postBridge name)
  | deleteBridge bridgeId => some (.deleteBridge bridgeId.toNat)
  | insertPort bridgeId containerPort mode routePath protocols =>
      some (.postPort ⟨bridgeId.toNat, containerPort, mode, routePath, protocols⟩)
  | deletePort bridgeId containerPort => some (.deletePort bridgeId.toNat containerPort)
  | setEnvs bridgeId envs => some (.postEnv bridgeId.toNat envs good)
  | insertConnection name bridgeId imageId nodeId =>
      some (.postConnection name ⟨slotOf bridgeId, slotOf imageId, slotOf nodeId⟩)
  | patchConnection id bridgeId imageId nodeId =>
      some (.patchConnection id.toNat ⟨slotOf bridgeId, slotOf imageId, slotOf nodeId⟩)
  | deleteConnection id => some (.deleteConnection id.toNat)
  | autoCheck => some .autoCheck
  | setTls _ | setAcme _ _ _ | loadImage _ _ => none

inductive HttpLabel
  | http (request : HttpRequest) (fault : Bool) (good : Nat)
  /-- Anything but a request. -/
  | other (label : Label)

/-- What becomes of a request behind the router. -/
def Outcome.label? (fault : Bool) (good : Nat) : Outcome → Option Label
  | .panic => some .restart
  | .change action => (action.request good).map (.request fault)
  | .unauthorized | .error _ _ | .read | .file _ => none

def HttpLabel.label? (tools : ApiTools) (settings : ApiSettings) : HttpLabel → Option Label
  | http request fault good => (Router.serve tools settings request).label? fault good
  | other (.request _ _) => none
  | other label => some label

/-- Whether a request has its credentials. -/
def HttpLabel.admitted (tools : ApiTools) (settings : ApiSettings) : HttpLabel → Bool
  | http request _ _ => Router.authorized tools settings request
  | other _ => true

/-- The API thread acts on what it has read. -/
def Server.taken (s : Server) (ports : FreshPool) (fault : Bool) (good : Nat) : Outcome → Server
  | .panic => s.restart ports
  | .change action =>
      match action.request good with
      | some r =>
          { s with shared := (s.shared.request fault r).1, api := (s.shared.request fault r).2 }
      | none => s
  | .unauthorized | .error _ _ | .read | .file _ => s

/-- A request is read when the one before is done. -/
def Server.httpStep (ports : FreshPool) (localAddr : LocalAddr) (tools : ApiTools)
    (settings : ApiSettings) (s : Server) : HttpLabel → Option Server
  | .http request fault good =>
      if s.api = .idle then some (s.taken ports fault good (Router.serve tools settings request))
      else none
  | .other (.request _ _) => none
  | .other label => s.step ports localAddr label

def httpServer (ports : FreshPool) (localAddr : LocalAddr) (tools : ApiTools)
    (settings : ApiSettings) : Machine Server HttpLabel where
  init := .boot .empty ports
  step := Server.httpStep ports localAddr tools settings

/-! ## What may be asked for -/

/-- A number of 64 bits. -/
def I64 (n : Int) : Prop := -9223372036854775808 ≤ n ∧ n ≤ 9223372036854775807

def Slots.InRange (slots : Slots) : Prop :=
  ∀ slot ∈ [slots.bridgeId, slots.imageId, slots.nodeId], ∀ (id : RowId),
    slot = some (some id) → I64 id

namespace Router

/-- The slots of a body. -/
def slotsOf (parsed : Json) : Slots :=
  ⟨slotOf (parseSlot parsed "bridge_id"), slotOf (parseSlot parsed "image_id"),
    slotOf (parseSlot parsed "node_id")⟩

end Router

namespace Request

def target : Request → Target
  | postBridge _ => .insertBridge
  | deleteBridge id => .deleteBridge id
  | postPort spec => .insertPort spec.bridgeId
  | deletePort bridgeId containerPort => .deletePort bridgeId containerPort
  | postEnv id _ _ => .setEnvs id
  | postConnection _ _ => .insertConnection
  | patchConnection id _ => .patchConnection id
  | deleteConnection id => .deleteConnection id
  | autoCheck => .autoCheck

/-- The numbers of the path have 64 bits. -/
def PathInRange : Request → Prop
  | postBridge _ | postConnection _ _ | autoCheck => True
  | deleteBridge id | postEnv id _ _ | patchConnection id _ | deleteConnection id => I64 id
  | postPort spec => I64 spec.bridgeId
  | deletePort bridgeId containerPort => I64 bridgeId ∧ I64 containerPort

/-- All numbers have. -/
def InRange : Request → Prop
  | postPort spec => I64 spec.bridgeId ∧ I64 spec.containerPort
  | postConnection _ slots => slots.InRange
  | patchConnection id slots => I64 id ∧ slots.InRange
  | r => r.PathInRange

/-- A body says what is asked for; a field that is missing or of another kind has its default. -/
def SaidBy (v : Json) : Request → Prop
  | postBridge name => (v.index "name").asStr.getD "" = name
  | postPort spec =>
      (v.index "container_port").asI64.getD 0 = spec.containerPort ∧
      (v.index "mode").asStr.getD "route" = spec.mode ∧
      (v.index "route_path").asStr = spec.routePath ∧
      ((v.index "protocols").asArray.map fun items =>
        ",".intercalate (items.filterMap Json.asStr)) = spec.protocols
  | postEnv _ envs _ => (v.index "envs").asArray.map (·.filterMap Router.envPair) = some envs
  | postConnection name slots =>
      (v.index "name").asStr.getD "connection" = name ∧ Router.slotsOf v = slots
  | patchConnection _ slots => Router.slotsOf v = slots
  | deleteBridge _ | deletePort _ _ | deleteConnection _ | autoCheck => True

/-- There is a path for it, and a text that is read as its body. -/
def Sayable (tools : ApiTools) (r : Request) : Prop :=
  r.PathInRange ∧ (r.target.readsBody = true →
    ∃ body v, tools.parseJson body = .ok v ∧ r.SaidBy v)

/-- The checks before anything is done. -/
def Checked : Request → Prop
  | postBridge name => name ≠ ""
  | postPort spec => spec.valid = true
  | _ => True

end Request

/-- What a text can say, with so many levels of arrays and objects; the fields of an object
are in order. -/
inductive Json.Text : Nat → Json → Prop
  | null {depth : Nat} : Text depth null
  | bool {depth : Nat} (b : Bool) : Text depth (bool b)
  | number {depth : Nat} {asI64 : Option Int} (h : ∀ n ∈ asI64, I64 n) :
      Text depth (number asI64)
  | string {depth : Nat} (s : String) : Text depth (string s)
  | array {depth : Nat} {items : List Json} (h : ∀ item ∈ items, Text depth item) :
      Text (depth + 1) (array items)
  | object {depth : Nat} {fields : List (String × Json)}
      (hkeys : (fields.map Prod.fst).Pairwise (· < ·))
      (h : ∀ field ∈ fields, Text depth field.2) : Text (depth + 1) (object fields)

/-- The credentials are split at their first colon, and some text stands for them. -/
def ApiSettings.Sendable (settings : ApiSettings) (tools : ApiTools) : Prop :=
  ∀ user pass, settings.adminUser = some user → settings.adminPassword = some pass →
    ':' ∉ user.toList ∧ ∃ encoded sent,
      tools.decodeBase64 (trim encoded) = some (Utf8.enc sent) ∧
      (sent = user.toList ++ ':' :: pass.toList ∨ pass = "" ∧ sent = user.toList)

structure HttpExact (ports : FreshPool) (localAddr : LocalAddr) (tools : ApiTools)
    (settings : ApiSettings) : Prop where
  refines : ∀ s labels t, (httpServer ports localAddr tools settings).run s labels = some t →
    (kdcts ports localAddr).run s (labels.filterMap (·.label? tools settings)) = some t
  /-- The router has made the checks of a request that it hands on. -/
  checked : ∀ (label : HttpLabel) fault r,
    label.label? tools settings = some (.request fault r) → r.Checked
  unauthorized : ∀ s labels t, (httpServer ports localAddr tools settings).run s labels = some t →
    (httpServer ports localAddr tools settings).run s
      (labels.filter (·.admitted tools settings)) = some t
  admits : (∃ request, Router.authorized tools settings request = true) ↔ settings.Sendable tools
  /-- With the right credentials everything can be asked for that can be said. -/
  states : settings.Sendable tools → ∀ s,
    (httpServer ports localAddr tools settings).Reachable s ↔
      ∃ labels, (∀ fault r, .request fault r ∈ labels → r.Sayable tools) ∧
        (kdcts ports localAddr).run (kdcts ports localAddr).init labels = some s
  /-- `serde_json` reads 127 levels. -/
  said : ∀ r : Request, (r.PathInRange ∧ ∃ v : Json, v.Text 127 ∧ r.SaidBy v) ↔ r.InRange

/-! ## Over HTTP and otherwise -/

section

variable {ports : FreshPool} {localAddr : LocalAddr} {tools : ApiTools} {settings : ApiSettings}
  {s t : Server} {label : HttpLabel} {labels : List HttpLabel}

theorem step_request (h : s.api = .idle) (fault : Bool) (r : Request) :
    s.step ports localAddr (.request fault r) =
      some { s with shared := (s.shared.request fault r).1, api := (s.shared.request fault r).2 } :=
  if_pos h

theorem run_singleton (label : Label) :
    (kdcts ports localAddr).run s [label] = s.step ports localAddr label :=
  Option.bind_fun_some _

theorem taken_refines (h : s.api = .idle) (fault : Bool) (good : Nat) (outcome : Outcome) :
    (kdcts ports localAddr).run s (outcome.label? fault good).toList =
      some (s.taken ports fault good outcome) := by
  cases outcome with
  | panic => rfl
  | change action =>
      simp only [Outcome.label?, Server.taken]
      cases action.request good with
      | none => rfl
      | some r => exact (run_singleton _).trans (step_request h fault r)
  | unauthorized | error _ _ | read | file _ => rfl

/-- A step over HTTP is one step or none. -/
theorem httpStep_refines (h : s.httpStep ports localAddr tools settings label = some t) :
    (kdcts ports localAddr).run s (label.label? tools settings).toList = some t := by
  cases label with
  | http request fault good =>
      simp only [Server.httpStep] at h
      split at h
      · rename_i hidle
        rw [← h]
        exact taken_refines hidle fault good _
      · cases h
  | other label =>
      cases label with
      | request fault r => cases h
      | _ => exact (run_singleton _).trans h

theorem run_refines {labels : List HttpLabel}
    (h : (httpServer ports localAddr tools settings).run s labels = some t) :
    (kdcts ports localAddr).run s (labels.filterMap (·.label? tools settings)) = some t := by
  induction labels generalizing s with
  | nil => exact h
  | cons label labels ih =>
      obtain ⟨u, hstep, hrest⟩ := Machine.run_cons_eq_some _ h
      have hlabels : (label :: labels).filterMap (·.label? tools settings) =
          (label.label? tools settings).toList ++ labels.filterMap (·.label? tools settings) := by
        rw [List.filterMap_cons]
        cases label.label? tools settings <;> rfl
      rw [hlabels, Machine.run_append, httpStep_refines hstep, Option.bind_some]
      exact ih hrest

/-- A request without credentials might as well not have been made. -/
theorem run_admitted {labels : List HttpLabel}
    (h : (httpServer ports localAddr tools settings).run s labels = some t) :
    (httpServer ports localAddr tools settings).run s
      (labels.filter (·.admitted tools settings)) = some t := by
  induction labels generalizing s with
  | nil => exact h
  | cons label labels ih =>
      obtain ⟨u, hstep, hrest⟩ := Machine.run_cons_eq_some _ h
      by_cases hadmitted : label.admitted tools settings = true
      · rw [List.filter_cons_of_pos hadmitted, Machine.run_cons]
        exact Option.bind_eq_some_iff.mpr ⟨u, hstep, ih hrest⟩
      · rw [List.filter_cons_of_neg hadmitted]
        cases label with
        | other label => exact absurd rfl hadmitted
        | http request fault good =>
            have hserve : Router.serve tools settings request = .unauthorized := if_neg hadmitted
            have hu : s = u := by
              replace hstep : (if s.api = .idle then
                some (s.taken ports fault good (Router.serve tools settings request))
                else none) = some u := hstep
              rw [hserve] at hstep
              split at hstep
              · exact Option.some.inj hstep
              · cases hstep
            rw [hu]
            exact ih hrest

end

/-! ## What is handed on -/

namespace Router

variable {tools : ApiTools} {settings : ApiSettings} {action : Action} {good : Nat} {r : Request}

/-- What a change comes from. -/
theorem exists_of_serve {request : HttpRequest}
    (h : serve tools settings request = .change action) :
    ∃ target parsed, route request.method (requestPath request) = .target target ∧
      parsedAction settings target parsed = .change action ∧
      (target.readsBody = true → ∃ body, tools.parseJson body = .ok parsed) := by
  unfold serve at h
  split at h
  · have hroute := route_of_change h
    refine ⟨action.target, ?_⟩
    unfold handle at h
    rw [hroute] at h
    dsimp only at h
    unfold targetOutcome at h
    split at h
    · split at h
      · cases h
      · rename_i body _
        split at h
        · cases h
        · rename_i parsed hparsed
          exact ⟨parsed, hroute, h, fun _ => ⟨body, hparsed⟩⟩
    · rename_i hreads
      exact ⟨.null, hroute, h, fun hbody => absurd hbody hreads⟩
  · cases h

/-- The two places that check a port agree. -/
theorem valid_iff {spec : PortSpec} :
    spec.valid = true ↔
      ¬(spec.containerPort = 0 ∨ (spec.mode = "route" ∧ spec.routePath = none)) ∧
        ¬(spec.routePath.any fun path => !startsWith path "/") = true ∧
          ¬spec.routePath.any isAdminPath = true := by
  unfold PortSpec.valid
  cases spec.routePath with
  | none => simp
  | some path => simp

/-- The numbers of a path. -/
def idsOf : Target → List Int
  | .deleteBridge id | .insertPort id | .setEnvs id | .patchConnection id
  | .deleteConnection id => [id]
  | .deletePort bridgeId containerPort => [bridgeId, containerPort]
  | _ => []

theorem i64_toNat {n : Int} (h : I64 n) : I64 n.toNat := by
  unfold I64 at h ⊢
  omega

/-- What a target asks for with a body. -/
structure Asks (parsed : Json) (target : Target) (r : Request) : Prop where
  checked : r.Checked
  said : r.SaidBy parsed
  reads : r.target.readsBody = target.readsBody
  path : (∀ n ∈ idsOf target, I64 n) → r.PathInRange

theorem asks_of_parsedAction {target : Target} {parsed : Json}
    (h : parsedAction settings target parsed = .change action)
    (hr : action.request good = some r) : Asks parsed target r := by
  have hid : ∀ {id : Int}, (∀ n ∈ [id], I64 n) → I64 id.toNat :=
    fun hids => i64_toNat (hids _ List.mem_cons_self)
  cases target with
  | insertBridge =>
      unfold parsedAction at h
      dsimp only at h
      split at h
      · cases h
      · rename_i hname
        cases h
        cases hr
        exact ⟨hname, rfl, rfl, fun _ => trivial⟩
  | insertPort bridgeId =>
      unfold parsedAction portAction at h
      dsimp only at h
      split at h
      · cases h
      split at h
      · cases h
      split at h
      · cases h
      · rename_i hport hslash hadmin
        cases h
        cases hr
        exact ⟨valid_iff.mpr ⟨hport, hslash, hadmin⟩, ⟨rfl, rfl, rfl, rfl⟩, rfl, hid⟩
  | setEnvs bridgeId =>
      unfold parsedAction at h
      dsimp only at h
      split at h
      · cases h
      · rename_i envs henvs
        cases h
        cases hr
        exact ⟨trivial, congrArg (Option.map _) henvs, rfl, hid⟩
  | setTls =>
      unfold parsedAction tlsAction at h
      dsimp only at h
      split at h
      · cases h
      split at h
      · split at h <;> cases h
      · cases h
        cases hr
  | loadImage =>
      unfold parsedAction at h
      dsimp only at h
      split at h
      · cases h
      · cases h
        cases hr
  | setAcme =>
      cases h
      cases hr
  | deletePort bridgeId containerPort =>
      cases h
      cases hr
      exact ⟨trivial, trivial, rfl, fun hids =>
        ⟨hid (by simpa [idsOf] using (hids _ List.mem_cons_self)), hids _ (by simp [idsOf])⟩⟩
  | deleteBridge id | deleteConnection id =>
      cases h
      cases hr
      exact ⟨trivial, trivial, rfl, hid⟩
  | patchConnection id =>
      cases h
      cases hr
      exact ⟨trivial, rfl, rfl, hid⟩
  | insertConnection =>
      cases h
      cases hr
      exact ⟨trivial, ⟨rfl, rfl⟩, rfl, fun _ => trivial⟩
  | autoCheck =>
      cases h
      cases hr
      exact ⟨trivial, trivial, rfl, fun _ => trivial⟩

/-! ### Numbers -/

theorem i64_of_parseI64 {t : List Char} {n : Int} (h : parseI64 t = some n) : I64 n := by
  have hrange : ∀ {m : Int}, (if -9223372036854775808 ≤ m ∧ m ≤ 9223372036854775807 then some m
      else none) = some n → I64 n := by
    intro m hm
    split at hm
    · rename_i hm'
      exact Option.some.inj hm ▸ hm'
    · cases hm
  have hdigits : ∀ {digits : List Char} {m : Int}, (if digits.all Char.isDigit then
      (if -9223372036854775808 ≤ m ∧ m ≤ 9223372036854775807 then some m else none)
      else none) = some n → I64 n := by
    intro digits m hm
    split at hm
    · exact hrange hm
    · cases hm
  unfold parseI64 at h
  dsimp only at h
  split at h
  · cases h
  · cases h
  · cases h
  · exact hdigits h
  · exact hdigits h
  · exact hdigits h

theorem i64_of_route {method : Method} {path : List Char} {target : Target}
    (h : route method path = .target target) : ∀ n ∈ idsOf target, I64 n := by
  have hgrammar : Grammar method path target → ∀ n ∈ idsOf target, I64 n := by
    intro hg
    cases hg with
    | deletePort ht hu =>
        intro n hn
        rcases List.mem_pair.mp hn with rfl | rfl
        · exact i64_of_parseI64 ht
        · exact i64_of_parseI64 hu
    | deleteBridge ht | insertPort ht | setEnvs ht | patchConnection ht | deleteConnection ht =>
        intro n hn
        rw [List.mem_singleton.mp hn]
        exact i64_of_parseI64 ht
    | _ => exact List.forall_mem_nil _
  -- a number in front of more of the path
  have hidAt : ∀ {pre : List Char} {invalid : String} {found : Int → Route},
      (∀ id target, found id = .target target → idsOf target = [id]) → pre <+: path →
        idAt (bytesOf pre) path invalid found = .target target →
          ∀ n ∈ idsOf target, I64 n := by
    intro pre invalid found hfound hpre hid n hn
    obtain ⟨t, id, ht, htarget, -⟩ := idAt_eq_target hpre hid
    rw [hfound id target htarget] at hn
    rw [List.mem_singleton.mp hn]
    exact i64_of_parseI64 ht
  cases method with
  | get => exact absurd h (getRoute_ne_target path target)
  | post => exact hgrammar (postRoute_eq_target h)
  | other name => cases h
  | patch =>
      replace h : patchRoute path = .target target := h
      unfold patchRoute at h
      split at h
      · rename_i hpre
        exact hidAt (by rintro id _ ⟨⟩; rfl) hpre h
      · cases h
  | delete =>
      replace h : deleteRoute path = .target target := h
      by_cases hport : "/port/".toList <:+: path
      · rw [deleteRoute_of_port hport] at h
        obtain ⟨front, t, mid, u, more, id, port, rfl, -, -, ht, -, hu, -⟩ :=
          deletePortRoute_eq_target h
        intro n hn
        rcases List.mem_pair.mp hn with rfl | rfl
        · exact i64_of_parseI64 ht
        · exact i64_of_parseI64 hu
      · unfold deleteRoute at h
        split at h
        · rename_i hbridge
          exact hidAt (by rintro id _ ⟨⟩; rfl) hbridge.1 h
        · split at h
          · rename_i hconnection
            exact hidAt (by rintro id _ ⟨⟩; rfl) hconnection h
          · cases h

variable {depth : Nat}

theorem text_of_get {v value : Json} {key : String} (hv : v.Text depth)
    (h : v.get key = some value) : ∃ inner, value.Text inner := by
  cases hv with
  | object hkeys hfields =>
      obtain ⟨field, hfield, rfl⟩ := Option.map_eq_some_iff.mp h
      exact ⟨_, hfields field (List.mem_of_find?_eq_some hfield)⟩
  | _ => cases h

theorem i64_of_asI64 {v : Json} {n : Int} (hv : v.Text depth) (h : v.asI64 = some n) : I64 n := by
  cases hv with
  | number hnumber => exact hnumber n h
  | _ => cases h

theorem slots_inRange {v : Json} (hv : v.Text depth) : (slotsOf v).InRange := by
  have hslot : ∀ key (id : RowId), slotOf (parseSlot v key) = some (some id) → I64 id := by
    intro key id h
    obtain ⟨value, hvalue, hid⟩ := Option.map_eq_some_iff.mp h
    obtain ⟨n, rfl, rfl⟩ := Option.map_eq_some_iff.mp hid
    unfold parseSlot at hvalue
    split at hvalue
    · cases hvalue
    · cases hvalue
    · rename_i other hother
      obtain ⟨m, hm, hmn⟩ := Option.map_eq_some_iff.mp hvalue
      obtain rfl := Option.some.inj hmn
      obtain ⟨inner, htext⟩ := text_of_get hv hother
      exact i64_toNat (i64_of_asI64 htext hm)
  intro slot hmem id h
  simp only [slotsOf, List.mem_cons, List.not_mem_nil, or_false] at hmem
  rcases hmem with rfl | rfl | rfl
  · exact hslot _ id h
  · exact hslot _ id h
  · exact hslot _ id h

theorem containerPort_i64 {v : Json} (hv : v.Text depth) :
    I64 ((v.index "container_port").asI64.getD 0) := by
  cases hn : (v.index "container_port").asI64 with
  | none => exact ⟨by decide, by decide⟩
  | some n =>
      have htext : ∃ inner, (v.index "container_port").Text inner := by
        unfold Json.index
        cases hget : v.get "container_port" with
        | none => exact ⟨0, .null⟩
        | some value => exact text_of_get hv hget
      obtain ⟨inner, htext⟩ := htext
      exact i64_of_asI64 htext hn

/-- A body that is a text says nothing but numbers of 64 bits. -/
theorem inRange_of_saidBy {v : Json} (hv : v.Text depth) (hpath : r.PathInRange)
    (h : r.SaidBy v) : r.InRange := by
  cases r with
  | postPort spec => exact ⟨hpath, h.1 ▸ containerPort_i64 hv⟩
  | postConnection name slots => exact h.2 ▸ slots_inRange hv
  | patchConnection id slots =>
      replace h : slotsOf v = slots := h
      exact ⟨hpath, h ▸ slots_inRange hv⟩
  | _ => exact hpath

/-- A request that comes over HTTP is checked, and was said. -/
theorem asked_of_serve {request : HttpRequest}
    (h : serve tools settings request = .change action) (hr : action.request good = some r) :
    r.Checked ∧ r.Sayable tools := by
  obtain ⟨target, parsed, hroute, hparsed, hbody⟩ := exists_of_serve h
  have hasks := asks_of_parsedAction hparsed hr
  refine ⟨hasks.checked, hasks.path (i64_of_route hroute), fun hreads => ?_⟩
  obtain ⟨body, hjson⟩ := hbody (hasks.reads ▸ hreads)
  exact ⟨body, parsed, hjson, hasks.said⟩

/-! ## Credentials -/

/-- What the header has to hold. -/
theorem authorized_of_sent {user pass encoded : String} {sent : List Char}
    (huser : settings.adminUser = some user) (hpass : settings.adminPassword = some pass)
    (hdecode : tools.decodeBase64 (trim encoded) = some (Utf8.enc sent))
    (hsent : (splitOnce ':' sent).getD (sent, []) = (user.toList, pass.toList))
    {request : HttpRequest}
    (hrequest : request.authorization =
      some (String.ofList ("Basic ".toList ++ encoded.toList))) :
    authorized tools settings request = true := by
  obtain ⟨text, htext, hchars⟩ := Option.map_eq_some_iff.mp (Utf8.dec_enc sent)
  let header := String.ofList ("Basic ".toList ++ encoded.toList)
  have hheader : header.toList = "Basic ".toList ++ encoded.toList := String.toList_ofList
  have hstrip : stripPrefix "Basic ".toList header.toList = some encoded.toList :=
    (congrArg (stripPrefix "Basic ".toList) hheader).trans (stripPrefix_append _ _)
  rw [authorized, huser, hpass]
  dsimp only
  unfold checkBasicAuth
  simp only [hrequest, Option.bind_eq_bind, Option.bind_some, header, hstrip, String.ofList_toList,
    hdecode, htext, hchars, hsent, decide_true, Bool.and_self]

theorem exists_authorization (hsendable : settings.Sendable tools) :
    ∃ authorization, ∀ request : HttpRequest, request.authorization = authorization →
      authorized tools settings request = true := by
  cases huser : settings.adminUser with
  | none => exact ⟨none, fun request _ => by rw [authorized, huser]⟩
  | some user =>
      cases hpass : settings.adminPassword with
      | none => exact ⟨none, fun request _ => by rw [authorized, huser, hpass]⟩
      | some pass =>
          obtain ⟨hcolon, encoded, sent, hdecode, hsent⟩ := hsendable user pass huser hpass
          refine ⟨some (String.ofList ("Basic ".toList ++ encoded.toList)), fun request hrequest =>
            authorized_of_sent huser hpass hdecode ?_ hrequest⟩
          rcases hsent with rfl | ⟨rfl, rfl⟩
          · rw [splitOnce_append hcolon, Option.getD_some]
          · rw [splitOnce, if_neg hcolon, Option.getD_none]
            rfl

theorem sendable_of_authorized {request : HttpRequest}
    (h : authorized tools settings request = true) : settings.Sendable tools := by
  intro user pass huser hpass
  rw [authorized, huser, hpass] at h
  dsimp only at h
  unfold checkBasicAuth at h
  dsimp only at h
  split at h
  · cases h
  · rename_i text htext
    obtain ⟨header, -, hrest⟩ := Option.bind_eq_some_iff.mp htext
    obtain ⟨encoded, -, hrest⟩ := Option.bind_eq_some_iff.mp hrest
    obtain ⟨decoded, hdecode, hutf8⟩ := Option.bind_eq_some_iff.mp hrest
    have henc : Utf8.enc text.toList = decoded :=
      Utf8.dec_eq_some_iff.mp (congrArg (Option.map String.toList) hutf8)
    rw [← henc] at hdecode
    rw [Bool.and_eq_true, decide_eq_true_eq, decide_eq_true_eq] at h
    by_cases hcolon : ':' ∈ text.toList
    · obtain ⟨front, back, hsplit, hfront⟩ := List.eq_append_cons_of_mem hcolon
      rw [hsplit, splitOnce_append hfront, Option.getD_some] at h
      obtain ⟨hfst, hsnd⟩ := h
      dsimp only at hfst hsnd
      exact ⟨hfst ▸ hfront, _, _, hdecode, .inl (hfst ▸ hsnd ▸ hsplit)⟩
    · rw [splitOnce, if_neg hcolon, Option.getD_none] at h
      obtain ⟨hfst, hsnd⟩ := h
      dsimp only at hfst hsnd
      have hempty : pass = "" := String.toList_injective hsnd.symm
      exact ⟨hfst ▸ hcolon, _, _, hdecode, .inr ⟨hempty, hfst⟩⟩

/-! ## How to ask for it -/

/-- A number in a path. -/
def i64Text : Int → List Char
  | .ofNat n => Nat.toDigits 10 n
  | .negSucc n => '-' :: Nat.toDigits 10 (n + 1)

theorem parseI64_i64Text {n : Int} (h : I64 n) : parseI64 (i64Text n) = some n := by
  have hdigits : ∀ m : Nat, (Nat.toDigits 10 m).all Char.isDigit = true := by
    intro m
    rw [List.all_eq_true]
    exact fun c hc => Nat.isDigit_of_mem_toDigits (by decide) (by decide) hc
  have hnot : ∀ {c : Char} {m : Nat} {cs : List Char}, c.isDigit = false →
      Nat.toDigits 10 m ≠ c :: cs := by
    intro c m cs hc heq
    have hmem : c ∈ Nat.toDigits 10 m := heq ▸ List.mem_cons_self
    exact not_mem_toDigits hc m hmem
  unfold I64 at h
  cases n with
  | ofNat m =>
      unfold parseI64 i64Text
      dsimp only
      split
      · rename_i heq
        exact absurd heq (Nat.toDigits_ne_nil)
      · rename_i heq
        exact absurd heq (hnot (by decide))
      · rename_i heq
        exact absurd heq (hnot (by decide))
      · rename_i heq
        exact absurd heq (hnot (by decide))
      · rename_i heq
        exact absurd heq (hnot (by decide))
      · rw [if_pos (hdigits m), Nat.ofDigitChars_ten_toDigits]
        exact if_pos h
  | negSucc m =>
      unfold parseI64 i64Text
      dsimp only
      split
      · rename_i heq
        cases heq
      · rename_i heq
        cases (List.cons.inj heq).1
      · rename_i heq
        exact absurd (List.cons.inj heq).2 Nat.toDigits_ne_nil
      · rename_i heq
        cases (List.cons.inj heq).1
      · rename_i digits _ heq
        obtain rfl := (List.cons.inj heq).2
        rw [if_pos (hdigits (m + 1)), Nat.ofDigitChars_ten_toDigits]
        exact if_pos h
      · rename_i hminus
        exact absurd rfl (hminus (Nat.toDigits 10 (m + 1)))

/-- A field that may be left out. -/
def optional (key : String) (value : Option Json) : List (String × Json) :=
  (value.map fun v => (key, v)).toList

theorem find?_optional (key key' : String) (value : Option Json) :
    ((optional key value).find? fun field => field.1 == key') =
      if key = key' then value.map fun v => (key, v) else none := by
  unfold optional
  cases value with
  | none => simp
  | some v =>
      rw [Option.map_some, Option.toList_some, List.find?_singleton]
      simp only [beq_iff_eq]

theorem get_append (fields more : List (String × Json)) (key : String) :
    (Json.object (fields ++ more)).get key =
      ((Json.object fields).get key).or ((Json.object more).get key) := by
  unfold Json.get
  dsimp only
  rw [List.find?_append]
  cases fields.find? fun field => field.1 == key <;> rfl

theorem get_optional (key key' : String) (value : Option Json) :
    (Json.object (optional key value)).get key' = if key = key' then value else none := by
  unfold Json.get
  dsimp only
  rw [find?_optional]
  split
  · cases value <;> rfl
  · rfl

def slotJson : Option RowId → Json
  | none => .null
  | some id => .number (some id)

/-- The slots, and in their midst a name. -/
def slotFields (name : Option Json) (slots : Slots) : List (String × Json) :=
  optional "bridge_id" (slots.bridgeId.map slotJson) ++
    (optional "image_id" (slots.imageId.map slotJson) ++
      (optional "name" name ++ optional "node_id" (slots.nodeId.map slotJson)))

def portBody (spec : PortSpec) : Json :=
  .object ([("container_port", .number (some spec.containerPort)), ("mode", .string spec.mode)] ++
    (optional "protocols" (spec.protocols.map fun protocols => .array [.string protocols]) ++
      optional "route_path" (spec.routePath.map .string)))

def envJson (env : String × String) : Json :=
  .object [("key", .string env.1), ("value", .string env.2)]

/-- A body that says a request. -/
def bodyOf : Request → Json
  | .postBridge name => .object [("name", .string name)]
  | .postPort spec => portBody spec
  | .postEnv _ envs _ => .object [("envs", .array (envs.map envJson))]
  | .postConnection name slots => .object (slotFields (some (.string name)) slots)
  | .patchConnection _ slots => .object (slotFields none slots)
  | _ => .null

theorem get_slotFields (name : Option Json) (slots : Slots) (key : String) :
    (Json.object (slotFields name slots)).get key =
      (if "bridge_id" = key then slots.bridgeId.map slotJson else none).or
        ((if "image_id" = key then slots.imageId.map slotJson else none).or
          ((if "name" = key then name else none).or
            (if "node_id" = key then slots.nodeId.map slotJson else none))) := by
  unfold slotFields
  rw [get_append, get_append, get_append, get_optional, get_optional, get_optional, get_optional]

/-- A slot in a body is read as it was. -/
theorem slotOf_parseSlot {v : Json} {key : String} {slot : Database.Slot}
    (h : v.get key = slot.map slotJson) : slotOf (parseSlot v key) = slot := by
  unfold parseSlot
  rw [h]
  match slot with
  | none => rfl
  | some none => rfl
  | some (some id) => rfl

theorem slotsOf_slotFields (name : Option Json) (slots : Slots) :
    slotsOf (.object (slotFields name slots)) = slots := by
  have hbridge : slotOf (parseSlot (.object (slotFields name slots)) "bridge_id") =
      slots.bridgeId := by
    refine slotOf_parseSlot ?_
    rw [get_slotFields]
    simp
  have himage : slotOf (parseSlot (.object (slotFields name slots)) "image_id") =
      slots.imageId := by
    refine slotOf_parseSlot ?_
    rw [get_slotFields]
    simp
  have hnode : slotOf (parseSlot (.object (slotFields name slots)) "node_id") =
      slots.nodeId := by
    refine slotOf_parseSlot ?_
    rw [get_slotFields]
    simp
  rw [slotsOf, hbridge, himage, hnode]

theorem envPair_envJson (env : String × String) : envPair (envJson env) = some env := rfl

/-- The fields of a port are read as they were. -/
theorem saidBy_portBody (spec : PortSpec) : (Request.postPort spec).SaidBy (portBody spec) := by
  have hget : ∀ key, "container_port" ≠ key → "mode" ≠ key →
      (portBody spec).get key =
        (if "protocols" = key then spec.protocols.map fun text => .array [.string text]
          else none).or (if "route_path" = key then spec.routePath.map .string else none) := by
    intro key hport hmode
    have hhead : (Json.object [("container_port", .number (some spec.containerPort)),
        ("mode", .string spec.mode)]).get key = none := by
      simp [Json.get, hport, hmode]
    rw [portBody, get_append, hhead, Option.none_or, get_append, get_optional, get_optional]
  refine ⟨rfl, rfl, ?_, ?_⟩
  · rw [Json.index, hget _ (by decide) (by decide), if_neg (by decide), if_pos rfl, Option.none_or]
    cases spec.routePath <;> rfl
  · rw [Json.index, hget _ (by decide) (by decide), if_pos rfl, if_neg (by decide), Option.or_none]
    cases spec.protocols <;> rfl

/-- Every request can be said. -/
theorem saidBy_bodyOf (r : Request) : r.SaidBy (bodyOf r) := by
  cases r with
  | postBridge name => rfl
  | postPort spec => exact saidBy_portBody spec
  | postEnv id envs good =>
      have hpair : envPair ∘ envJson = some := funext envPair_envJson
      have henvs : (envs.map envJson).filterMap envPair = envs := by
        rw [List.filterMap_map, hpair, List.filterMap_some]
      exact congrArg some henvs
  | postConnection name slots =>
      refine ⟨?_, slotsOf_slotFields _ slots⟩
      show ((Json.object (slotFields _ slots)).index "name").asStr.getD "connection" = name
      rw [Json.index, get_slotFields]
      simp [Json.asStr]
  | patchConnection id slots => exact slotsOf_slotFields none slots
  | _ => trivial

/-- What is said is done. -/
theorem action_of_saidBy (settings : ApiSettings) {v : Json} (hchecked : r.Checked)
    (h : r.SaidBy v) : ∃ action good, parsedAction settings r.target v = .change action ∧
      action.request good = some r := by
  cases r with
  | postBridge name =>
      obtain rfl := h
      exact ⟨.insertBridge _, 0, if_neg hchecked, rfl⟩
  | deleteBridge id => exact ⟨_, 0, rfl, rfl⟩
  | postPort spec =>
      obtain ⟨hport, hmode, hroute, hprotocols⟩ := h
      refine ⟨.insertPort spec.bridgeId spec.containerPort spec.mode spec.routePath
        spec.protocols, 0, ?_, rfl⟩
      obtain ⟨hfields, hslash, hadmin⟩ := valid_iff.mp hchecked
      show portAction spec.bridgeId v = _
      unfold portAction
      rw [hport, hmode, hroute, hprotocols]
      exact (if_neg hfields).trans ((if_neg hslash).trans (if_neg hadmin))
  | deletePort bridgeId containerPort => exact ⟨_, 0, rfl, rfl⟩
  | postEnv id envs good =>
      obtain ⟨items, hitems, rfl⟩ := Option.map_eq_some_iff.mp h
      refine ⟨.setEnvs id _, good, ?_, rfl⟩
      unfold parsedAction
      simp only [Request.target, hitems]
  | postConnection name slots =>
      obtain ⟨rfl, rfl⟩ := h
      exact ⟨_, 0, rfl, rfl⟩
  | patchConnection id slots =>
      obtain rfl := h
      exact ⟨_, 0, rfl, rfl⟩
  | deleteConnection id => exact ⟨_, 0, rfl, rfl⟩
  | autoCheck => exact ⟨_, 0, rfl, rfl⟩

/-! ### Bodies that can be written -/

theorem slotJson_text {slot : Option RowId} (h : ∀ id ∈ slot, I64 (id : Int)) :
    (slotJson slot).Text depth := by
  cases slot with
  | none => exact .null
  | some id => exact .number fun n hn => Option.mem_some.mp hn ▸ h id rfl

theorem slotFields_text {name : Option Json} (hname : ∀ v ∈ name, v.Text depth) {slots : Slots}
    (h : slots.InRange) : ∀ field ∈ slotFields name slots, field.2.Text depth := by
  have hslot : ∀ slot ∈ [slots.bridgeId, slots.imageId, slots.nodeId],
      ∀ v ∈ slot.map slotJson, v.Text depth := by
    intro slot hmem v hv
    obtain ⟨value, hvalue, rfl⟩ := Option.map_eq_some_iff.mp hv
    refine slotJson_text fun id hid => h slot hmem id ?_
    rw [hvalue]
    exact congrArg some hid
  have hoptional : ∀ (key : String) (value : Option Json), (∀ v ∈ value, v.Text depth) →
      ∀ field ∈ optional key value, field.2.Text depth := by
    intro key value hvalue field hfield
    unfold optional at hfield
    rw [Option.mem_toList] at hfield
    obtain ⟨v, hv, rfl⟩ := Option.map_eq_some_iff.mp hfield
    exact hvalue v hv
  intro field hfield
  rcases List.mem_append.mp hfield with hfield | hfield
  · exact hoptional _ _ (hslot _ (by simp)) field hfield
  rcases List.mem_append.mp hfield with hfield | hfield
  · exact hoptional _ _ (hslot _ (by simp)) field hfield
  rcases List.mem_append.mp hfield with hfield | hfield
  · exact hoptional _ _ hname field hfield
  · exact hoptional _ _ (hslot _ (by simp)) field hfield

/-- Fields may be left out of a sequence that is in order. -/
theorem optional_keys (key : String) (value : Option Json) :
    ((optional key value).map Prod.fst).Sublist [key] := by
  cases value with
  | none => exact List.nil_sublist _
  | some v => exact List.Sublist.refl _

theorem slotFields_keys (name : Option Json) (slots : Slots) :
    ((slotFields name slots).map Prod.fst).Pairwise (· < ·) := by
  have hsub : ((slotFields name slots).map Prod.fst).Sublist
      ["bridge_id", "image_id", "name", "node_id"] := by
    unfold slotFields
    rw [List.map_append, List.map_append, List.map_append]
    exact (optional_keys _ _).append ((optional_keys _ _).append
      ((optional_keys _ _).append (optional_keys _ _)))
  exact List.Pairwise.sublist hsub (by decide)

theorem portBody_text {spec : PortSpec} (h : I64 spec.containerPort) :
    (portBody spec).Text (depth + 2) := by
  unfold portBody
  refine .object ?_ ?_
  · have hsub : ((optional "protocols" (spec.protocols.map fun text => .array [.string text]) ++
        optional "route_path" (spec.routePath.map .string)).map Prod.fst).Sublist
          ["protocols", "route_path"] := by
      rw [List.map_append]
      exact (optional_keys _ _).append (optional_keys _ _)
    rw [List.map_append]
    exact List.Pairwise.sublist ((List.Sublist.refl ["container_port", "mode"]).append hsub)
      (by decide)
  · have hnumber : (Json.number (some spec.containerPort)).Text (depth + 1) :=
      .number fun n hn => Option.mem_some.mp hn ▸ h
    have harray : ∀ text, (Json.array [.string text]).Text (depth + 1) :=
      fun text => .array (List.forall_mem_singleton.mpr (.string text))
    unfold optional
    cases spec.routePath <;> cases spec.protocols <;>
      simp [hnumber, harray, Json.Text.string]

theorem envJson_text (env : String × String) : (envJson env).Text (depth + 1) := by
  refine .object ?_ (by simp [Json.Text.string])
  show ["key", "value"].Pairwise (· < ·)
  decide

theorem bodyOf_text (h : r.InRange) : (bodyOf r).Text (depth + 3) := by
  cases r with
  | postBridge name => exact .object (List.pairwise_singleton _ _) (by simp [Json.Text.string])
  | postPort spec => exact portBody_text h.2
  | postEnv id envs good =>
      refine .object (List.pairwise_singleton _ _)
        (List.forall_mem_singleton.mpr (.array fun item hitem => ?_))
      obtain ⟨env, -, rfl⟩ := List.mem_map.mp hitem
      exact envJson_text env
  | postConnection name slots =>
      exact .object (slotFields_keys _ slots)
        (slotFields_text (fun v hv => Option.mem_some.mp hv ▸ .string name) h)
  | patchConnection id slots =>
      exact .object (slotFields_keys none slots) (slotFields_text (by simp) h.2)
  | _ => exact .null

theorem pathInRange_of_inRange (h : r.InRange) : r.PathInRange := by
  cases r with
  | postPort spec => exact h.1
  | postConnection name slots => trivial
  | patchConnection id slots => exact h.1
  | _ => exact h

/-! ### Paths -/

theorem exists_grammar (h : r.PathInRange) : ∃ method path, Grammar method path r.target := by
  cases r with
  | postBridge name => exact ⟨_, _, .insertBridge⟩
  | deleteBridge id => exact ⟨_, _, .deleteBridge (parseI64_i64Text h)⟩
  | postPort spec => exact ⟨_, _, .insertPort (parseI64_i64Text h)⟩
  | deletePort bridgeId containerPort =>
      exact ⟨_, _, .deletePort (parseI64_i64Text h.1) (parseI64_i64Text h.2)⟩
  | postEnv id envs good => exact ⟨_, _, .setEnvs (parseI64_i64Text h)⟩
  | postConnection name slots => exact ⟨_, _, .insertConnection⟩
  | patchConnection id slots => exact ⟨_, _, .patchConnection (parseI64_i64Text h)⟩
  | deleteConnection id => exact ⟨_, _, .deleteConnection (parseI64_i64Text h)⟩
  | autoCheck => exact ⟨_, _, .autoCheck⟩

theorem Grammar.mark_not_mem {method : Method} {path : List Char} {target : Target}
    (h : Grammar method path target) : '?' ∉ path := by
  have hnumber : ∀ {t : List Char} {n : Int}, parseI64 t = some n → '?' ∉ t :=
    fun ht => not_mem_of_parseI64 ht (by decide)
  have hbridges : '?' ∉ bridgesPath := by decide +kernel
  have hconnections : '?' ∉ connectionsPath := by decide +kernel
  cases h with
  | deleteBridge ht => simp [hbridges, hnumber ht]
  | insertPort ht => simp [hbridges, hnumber ht]
  | deletePort ht hu => simp [hbridges, hnumber ht, hnumber hu]
  | setEnvs ht => simp [hbridges, hnumber ht]
  | patchConnection ht => simp [hconnections, hnumber ht]
  | deleteConnection ht => simp [hconnections, hnumber ht]
  | _ => decide +kernel

theorem Grammar.head {method : Method} {path : List Char} {target : Target}
    (h : Grammar method path target) : ∃ rest, path = '/' :: rest := by
  cases h <;> exact ⟨_, rfl⟩

/-- Every request that can be said can be made over HTTP. -/
theorem exists_http {authorization : Option String}
    (hauth : ∀ request : HttpRequest, request.authorization = authorization →
      authorized tools settings request = true)
    (hchecked : r.Checked) (hsayable : r.Sayable tools) :
    ∃ request good, ∀ fault,
      (serve tools settings request).label? fault good = some (.request fault r) := by
  obtain ⟨hpath, hbody⟩ := hsayable
  obtain ⟨method, path, hgrammar⟩ := exists_grammar hpath
  obtain ⟨rest, rfl⟩ := hgrammar.head
  obtain ⟨body, action, good, houtcome, hr⟩ : ∃ body action good,
      targetOutcome tools settings (some body) r.target = .change action ∧
        action.request good = some r := by
    by_cases hreads : r.target.readsBody = true
    · obtain ⟨body, v, hjson, hsaid⟩ := hbody hreads
      obtain ⟨action, good, haction, hr⟩ := action_of_saidBy settings hchecked hsaid
      refine ⟨body, action, good, ?_, hr⟩
      unfold targetOutcome
      rw [if_pos hreads]
      dsimp only
      rw [hjson]
      exact haction
    · -- nothing is read
      have hsaid : r.SaidBy .null := by cases r <;> trivial
      obtain ⟨action, good, haction, hr⟩ := action_of_saidBy settings hchecked hsaid
      exact ⟨"", action, good, (if_neg hreads).trans haction, hr⟩
  let request : HttpRequest :=
    ⟨method, String.ofList ("/admin/".toList ++ rest), authorization, some body⟩
  have hpath : requestPath request = '/' :: rest := by
    have hmark : '?' ∉ "/admin/".toList ++ rest := by
      have hrest : '?' ∉ rest := fun h => hgrammar.mark_not_mem (List.mem_cons_of_mem _ h)
      rw [List.mem_append, not_or]
      exact ⟨by decide +kernel, hrest⟩
    rw [requestPath, pathOnly, String.toList_ofList, takeWhile_of_not_mem hmark,
      HubQueries.stripAdmin_append]
  have hserve : serve tools settings request = .change action := by
    rw [serve, if_pos (hauth request rfl), hpath, handle, route_of_grammar hgrammar]
    exact houtcome
  refine ⟨request, good, fun fault => ?_⟩
  rw [hserve]
  exact congrArg (Option.map (Label.request fault)) hr

end Router

/-! ## Both levels -/

section

variable {ports : FreshPool} {localAddr : LocalAddr} {tools : ApiTools} {settings : ApiSettings}
  {s t : Server}

/-- A request that fails its checks changes nothing. -/
theorem request_unchecked {r : Request} (h : ¬r.Checked) (s : Shared) (fault : Bool) :
    s.request fault r = (s, .idle) := by
  cases r with
  | postBridge name =>
      obtain rfl : name = "" := not_not.mp h
      unfold Shared.request
      cases fault <;> rfl
  | postPort spec =>
      have hvalid : (!spec.valid) = true := by simpa [Request.Checked] using h
      unfold Shared.request
      exact if_pos hvalid
  | _ => exact absurd trivial h

theorem httpStep_other {label : Label} (h : ∀ fault r, label ≠ .request fault r) (s : Server) :
    s.httpStep ports localAddr tools settings (.other label) = s.step ports localAddr label := by
  cases label with
  | request fault r => exact absurd rfl (h fault r)
  | _ => rfl

/-- A step is one step over HTTP or none. -/
theorem exists_httpStep {authorization : Option String}
    (hauth : ∀ request : HttpRequest, request.authorization = authorization →
      Router.authorized tools settings request = true) {label : Label}
    (hsayable : ∀ fault r, label = .request fault r → r.Sayable tools)
    (h : s.step ports localAddr label = some t) :
    s = t ∨ ∃ httpLabel, s.httpStep ports localAddr tools settings httpLabel = some t := by
  by_cases hrequest : ∃ fault r, label = .request fault r
  · obtain ⟨fault, r, rfl⟩ := hrequest
    have hidle : s.api = .idle := by
      by_contra hbusy
      cases (if_neg hbusy).symm.trans h
    by_cases hchecked : r.Checked
    · obtain ⟨request, good, hlabel⟩ :=
        Router.exists_http hauth hchecked (hsayable fault r rfl)
      have htaken := @taken_refines ports localAddr s hidle fault good
        (Router.serve tools settings request)
      rw [hlabel fault, Option.toList_some, run_singleton, h] at htaken
      refine .inr ⟨.http request fault good, ?_⟩
      exact (if_pos hidle).trans htaken.symm
    · left
      rw [step_request hidle, request_unchecked hchecked, Option.some.injEq] at h
      rw [← h, ← hidle]
  · have hother : ∀ fault r, label ≠ .request fault r :=
      fun fault r heq => hrequest ⟨fault, r, heq⟩
    exact .inr ⟨.other label, (httpStep_other hother s).trans h⟩

theorem exists_httpRun {authorization : Option String}
    (hauth : ∀ request : HttpRequest, request.authorization = authorization →
      Router.authorized tools settings request = true) {labels : List Label}
    (hsayable : ∀ fault r, .request fault r ∈ labels → r.Sayable tools)
    (h : (kdcts ports localAddr).run s labels = some t) :
    ∃ httpLabels, (httpServer ports localAddr tools settings).run s httpLabels = some t := by
  induction labels generalizing s with
  | nil => exact ⟨[], h⟩
  | cons label labels ih =>
      obtain ⟨u, hstep, hrest⟩ := Machine.run_cons_eq_some _ h
      obtain ⟨httpLabels, hrun⟩ :=
        ih (fun fault r hmem => hsayable fault r (List.mem_cons_of_mem _ hmem)) hrest
      have hlabel : ∀ fault r, label = .request fault r → r.Sayable tools :=
        fun fault r heq => hsayable fault r (heq ▸ List.mem_cons_self)
      rcases exists_httpStep hauth hlabel hstep with rfl | ⟨httpLabel, hhttp⟩
      · exact ⟨httpLabels, hrun⟩
      · exact ⟨httpLabel :: httpLabels, Option.bind_eq_some_iff.mpr ⟨u, hhttp, hrun⟩⟩

/-- What a request becomes has been checked and said. -/
theorem asked_of_label {label : HttpLabel} {fault : Bool} {r : Request}
    (h : label.label? tools settings = some (.request fault r)) :
    r.Checked ∧ r.Sayable tools := by
  cases label with
  | http request fault' good =>
      replace h : (Router.serve tools settings request).label? fault' good =
        some (.request fault r) := h
      cases hserve : Router.serve tools settings request with
      | change action =>
          rw [hserve] at h
          obtain ⟨r', hr', heq⟩ := Option.map_eq_some_iff.mp h
          cases heq
          exact Router.asked_of_serve hserve hr'
      | _ =>
          rw [hserve] at h
          cases h
  | other label => cases label <;> cases h

theorem http_exact (ports : FreshPool) (localAddr : LocalAddr) (tools : ApiTools)
    (settings : ApiSettings) : HttpExact ports localAddr tools settings where
  refines := fun _ _ _ h => run_refines h
  checked := fun _ _ _ h => (asked_of_label h).1
  unauthorized := fun _ _ _ h => run_admitted h
  admits := by
    refine ⟨fun ⟨request, h⟩ => Router.sendable_of_authorized h, fun hsendable => ?_⟩
    obtain ⟨authorization, hauth⟩ := Router.exists_authorization hsendable
    exact ⟨⟨.get, "", authorization, none⟩, hauth _ rfl⟩
  states := by
    intro hsendable s
    obtain ⟨authorization, hauth⟩ := Router.exists_authorization hsendable
    constructor
    · rintro ⟨httpLabels, h⟩
      refine ⟨_, ?_, run_refines h⟩
      intro fault r hmem
      obtain ⟨label, -, hlabel⟩ := List.mem_filterMap.mp hmem
      exact (asked_of_label hlabel).2
    · rintro ⟨labels, hsayable, h⟩
      exact exists_httpRun hauth hsayable h
  said := by
    refine fun r => ⟨fun ⟨hpath, v, hv, hsaid⟩ => Router.inRange_of_saidBy hv hpath hsaid,
      fun h => ?_⟩
    exact ⟨Router.pathInRange_of_inRange h, Router.bodyOf r, Router.bodyOf_text h,
      Router.saidBy_bodyOf r⟩

end

/-- A body and credentials that can be sent. -/
def sampleTools : ApiTools where
  parseJson body :=
    if body = "\x7b\"name\":\"web\"\x7d" then .ok (.object [("name", .string "web")])
    else .error "expected value at line 1 column 1"
  decodeBase64 text := if text = "YTpi" then some [97, 58, 98] else none

def sampleSettings : ApiSettings := ⟨some "a", some "b", false, false⟩

theorem bridge_over_http : ∃ s,
    (httpServer samplePool (fun _ => none) sampleTools sampleSettings).Reachable s ∧
      s.shared.db.bridges.rows.map Bridge.name = ["web"] := by
  have hsendable : sampleSettings.Sendable sampleTools := by
    rintro user pass ⟨⟩ ⟨⟩
    exact ⟨by decide, "YTpi", "a:b".toList, by decide +kernel, .inl (by decide)⟩
  have hsayable : (Request.postBridge "web").Sayable sampleTools :=
    ⟨trivial, fun _ => ⟨_, _, if_pos rfl, rfl⟩⟩
  have hexact := http_exact samplePool (fun _ => none) sampleTools sampleSettings
  refine ⟨_, (hexact.states hsendable _).mpr ⟨[.request false (.postBridge "web")], ?_, rfl⟩, rfl⟩
  intro fault r hmem
  cases List.mem_singleton.mp hmem
  exact hsayable

end Kdct
