/-
The routes of the API thread.

`Grammar` is the intended table of the arms that change state, each path with the
numbers that stand in it.  The guards and splits of the arms let through more than that,
and one slice assumes a prefix that its guard does not ask for.
-/
import Kdct.Server.Router

namespace Kdct.Router

/-! ## The intended table -/

inductive Grammar : Method → List Char → Target → Prop
  | insertBridge : Grammar .post "/api/bridges".toList .insertBridge
  | deleteBridge {t : List Char} {id : Int} :
      parseI64 t = some id → Grammar .delete (bridgesPath ++ t) (.deleteBridge id)
  | insertPort {t : List Char} {id : Int} :
      parseI64 t = some id → Grammar .post (bridgesPath ++ t ++ "/port".toList) (.insertPort id)
  | deletePort {t u : List Char} {id port : Int} :
      parseI64 t = some id → parseI64 u = some port →
      Grammar .delete (bridgesPath ++ t ++ "/port/".toList ++ u) (.deletePort id port)
  | setEnvs {t : List Char} {id : Int} :
      parseI64 t = some id → Grammar .post (bridgesPath ++ t ++ "/env".toList) (.setEnvs id)
  | insertConnection : Grammar .post "/api/connections".toList .insertConnection
  | patchConnection {t : List Char} {id : Int} :
      parseI64 t = some id → Grammar .patch (connectionsPath ++ t) (.patchConnection id)
  | deleteConnection {t : List Char} {id : Int} :
      parseI64 t = some id → Grammar .delete (connectionsPath ++ t) (.deleteConnection id)
  | autoCheck : Grammar .post "/api/auto-check".toList .autoCheck
  | setTls : Grammar .post "/api/settings".toList .setTls
  | setAcme : Grammar .post "/api/settings/acme".toList .setAcme
  | loadImage : Grammar .post "/api/image/load".toList .loadImage

/-- Requests with this method and path change state as the table says, and not at all
where it says nothing. -/
structure ExactRoutes (method : Method) (path : List Char) : Prop where
  only : ∀ tools settings admin body action,
    handle tools settings admin method path body = .change action →
      Grammar method path action.target
  all : ∀ target, Grammar method path target → ∀ tools settings admin body,
    handle tools settings admin method path body = targetOutcome tools settings body target

/-- The paths that go on behind a number the arm has read, or that carry the two numbers
of a port without being the path of one. -/
inductive Stray : Method → List Char → Prop
  | bridge {t more : List Char} {id : Int} :
      parseI64 t = some id → ¬"/port".toList <:+: bridgesPath ++ (t ++ '/' :: more) →
      Stray .delete (bridgesPath ++ (t ++ '/' :: more))
  | port {front t mid u more : List Char} {id port : Int} :
      bytesOf front = 13 → parseI64 t = some id → '/' ∉ mid → parseI64 u = some port →
      (more = [] ∨ ∃ rest, more = '/' :: rest) →
      "/port/".toList <:+: front ++ (t ++ '/' :: (mid ++ '/' :: (u ++ more))) →
      ¬(front = bridgesPath ∧ mid = "port".toList ∧ more = []) →
      Stray .delete (front ++ (t ++ '/' :: (mid ++ '/' :: (u ++ more))))
  | patch {t more : List Char} {id : Int} :
      parseI64 t = some id → Stray .patch (connectionsPath ++ (t ++ '/' :: more))
  | connection {t more : List Char} {id : Int} :
      parseI64 t = some id → ¬"/port/".toList <:+: connectionsPath ++ (t ++ '/' :: more) →
      Stray .delete (connectionsPath ++ (t ++ '/' :: more))

/-! ## Numbers and segments -/

/-- A number consists of digits and perhaps a sign. -/
theorem mem_of_parseI64 {t : List Char} {n : Int} (h : parseI64 t = some n) :
    ∀ c ∈ t, c.isDigit = true ∨ c = '+' ∨ c = '-' := by
  have hdigits : ∀ {digits : List Char} {m : Int} {x : Option Int},
      (if digits.all Char.isDigit then x else none) = some m →
        ∀ c ∈ digits, c.isDigit = true := by
    intro digits m x h
    split at h
    · rename_i hall
      exact List.all_eq_true.mp hall
    · cases h
  intro c hc
  unfold parseI64 at h
  dsimp only at h
  split at h
  · cases h
  · cases h
  · cases h
  · rcases List.mem_cons.mp hc with rfl | hc
    · exact .inr (.inl rfl)
    · exact .inl (hdigits h c hc)
  · rcases List.mem_cons.mp hc with rfl | hc
    · exact .inr (.inr rfl)
    · exact .inl (hdigits h c hc)
  · exact .inl (hdigits h c hc)

theorem not_mem_of_parseI64 {t : List Char} {n : Int} (h : parseI64 t = some n) {c : Char}
    (hc : (c.isDigit || c = '+' || c = '-') = false) : c ∉ t := by
  intro hmem
  have hchar := mem_of_parseI64 h c hmem
  simp only [Bool.or_eq_false_iff, decide_eq_false_iff_not] at hc
  rcases hchar with hdigit | rfl | rfl
  · rw [hc.1.1] at hdigit
    cases hdigit
  · exact hc.1.2 rfl
  · exact hc.2 rfl

theorem slash_not_mem {t : List Char} {n : Int} (h : parseI64 t = some n) : '/' ∉ t :=
  not_mem_of_parseI64 h (by decide)

/-- Up to the next slash, whether there is one or not. -/
theorem splitOnce_fst (rest : List Char) :
    ((splitOnce '/' rest).getD (rest, [])).1 = rest.takeWhile (· ≠ '/') := by
  unfold splitOnce
  split
  · rfl
  · rename_i hnone
    rcases eq_takeWhile_or '/' rest with h | ⟨more, h⟩
    · exact h
    · rw [h] at hnone
      exact absurd (by simp) hnone

/-- The first segment of a text, and what the others are segments of. -/
theorem splitOn_slash (text : List Char) :
    text.splitOn '/' = [text] ∨
      ∃ seg rest, '/' ∉ seg ∧ text = seg ++ '/' :: rest ∧
        text.splitOn '/' = seg :: rest.splitOn '/' := by
  have hseg := not_mem_takeWhile_ne '/' text
  rcases eq_takeWhile_or '/' text with htext | ⟨rest, htext⟩
  · rw [← htext] at hseg
    exact .inl (List.splitOn_eq_singleton hseg)
  · refine .inr ⟨_, rest, hseg, htext, ?_⟩
    conv_lhs => rw [htext]
    exact List.splitOn_append_cons_self_of_not_mem hseg rest

theorem not_infix_of_mem {sub path : List Char} {c : Char} (hsub : c ∈ sub) (hpath : c ∉ path) :
    ¬sub <:+: path := fun h => hpath (h.subset hsub)

/-! ## The slice of the port arm -/

theorem idAt_of_isPrefix {pre path : List Char} (h : pre <+: path) (invalid : String)
    (found : Int → Route) :
    idAt (bytesOf pre) path invalid found =
      match parseI64 ((path.drop pre.length).takeWhile (· ≠ '/')) with
      | none => .error invalid 400
      | some id => found id := by
  rw [idAt, dropBytes_of_isPrefix h]
  exact congrArg (fun text => match parseI64 text with
    | none => Route.error invalid 400
    | some id => found id) (splitOnce_fst _)

/-- An arm that slices behind the prefix it asked for does not panic. -/
theorem idAt_ne_panic {pre path : List Char} (h : pre <+: path) {invalid : String}
    {found : Int → Route} (hfound : ∀ id, found id ≠ .panic) :
    idAt (bytesOf pre) path invalid found ≠ .panic := by
  rw [idAt_of_isPrefix h]
  split
  · exact nofun
  · exact hfound _

theorem getRoute_ne_panic (path : List Char) : getRoute path ≠ .panic := by
  unfold getRoute
  split
  · exact nofun
  split
  · rename_i h
    exact idAt_ne_panic h.1 nofun
  split
  · exact nofun
  split <;> exact nofun

theorem postRoute_ne_panic (path : List Char) : postRoute path ≠ .panic := by
  unfold postRoute
  split
  · exact nofun
  split
  · split <;> exact nofun
  split
  · split <;> exact nofun
  split
  · exact nofun
  split
  · exact nofun
  split
  · exact nofun
  split
  · exact nofun
  split <;> exact nofun

theorem patchRoute_ne_panic (path : List Char) : patchRoute path ≠ .panic := by
  unfold patchRoute
  split
  · rename_i h
    exact idAt_ne_panic h nofun
  · exact nofun

theorem deletePortRoute_eq_panic_iff {path : List Char} :
    deletePortRoute path = .panic ↔ ¬∃ pre, pre <+: path ∧ bytesOf pre = 13 := by
  rw [← dropBytes_eq_none_iff]
  unfold deletePortRoute
  have hthirteen : bytesOf bridgesPath = 13 := by decide
  rw [hthirteen]
  cases dropBytes 13 path with
  | none => simp
  | some rest =>
      refine iff_of_false ?_ nofun
      dsimp only
      split
      · split
        · exact nofun
        · split <;> exact nofun
      · exact nofun

theorem infix_port_of_infix_port_slash {path : List Char} (h : "/port/".toList <:+: path) :
    "/port".toList <:+: path :=
  List.IsInfix.trans ⟨[], ['/'], by decide⟩ h

theorem deleteRoute_of_port {path : List Char} (h : "/port/".toList <:+: path) :
    deleteRoute path = deletePortRoute path := by
  rw [deleteRoute, if_neg fun hbridge => hbridge.2 (infix_port_of_infix_port_slash h), if_pos h]

theorem deleteRoute_eq_panic_iff {path : List Char} :
    deleteRoute path = .panic ↔
      "/port/".toList <:+: path ∧ ¬∃ pre, pre <+: path ∧ bytesOf pre = 13 := by
  by_cases hport : "/port/".toList <:+: path
  · rw [deleteRoute_of_port hport, deletePortRoute_eq_panic_iff]
    exact ⟨fun h => ⟨hport, h⟩, And.right⟩
  · refine iff_of_false ?_ fun h => hport h.1
    unfold deleteRoute
    split
    · rename_i h
      exact idAt_ne_panic h.1 nofun
    · split
      · rename_i h
        exact idAt_ne_panic h nofun
      · exact nofun

theorem route_eq_panic_iff {method : Method} {path : List Char} :
    route method path = .panic ↔ method = .delete ∧ "/port/".toList <:+: path ∧
      ¬∃ pre, pre <+: path ∧ bytesOf pre = 13 := by
  cases method with
  | get => exact iff_of_false (getRoute_ne_panic path) nofun
  | post => exact iff_of_false (postRoute_ne_panic path) nofun
  | delete => exact deleteRoute_eq_panic_iff.trans ⟨fun h => ⟨rfl, h⟩, And.right⟩
  | patch => exact iff_of_false (patchRoute_ne_panic path) nofun
  | other name => exact iff_of_false nofun nofun

/-- The body of a request is read without a panic. -/
theorem targetOutcome_ne_panic (tools : ApiTools) (settings : ApiSettings) (body : Option String)
    (target : Target) : targetOutcome tools settings body target ≠ .panic := by
  have hparsed : ∀ parsed, parsedAction settings target parsed ≠ .panic := by
    intro parsed
    cases target with
    | insertPort =>
        unfold parsedAction portAction
        dsimp only
        split
        · exact nofun
        split
        · exact nofun
        split <;> exact nofun
    | setTls =>
        unfold parsedAction tlsAction
        dsimp only
        split
        · exact nofun
        split
        · split <;> exact nofun
        · exact nofun
    | insertBridge | setEnvs | loadImage =>
        unfold parsedAction
        dsimp only
        split <;> exact nofun
    | _ => exact nofun
  unfold targetOutcome
  split
  · split
    · exact nofun
    · split
      · exact nofun
      · exact hparsed _
  · exact hparsed _

theorem handle_eq_panic_iff {tools : ApiTools} {settings : ApiSettings} {admin : Bool}
    {method : Method} {path : List Char} {body : Option String} :
    handle tools settings admin method path body = .panic ↔ route method path = .panic := by
  unfold handle
  cases route method path with
  | panic => simp
  | error msg code => simp
  | read => simp
  | fallback =>
      refine iff_of_false ?_ nofun
      dsimp only
      split <;> exact nofun
  | target target => exact iff_of_false (targetOutcome_ne_panic tools settings body target) nofun

/-- A request crashes the server exactly when it may delete something, its path holds
`/port/`, and the path does not have a part of thirteen bytes in front. -/
theorem serve_ne_panic_iff (tools : ApiTools) (settings : ApiSettings) (request : HttpRequest) :
    serve tools settings request ≠ .panic ↔
      ¬(authorized tools settings request ∧ request.method = .delete ∧
        "/port/".toList <:+: requestPath request ∧
        ¬∃ pre, pre <+: requestPath request ∧ bytesOf pre = 13) := by
  rw [not_iff_not]
  unfold serve
  by_cases hauth : authorized tools settings request = true
  · rw [if_pos hauth, handle_eq_panic_iff, route_eq_panic_iff]
    exact ⟨fun h => ⟨hauth, h⟩, And.right⟩
  · rw [if_neg hauth]
    exact iff_of_false nofun fun h => hauth h.1

/-- No credentials are asked for, and nothing parses. -/
def openTools : ApiTools := ⟨fun _ => .error "", fun _ => none⟩

def openSettings : ApiSettings := ⟨none, none, false, false⟩

theorem shortPort_panics :
    serve openTools openSettings ⟨.delete, "/port/1", none, none⟩ = .panic := by
  decide +kernel

/-! ## Every path of the table has its arm -/

theorem not_contains_port {t : List Char} {id : Int} (h : parseI64 t = some id) :
    ¬"/port".toList <:+: bridgesPath ++ t := by
  refine not_infix_of_mem (c := 'o') (by decide) ?_
  rw [List.mem_append]
  exact fun hmem => hmem.elim (by decide) (not_mem_of_parseI64 h (by decide))

theorem not_contains_port_slash {t : List Char} {id : Int} (h : parseI64 t = some id) :
    ¬"/port/".toList <:+: connectionsPath ++ t := by
  refine not_infix_of_mem (c := 'r') (by decide) ?_
  rw [List.mem_append]
  exact fun hmem => hmem.elim (by decide) (not_mem_of_parseI64 h (by decide))

theorem idAt_append {pre t : List Char} {id : Int} (h : parseI64 t = some id) (invalid : String)
    (found : Int → Route) : idAt (bytesOf pre) (pre ++ t) invalid found = found id := by
  rw [idAt_of_isPrefix (List.prefix_append pre t), List.drop_left]
  have htake : t.takeWhile (· ≠ '/') = t := by
    rcases eq_takeWhile_or '/' t with ht | ⟨more, ht⟩
    · exact ht.symm
    · exact absurd (by rw [ht]; simp) (slash_not_mem h)
  rw [htake, h]

theorem idAt_append_slash {pre t : List Char} {id : Int} (h : parseI64 t = some id)
    (more : List Char) (invalid : String) (found : Int → Route) :
    idAt (bytesOf pre) (pre ++ (t ++ '/' :: more)) invalid found = found id := by
  rw [idAt_of_isPrefix (List.prefix_append pre _), List.drop_left,
    takeWhile_ne (slash_not_mem h), h]

theorem extractBridgeId_append {t suffix : List Char} :
    extractBridgeId (bridgesPath ++ t ++ suffix) suffix = parseI64 t := by
  have hpre : stripPrefix bridgesPath (bridgesPath ++ t ++ suffix) = some (t ++ suffix) := by
    rw [stripPrefix, if_pos (by rw [List.append_assoc]; exact List.prefix_append _ _),
      List.append_assoc, List.drop_left]
  have hsuf : stripSuffix suffix (t ++ suffix) = some t := by
    rw [stripSuffix, if_pos (List.suffix_append t suffix), List.length_append,
      Nat.add_sub_cancel, List.take_left]
  simp only [extractBridgeId, hpre, hsuf, Option.bind_eq_bind, Option.bind_some]

theorem last_eq_of_suffix {xs ys : List Char} {a b : Char} (h : xs ++ [a] <:+ ys ++ [b]) :
    a = b := by
  obtain ⟨front, hfront⟩ := h
  rw [← List.append_assoc] at hfront
  exact List.singleton_inj.mp (List.append_inj_right' hfront rfl)

theorem bridges_append_ne (rest : List Char) : bridgesPath ++ rest ≠ "/api/bridges".toList := by
  intro h
  have hlen := congrArg List.length h
  rw [List.length_append, show bridgesPath.length = 13 by decide,
    show "/api/bridges".toList.length = 12 by decide] at hlen
  omega

theorem not_bridges_connections (rest : List Char) : ¬bridgesPath <+: connectionsPath ++ rest := by
  intro h
  rcases List.prefix_or_prefix_of_prefix h (List.prefix_append connectionsPath rest) with h | h
  · revert h
    decide
  · revert h
    decide

/-- The port arm on a path of thirteen bytes and at least three segments. -/
theorem deletePortRoute_of_segments {front t mid u more : List Char} {id port : Int}
    (hfront : bytesOf front = 13) (ht : parseI64 t = some id) (hmid : '/' ∉ mid)
    (hu : parseI64 u = some port) (hmore : more = [] ∨ ∃ rest, more = '/' :: rest) :
    deletePortRoute (front ++ (t ++ '/' :: (mid ++ '/' :: (u ++ more)))) =
      .target (.deletePort id port) := by
  have hthird : ∃ segs, (u ++ more).splitOn '/' = u :: segs := by
    rcases hmore with rfl | ⟨rest, rfl⟩
    · exact ⟨[], by rw [List.append_nil, List.splitOn_eq_singleton (slash_not_mem hu)]⟩
    · exact ⟨_, List.splitOn_append_cons_self_of_not_mem (slash_not_mem hu) rest⟩
  obtain ⟨segs, hsegs⟩ := hthird
  have hdrop : dropBytes (bytesOf bridgesPath)
      (front ++ (t ++ '/' :: (mid ++ '/' :: (u ++ more)))) =
        some (t ++ '/' :: (mid ++ '/' :: (u ++ more))) := by
    rw [show bytesOf bridgesPath = bytesOf front by rw [hfront]; decide, dropBytes_bytesOf]
  unfold deletePortRoute
  rw [hdrop]
  dsimp only
  rw [List.splitOn_append_cons_self_of_not_mem (slash_not_mem ht),
    List.splitOn_append_cons_self_of_not_mem hmid, hsegs]
  dsimp only
  rw [ht, hu]

theorem route_of_grammar {method : Method} {path : List Char} {target : Target}
    (h : Grammar method path target) : route method path = .target target := by
  cases h with
  | insertBridge => decide +kernel
  | insertConnection => decide +kernel
  | autoCheck => decide +kernel
  | setTls => decide +kernel
  | setAcme => decide +kernel
  | loadImage => decide +kernel
  | @deleteBridge t id ht =>
      show deleteRoute _ = _
      rw [deleteRoute, if_pos ⟨List.prefix_append _ _, not_contains_port ht⟩, idAt_append ht]
  | @insertPort t id ht =>
      have hne : bridgesPath ++ t ++ "/port".toList ≠ "/api/bridges".toList := by
        rw [List.append_assoc]
        exact bridges_append_ne _
      show postRoute _ = _
      rw [postRoute, if_neg hne, if_pos (List.suffix_append _ _), extractBridgeId_append, ht]
  | @setEnvs t id ht =>
      have hne : bridgesPath ++ t ++ "/env".toList ≠ "/api/bridges".toList := by
        rw [List.append_assoc]
        exact bridges_append_ne _
      have hnot : ¬"/port".toList <:+ bridgesPath ++ t ++ "/env".toList := by
        intro h
        have hlast : "/por".toList ++ ['t'] <:+ (bridgesPath ++ t ++ "/en".toList) ++ ['v'] := by
          simpa using h
        exact absurd (last_eq_of_suffix hlast) (by decide)
      show postRoute _ = _
      rw [postRoute, if_neg hne, if_neg hnot, if_pos (List.suffix_append _ _),
        extractBridgeId_append, ht]
  | @deletePort t u id port ht hu =>
      have hpath : bridgesPath ++ t ++ "/port/".toList ++ u =
          bridgesPath ++ (t ++ '/' :: ("port".toList ++ '/' :: (u ++ []))) := by
        simp
      show deleteRoute _ = _
      rw [deleteRoute_of_port ⟨bridgesPath ++ t, u, rfl⟩, hpath]
      exact deletePortRoute_of_segments (by decide) ht (by decide) hu (.inl rfl)
  | @patchConnection t id ht =>
      show patchRoute _ = _
      rw [patchRoute, if_pos (List.prefix_append _ _), idAt_append ht]
  | @deleteConnection t id ht =>
      have hnot : ¬(bridgesPath <+: connectionsPath ++ t ∧
          ¬"/port".toList <:+: connectionsPath ++ t) := fun h => not_bridges_connections t h.1
      show deleteRoute _ = _
      rw [deleteRoute, if_neg hnot, if_neg (not_contains_port_slash ht),
        if_pos (List.prefix_append _ _), idAt_append ht]

/-! ## What else the arms let through -/

/-- The number an arm found, and whether the path goes on behind it. -/
theorem idAt_eq_target {pre path : List Char} {invalid : String} {found : Int → Route}
    {target : Target} (hpre : pre <+: path)
    (h : idAt (bytesOf pre) path invalid found = .target target) :
    ∃ t id, parseI64 t = some id ∧ found id = .target target ∧
      (path = pre ++ t ∨ ∃ more, path = pre ++ (t ++ '/' :: more)) := by
  obtain ⟨rest, rfl⟩ := hpre
  rw [idAt_of_isPrefix (List.prefix_append pre rest), List.drop_left] at h
  cases hid : parseI64 (rest.takeWhile (· ≠ '/')) with
  | none =>
      rw [hid] at h
      cases h
  | some id =>
      rw [hid] at h
      refine ⟨_, id, hid, h, ?_⟩
      rcases eq_takeWhile_or '/' rest with hrest | ⟨more, hrest⟩
      · exact .inl (congrArg (pre ++ ·) hrest)
      · exact .inr ⟨more, congrArg (pre ++ ·) hrest⟩

theorem deletePortRoute_eq_target {path : List Char} {target : Target}
    (h : deletePortRoute path = .target target) :
    ∃ front t mid u more id port, target = .deletePort id port ∧
      path = front ++ (t ++ '/' :: (mid ++ '/' :: (u ++ more))) ∧ bytesOf front = 13 ∧
      parseI64 t = some id ∧ '/' ∉ mid ∧ parseI64 u = some port ∧
      (more = [] ∨ ∃ rest, more = '/' :: rest) := by
  unfold deletePortRoute at h
  cases hdrop : dropBytes (bytesOf bridgesPath) path with
  | none =>
      rw [hdrop] at h
      cases h
  | some rest =>
      rw [hdrop] at h
      dsimp only at h
      obtain ⟨front, hpath, hfront⟩ := eq_append_of_dropBytes hdrop
      rcases splitOn_slash rest with hsegs | ⟨t, rest₁, -, rfl, hsegs⟩
      · rw [hsegs] at h
        cases h
      rcases splitOn_slash rest₁ with hsegs₁ | ⟨mid, rest₂, hmid, rfl, hsegs₁⟩
      · rw [hsegs, hsegs₁] at h
        cases h
      obtain ⟨u, more, segs, rfl, hmore, hsegs₂⟩ : ∃ u more segs, rest₂ = u ++ more ∧
          (more = [] ∨ ∃ rest, more = '/' :: rest) ∧ rest₂.splitOn '/' = u :: segs := by
        rcases splitOn_slash rest₂ with hsegs₂ | ⟨u, rest₃, -, rfl, hsegs₂⟩
        · exact ⟨rest₂, [], [], by rw [List.append_nil], .inl rfl, hsegs₂⟩
        · exact ⟨u, '/' :: rest₃, _, rfl, .inr ⟨rest₃, rfl⟩, hsegs₂⟩
      rw [hsegs, hsegs₁, hsegs₂] at h
      dsimp only at h
      cases ht : parseI64 t with
      | none =>
          rw [ht] at h
          cases h
      | some id =>
          rw [ht] at h
          cases hu : parseI64 u with
          | none =>
              rw [hu] at h
              cases h
          | some port =>
              rw [hu] at h
              cases h
              exact ⟨front, t, mid, u, more, id, port, rfl, hpath, hfront, ht, hmid, hu, hmore⟩

theorem extractBridgeId_eq_some {path suffix : List Char} {id : Int}
    (h : extractBridgeId path suffix = some id) :
    ∃ t, path = bridgesPath ++ t ++ suffix ∧ parseI64 t = some id := by
  obtain ⟨rest, hpre, h⟩ := Option.bind_eq_some_iff.mp h
  obtain ⟨t, hsuf, h⟩ := Option.bind_eq_some_iff.mp h
  unfold stripPrefix at hpre
  unfold stripSuffix at hsuf
  split at hpre
  · rename_i hstart
    split at hsuf
    · rename_i hsuffix
      obtain ⟨rest', rfl⟩ := hstart
      obtain ⟨t', ht'⟩ := hsuffix
      rw [List.drop_left] at hpre
      obtain rfl := Option.some.inj hpre
      subst ht'
      rw [List.length_append, Nat.add_sub_cancel, List.take_left] at hsuf
      obtain rfl := Option.some.inj hsuf
      exact ⟨t', (List.append_assoc _ _ _).symm, h⟩
    · cases hsuf
  · cases hpre

theorem getRoute_ne_target (path : List Char) (target : Target) :
    getRoute path ≠ .target target := by
  unfold getRoute
  split
  · exact nofun
  split
  · rename_i h
    intro htarget
    obtain ⟨t, id, -, hfound, -⟩ := idAt_eq_target h.1 htarget
    cases hfound
  split
  · exact nofun
  split <;> exact nofun

theorem postRoute_eq_target {path : List Char} {target : Target}
    (h : postRoute path = .target target) : Grammar .post path target := by
  unfold postRoute at h
  split at h
  · rename_i hpath
    cases h
    exact hpath ▸ .insertBridge
  split at h
  · split at h
    · cases h
    · rename_i id hid
      cases h
      obtain ⟨t, rfl, ht⟩ := extractBridgeId_eq_some hid
      exact .insertPort ht
  split at h
  · split at h
    · cases h
    · rename_i id hid
      cases h
      obtain ⟨t, rfl, ht⟩ := extractBridgeId_eq_some hid
      exact .setEnvs ht
  split at h
  · rename_i hpath
    cases h
    exact hpath ▸ .insertConnection
  split at h
  · rename_i hpath
    cases h
    exact hpath ▸ .autoCheck
  split at h
  · rename_i hpath
    cases h
    exact hpath ▸ .setTls
  split at h
  · rename_i hpath
    cases h
    exact hpath ▸ .setAcme
  split at h
  · rename_i hpath
    cases h
    exact hpath ▸ .loadImage
  · cases h

theorem patchRoute_eq_target {path : List Char} {target : Target}
    (h : patchRoute path = .target target) : Grammar .patch path target ∨ Stray .patch path := by
  unfold patchRoute at h
  split at h
  · rename_i hpre
    obtain ⟨t, id, ht, hfound, hpath⟩ := idAt_eq_target hpre h
    cases hfound
    rcases hpath with rfl | ⟨more, rfl⟩
    · exact .inl (.patchConnection ht)
    · exact .inr (.patch ht)
  · cases h

theorem deleteRoute_eq_target {path : List Char} {target : Target}
    (h : deleteRoute path = .target target) :
    Grammar .delete path target ∨ Stray .delete path := by
  by_cases hport : "/port/".toList <:+: path
  · rw [deleteRoute_of_port hport] at h
    obtain ⟨front, t, mid, u, more, id, port, rfl, rfl, hfront, ht, hmid, hu, hmore⟩ :=
      deletePortRoute_eq_target h
    by_cases hexact : front = bridgesPath ∧ mid = "port".toList ∧ more = []
    · obtain ⟨rfl, rfl, rfl⟩ := hexact
      refine .inl ?_
      have hgrammar := Grammar.deletePort ht hu
      simpa using hgrammar
    · exact .inr (.port hfront ht hmid hu hmore hport hexact)
  · unfold deleteRoute at h
    split at h
    · rename_i hbridge
      obtain ⟨t, id, ht, hfound, hpath⟩ := idAt_eq_target hbridge.1 h
      cases hfound
      rcases hpath with rfl | ⟨more, rfl⟩
      · exact .inl (.deleteBridge ht)
      · exact .inr (.bridge ht hbridge.2)
    · split at h
      · rename_i hconnection
        obtain ⟨t, id, ht, hfound, hpath⟩ := idAt_eq_target hconnection h
        cases hfound
        rcases hpath with rfl | ⟨more, rfl⟩
        · exact .inl (.deleteConnection ht)
        · exact .inr (.connection ht hport)
      · cases h

theorem route_eq_target {method : Method} {path : List Char} {target : Target}
    (h : route method path = .target target) :
    Grammar method path target ∨ Stray method path := by
  cases method with
  | get => exact absurd h (getRoute_ne_target path target)
  | post => exact .inl (postRoute_eq_target h)
  | delete => exact deleteRoute_eq_target h
  | patch => exact patchRoute_eq_target h
  | other name => cases h

/-! ## The routes as a whole -/

/-- What a target changes is what it is about. -/
theorem target_of_parsedAction {settings : ApiSettings} {target : Target} {parsed : Json}
    {action : Action} (h : parsedAction settings target parsed = .change action) :
    target = action.target := by
  cases target with
  | insertPort bridgeId =>
      unfold parsedAction portAction at h
      dsimp only at h
      split at h
      · cases h
      split at h
      · cases h
      split at h
      · cases h
      · cases h
        rfl
  | setTls =>
      unfold parsedAction tlsAction at h
      dsimp only at h
      split at h
      · cases h
      split at h
      · split at h <;> cases h
      · cases h
        rfl
  | insertBridge | setEnvs | loadImage =>
      unfold parsedAction at h
      dsimp only at h
      split at h
      · cases h
      · cases h
        rfl
  | _ =>
      cases h
      rfl

theorem target_of_targetOutcome {tools : ApiTools} {settings : ApiSettings}
    {body : Option String} {target : Target} {action : Action}
    (h : targetOutcome tools settings body target = .change action) : target = action.target := by
  unfold targetOutcome at h
  split at h
  · split at h
    · cases h
    · split at h
      · cases h
      · exact target_of_parsedAction h
  · exact target_of_parsedAction h

/-- Nothing is changed but by the arm that was selected. -/
theorem route_of_change {tools : ApiTools} {settings : ApiSettings} {admin : Bool}
    {method : Method} {path : List Char} {body : Option String} {action : Action}
    (h : handle tools settings admin method path body = .change action) :
    route method path = .target action.target := by
  unfold handle at h
  cases hroute : route method path with
  | panic | error | read =>
      rw [hroute] at h
      cases h
  | fallback =>
      rw [hroute] at h
      dsimp only at h
      split at h <;> cases h
  | target target =>
      rw [hroute] at h
      rw [target_of_targetOutcome h]

/-- Every body parses, as `null`. -/
def nullTools : ApiTools := ⟨fun _ => .ok .null, fun _ => none⟩

/-- What a stray path changes is not in the table for it. -/
theorem Stray.exists_change {method : Method} {path : List Char} (h : Stray method path) :
    ∃ action, (∀ settings admin,
        handle nullTools settings admin method path (some "") = .change action) ∧
      ¬Grammar method path action.target := by
  cases h with
  | @bridge t more id ht hport =>
      refine ⟨.deleteBridge id, fun settings admin => ?_, fun hgrammar => ?_⟩
      · have hroute : route .delete (bridgesPath ++ (t ++ '/' :: more)) =
            .target (.deleteBridge id) := by
          show deleteRoute _ = _
          rw [deleteRoute, if_pos ⟨List.prefix_append _ _, hport⟩, idAt_append_slash ht]
        rw [handle, hroute]
        rfl
      · generalize hpath : bridgesPath ++ (t ++ '/' :: more) = path at hgrammar
        cases hgrammar with
        | @deleteBridge t' _ ht' =>
            have htail := List.append_cancel_left hpath
            exact slash_not_mem ht' (by rw [← htail]; simp)
  | @port front t mid u more id port hfront ht hmid hu hmore hport hexact =>
      refine ⟨.deletePort id port, fun settings admin => ?_, fun hgrammar => hexact ?_⟩
      · have hroute : route .delete (front ++ (t ++ '/' :: (mid ++ '/' :: (u ++ more)))) =
            .target (.deletePort id port) := by
          show deleteRoute _ = _
          rw [deleteRoute_of_port hport, deletePortRoute_of_segments hfront ht hmid hu hmore]
        rw [handle, hroute]
        rfl
      · generalize hpath : front ++ (t ++ '/' :: (mid ++ '/' :: (u ++ more))) = path at hgrammar
        cases hgrammar with
        | @deletePort t' u' _ _ ht' hu' =>
            have hpath' : front ++ (t ++ '/' :: (mid ++ '/' :: (u ++ more))) =
                bridgesPath ++ (t' ++ '/' :: ("port".toList ++ '/' :: u')) := by
              rw [hpath]
              simp
            have hbytes : bytesOf front = bytesOf bridgesPath := by
              rw [hfront]
              decide
            obtain rfl := eq_of_prefix_bytesOf (List.prefix_append front _)
              (hpath' ▸ List.prefix_append bridgesPath _) hbytes
            obtain ⟨-, htail⟩ := eq_of_append_sep (slash_not_mem ht) (slash_not_mem ht')
              (List.append_cancel_left hpath')
            obtain ⟨rfl, hlast⟩ := eq_of_append_sep hmid (by decide) htail
            refine ⟨rfl, rfl, ?_⟩
            rcases hmore with rfl | ⟨rest, rfl⟩
            · rfl
            · exact absurd (by rw [← hlast]; simp) (slash_not_mem hu')
  | @patch t more id ht =>
      refine ⟨.patchConnection id none none none, fun settings admin => ?_, fun hgrammar => ?_⟩
      · have hroute : route .patch (connectionsPath ++ (t ++ '/' :: more)) =
            .target (.patchConnection id) := by
          show patchRoute _ = _
          rw [patchRoute, if_pos (List.prefix_append _ _), idAt_append_slash ht]
        rw [handle, hroute]
        rfl
      · generalize hpath : connectionsPath ++ (t ++ '/' :: more) = path at hgrammar
        cases hgrammar with
        | @patchConnection t' _ ht' =>
            have htail := List.append_cancel_left hpath
            exact slash_not_mem ht' (by rw [← htail]; simp)
  | @connection t more id ht hport =>
      refine ⟨.deleteConnection id, fun settings admin => ?_, fun hgrammar => ?_⟩
      · have hroute : route .delete (connectionsPath ++ (t ++ '/' :: more)) =
            .target (.deleteConnection id) := by
          show deleteRoute _ = _
          rw [deleteRoute, if_neg fun hbridge => not_bridges_connections _ hbridge.1, if_neg hport,
            if_pos (List.prefix_append _ _), idAt_append_slash ht]
        rw [handle, hroute]
        rfl
      · generalize hpath : connectionsPath ++ (t ++ '/' :: more) = path at hgrammar
        cases hgrammar with
        | @deleteConnection t' _ ht' =>
            have htail := List.append_cancel_left hpath
            exact slash_not_mem ht' (by rw [← htail]; simp)

/-- The routes are those of the table exactly for the paths that do not go on behind a
number and are no distorted path of a port. -/
theorem exactRoutes_iff_not_stray (method : Method) (path : List Char) :
    ExactRoutes method path ↔ ¬Stray method path := by
  constructor
  · intro h hstray
    obtain ⟨action, hchange, hnot⟩ := hstray.exists_change
    exact hnot (h.only nullTools openSettings false (some "") action (hchange _ _))
  · intro hstray
    refine ⟨fun tools settings admin body action hchange => ?_,
      fun target hgrammar tools settings admin body => ?_⟩
    · exact (route_eq_target (route_of_change hchange)).resolve_right hstray
    · rw [handle, route_of_grammar hgrammar]

/-- A path that goes on behind the bridge's number deletes the bridge. -/
theorem strayBridge_not_exactRoutes : ¬ExactRoutes .delete "/api/bridges/1/envs".toList := by
  intro h
  have hgrammar := h.only nullTools openSettings false none (.deleteBridge 1) (by decide +kernel)
  generalize hpath : "/api/bridges/1/envs".toList = path at hgrammar
  cases hgrammar with
  | @deleteBridge t _ ht =>
      have hsplit : bridgesPath ++ "1/envs".toList = "/api/bridges/1/envs".toList := by decide
      have htail : "1/envs".toList = t := List.append_cancel_left (hsplit.trans hpath)
      exact slash_not_mem ht (by rw [← htail]; decide)

end Kdct.Router
