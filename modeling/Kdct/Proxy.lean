/-
Where the proxy sends a request (`KdctProxy::upstream_peer` in
`crates/kdcts/src/proxy.rs`).

`is_admin_path` looks at whole segments of a path; `resolve` compares prefixes of the
text.  A route is served to its own subtree only where the two agree, and they agree
on every path exactly when all routes end with a slash.
-/
import Kdct.Resolve

namespace Kdct

/-- What `upstream_peer` reads of a request. -/
structure RequestHead where
  uriHost : Option String
  hostHeader : Option String
  path : String
  deriving DecidableEq

structure HttpPeer where
  address : String
  port : Port
  tls : Bool
  sni : String
  deriving DecidableEq

structure KdctProxy where
  routeTable : RouteTable
  /-- The host to enforce; `none` accepts any. -/
  domain : Option String
  apiPort : Port

def RequestHead.host (req : RequestHead) : String :=
  match req.uriHost with
  | some h => if h ≠ "" then h else hostOfHeader
  | none => hostOfHeader
where
  /-- The header up to its first colon. -/
  hostOfHeader : String :=
    String.ofList ((req.hostHeader.getD "").toList.takeWhile (· ≠ ':'))

namespace KdctProxy

def accepts (proxy : KdctProxy) (req : RequestHead) : Bool :=
  proxy.domain.all fun expected => req.host == expected

/-- The error is an HTTP status. -/
def upstreamPeer (proxy : KdctProxy) (req : RequestHead) : Except Nat HttpPeer :=
  if proxy.accepts req then
    let peer (port : Port) : HttpPeer :=
      { address := "127.0.0.1", port := port, tls := false, sni := proxy.domain.getD req.host }
    if isAdminPath req.path then .ok (peer proxy.apiPort)
    else
      match proxy.routeTable.resolve req.path with
      | none => .error 404
      | some port => .ok (peer port)
  else .error 404

end KdctProxy

namespace RouteTable

/-- The entry that `resolve` takes the port from. -/
def entry (t : RouteTable) (path : String) : Option (String × Port) :=
  match t.routes.lookup path with
  | some port => some (path, port)
  | none => t.routes.foldl (fun best route port => better path best route port) none

/-- The segment rule of `is_admin_path`, for any route. -/
def InSubtree (route path : String) : Prop :=
  route = "/" ∨ path = route ∨ startsWith path (route ++ "/") = true ∨ endsWith route "/" = true

instance (route path : String) : Decidable (InSubtree route path) :=
  inferInstanceAs (Decidable (_ ∨ _))

end RouteTable

/-- The route by which the proxy serves a request. -/
def KdctProxy.servedBy (proxy : KdctProxy) (req : RequestHead) : Option String :=
  if proxy.accepts req ∧ isAdminPath req.path = false then
    (proxy.routeTable.entry req.path).map Prod.fst
  else none

namespace RouteTable

variable {t : RouteTable} {path route : String} {port : Port}

theorem isAdminPath_iff : isAdminPath path = true ↔ InSubtree adminPrefix path := by
  unfold isAdminPath InSubtree adminPrefix
  rw [Bool.or_eq_true, beq_iff_eq]
  constructor
  · rintro (h | h)
    · exact .inr (.inl h)
    · exact .inr (.inr (.inl h))
  · rintro (h | h | h | h)
    · exact absurd h (by decide)
    · exact .inl h
    · exact .inr h
    · exact absurd h (by decide)

theorem resolve_eq_entry : t.resolve path = (t.entry path).map Prod.snd := by
  unfold resolve entry
  cases t.routes.lookup path <;> rfl

theorem longest_of_entry (h : t.entry path = some (route, port)) :
    t.Longest path route port := by
  unfold entry at h
  split at h
  · rename_i hlookup
    obtain ⟨rfl, rfl⟩ := Prod.mk.inj (Option.some.inj h)
    exact longest_of_lookup hlookup
  · rw [foldl_better] at h
    exact longest_of_argmax h

theorem exists_entry (hroute : (t.routes.lookup route).isSome)
    (hpath : startsWith path route = true) : ∃ e, t.entry path = some e := by
  by_contra hnone
  have hresolve : t.resolve path = none := by
    rw [resolve_eq_entry, Option.eq_none_iff_forall_ne_some.mpr fun e he => hnone ⟨e, he⟩]
    rfl
  have hfalse := resolve_eq_none_iff.mp hresolve route hroute
  rw [hpath] at hfalse
  cases hfalse

/-- A request is served within the subtree of its route exactly if every route that
stops inside a segment of its path is shorter than another route the path starts
with. -/
theorem entry_inSubtree_iff : (∀ e, t.entry path = some e → InSubtree e.1 path) ↔
    ∀ r, (t.routes.lookup r).isSome → startsWith path r = true → ¬InSubtree r path →
      ∃ r', (t.routes.lookup r').isSome ∧ startsWith path r' = true ∧ byteLen r < byteLen r' := by
  constructor
  · intro h r hr hpath hout
    obtain ⟨⟨route, port⟩, he⟩ := exists_entry hr hpath
    have hlongest := longest_of_entry he
    refine ⟨route, by rw [hlongest.registered]; rfl, hlongest.matching, ?_⟩
    refine Nat.lt_of_le_of_ne (hlongest.longest r hr hpath) fun hlen => hout ?_
    have hprefix : startsWith route r = true :=
      startsWith_of_byteLen_le hpath hlongest.matching (Nat.le_of_eq hlen)
    rw [eq_of_startsWith hprefix (Nat.le_of_eq hlen.symm)]
    exact h _ he
  · rintro h ⟨route, port⟩ he
    have hlongest := longest_of_entry he
    by_contra hout
    obtain ⟨r', hr', hpath', hlt⟩ :=
      h route (by rw [hlongest.registered]; rfl) hlongest.matching hout
    exact absurd (hlongest.longest r' hr' hpath') (Nat.not_le.mpr hlt)

/-! ## Routes without a slash at the end -/

/-- The path of a route with `n` letters appended. -/
def sibling (route : String) (n : Nat) : String := route ++ String.ofList (List.replicate n 'x')

theorem startsWith_sibling (route : String) (n : Nat) :
    startsWith (sibling route n) route = true :=
  startsWith_iff.mpr (by rw [sibling, String.toList_append]; exact List.prefix_append _ _)

/-- A route that matches such a path and is not shorter than the first has letters
appended too. -/
theorem matches_sibling {n : Nat} {r : String} (hpath : startsWith (sibling route n) r = true)
    (hlen : byteLen route ≤ byteLen r) : ∃ k ≤ n, r = sibling route k := by
  obtain ⟨rest, rfl⟩ :=
    eq_append_of_startsWith (startsWith_of_byteLen_le (startsWith_sibling route n) hpath hlen)
  have hrest : rest.toList <+: List.replicate n 'x' := by
    have h := startsWith_iff.mp hpath
    rwa [sibling, String.toList_append, String.toList_append, List.prefix_append_right_inj,
      String.toList_ofList] at h
  obtain ⟨hk, heq⟩ := List.prefix_replicate_iff.mp hrest
  refine ⟨rest.toList.length, hk, ?_⟩
  rw [sibling, ← heq, String.ofList_toList]

theorem endsWith_slash_iff {s : String} : endsWith s "/" = true ↔ s.toList.getLast? = some '/' := by
  rw [endsWith_iff, List.getLast?_eq_some_iff]
  exact exists_congr fun _ => eq_comm

theorem endsWith_sibling {k : Nat} (hroute : endsWith route "/" = false) :
    endsWith (sibling route k) "/" = false := by
  rw [Bool.eq_false_iff, ne_eq, endsWith_slash_iff] at hroute ⊢
  rw [sibling, String.toList_append, String.toList_ofList]
  cases k with
  | zero => rwa [List.replicate_zero, List.append_nil]
  | succ k =>
      rw [List.replicate_succ', ← List.append_assoc, List.getLast?_concat]
      decide

theorem not_inSubtree_sibling {k n : Nat} (hroute : endsWith route "/" = false) (hk : k < n) :
    ¬InSubtree (sibling route k) (sibling route n) := by
  have hends := endsWith_sibling (k := k) hroute
  rintro (h | h | h | h)
  · rw [h] at hends
    exact absurd hends (by decide)
  · have hlist := congrArg (fun s => s.toList.length) h
    simp only [sibling, String.toList_append, String.toList_ofList, List.length_append,
      List.length_replicate] at hlist
    omega
  · have hprefix := startsWith_iff.mp h
    simp only [sibling, String.toList_append, String.toList_ofList, List.append_assoc,
      List.prefix_append_right_inj] at hprefix
    have hmem : '/' ∈ List.replicate n 'x' := by
      refine hprefix.subset (List.mem_append.mpr (.inr ?_))
      decide
    exact absurd (List.eq_of_mem_replicate hmem) (by decide)
  · rw [h] at hends
    cases hends

theorem not_admin_sibling {n : Nat} (hadmin : isAdminPath route = false)
    (hroute : endsWith route "/" = false) (hn : 0 < n) :
    isAdminPath (sibling route n) = false := by
  rw [Bool.eq_false_iff]
  intro hsibling
  obtain ⟨m, rfl⟩ : ∃ m, n = m + 1 := ⟨n - 1, by omega⟩
  rw [isAdminPath, Bool.or_eq_true, beq_iff_eq] at hsibling
  rcases hsibling with h | h
  · have hlast := congrArg (fun s => s.toList.getLast?) h
    simp only [sibling, String.toList_append, String.toList_ofList] at hlast
    rw [List.replicate_succ', ← List.append_assoc, List.getLast?_concat] at hlast
    exact absurd hlast (by decide)
  · rcases Nat.le_total (byteLen "/admin/") (byteLen route) with hlen | hlen
    · -- The reserved prefix lies in the route.
      have hin := startsWith_of_byteLen_le h (startsWith_sibling route (m + 1)) hlen
      rw [isAdminPath, hin, Bool.or_true] at hadmin
      cases hadmin
    · obtain ⟨k, -, hk⟩ := matches_sibling h hlen
      have hends := endsWith_sibling (k := k) hroute
      rw [← hk] at hends
      exact absurd hends (by decide)

/-! ## The routes of a table -/

/-- The proxies on this table serve a path by a route whose subtree it is in. -/
def KeepsTo (t : RouteTable) (path : String) : Prop :=
  ∀ (proxy : KdctProxy) (req : RequestHead) (route : String), proxy.routeTable = t →
    req.path = path → proxy.servedBy req = some route → InSubtree route path

theorem keepsTo_iff : t.KeepsTo path ↔
    (isAdminPath path = false → ∀ e, t.entry path = some e → InSubtree e.1 path) := by
  constructor
  · intro h hadmin e he
    refine h { routeTable := t, domain := none, apiPort := 0 }
      { uriHost := none, hostHeader := none, path := path } e.1 rfl rfl ?_
    rw [KdctProxy.servedBy, if_pos ⟨rfl, hadmin⟩, he]
    rfl
  · rintro h proxy req route rfl rfl hserved
    unfold KdctProxy.servedBy at hserved
    split at hserved
    · rename_i haccepts
      obtain ⟨e, he, rfl⟩ := Option.map_eq_some_iff.mp hserved
      exact h haccepts.2 e he
    · cases hserved

/-- The routes of a table are of bounded length. -/
theorem exists_longer (t : RouteTable) :
    ∃ n, 0 < n ∧ ∀ r, (t.routes.lookup r).isSome → r.toList.length < n := by
  have hkeys : ∀ keys : List String, ∃ n, 0 < n ∧ ∀ r ∈ keys, r.toList.length < n := by
    intro keys
    induction keys with
    | nil => exact ⟨1, Nat.one_pos, fun _ h => by cases h⟩
    | cons key keys ih =>
        obtain ⟨n, hn, hlt⟩ := ih
        refine ⟨n + key.toList.length + 1, Nat.succ_pos _, fun r hr => ?_⟩
        rcases List.mem_cons.mp hr with rfl | hr
        · omega
        · have := hlt r hr
          omega
  obtain ⟨n, hn, hlt⟩ := hkeys t.routes.keys
  exact ⟨n, hn, fun r hr => hlt r (AList.lookup_isSome.mp hr)⟩

theorem length_sibling (route : String) (n : Nat) : n ≤ (sibling route n).toList.length := by
  rw [sibling, String.toList_append, String.toList_ofList, List.length_append,
    List.length_replicate]
  exact Nat.le_add_left _ _

/-- A route that does not end with a slash is led astray by letters appended to it. -/
theorem not_keepsTo_sibling (ht : t.Unreserved) (hroute : (t.routes.lookup route).isSome)
    (hends : endsWith route "/" = false) : ∃ n, ¬t.KeepsTo (sibling route n) := by
  obtain ⟨n, hn, hlt⟩ := exists_longer t
  refine ⟨n, fun h => ?_⟩
  have hadmin : isAdminPath route = false := by
    rw [Bool.eq_false_iff]
    intro hadmin
    rw [ht route hadmin] at hroute
    cases hroute
  obtain ⟨⟨r, port⟩, he⟩ := exists_entry hroute (startsWith_sibling route n)
  have hlongest := longest_of_entry he
  have hr : (t.routes.lookup r).isSome := by
    rw [hlongest.registered]
    rfl
  obtain ⟨k, hk, rfl⟩ := matches_sibling hlongest.matching
    (hlongest.longest route hroute (startsWith_sibling route n))
  -- No route is as long as the path.
  have hne : k ≠ n := by
    rintro rfl
    exact absurd (hlt _ hr) (Nat.not_lt.mpr (length_sibling route k))
  exact not_inSubtree_sibling hends (Nat.lt_of_le_of_ne hk hne)
    (keepsTo_iff.mp h (not_admin_sibling hadmin hends hn) _ he)

/-- A table serves a path within the subtree of its route exactly if each route that
stops inside a segment of the path is shorter than another one the path starts with;
it does so for every path exactly if every route ends with a slash. -/
theorem keepsTo_exact (ht : tables.Reachable t) :
    (∀ path, isAdminPath path = false → (t.KeepsTo path ↔
      ∀ r, (t.routes.lookup r).isSome → startsWith path r = true → ¬InSubtree r path →
        ∃ r', (t.routes.lookup r').isSome ∧ startsWith path r' = true ∧
          byteLen r < byteLen r')) ∧
      ((∀ path, t.KeepsTo path) ↔
        ∀ route, (t.routes.lookup route).isSome → endsWith route "/" = true) := by
  refine ⟨fun path hadmin => ?_, fun h route hroute => ?_, fun h path => ?_⟩
  · rw [keepsTo_iff, ← entry_inSubtree_iff]
    exact ⟨fun h => h hadmin, fun h _ => h⟩
  · by_contra hends
    obtain ⟨n, hn⟩ := not_keepsTo_sibling (unreserved_of_reachable ht) hroute
      (Bool.eq_false_iff.mpr hends)
    exact hn (h _)
  · refine keepsTo_iff.mpr fun _ e he => .inr (.inr (.inr (h e.1 ?_)))
    rw [(longest_of_entry he).registered]
    rfl

/-- Two services whose routes end with a slash. -/
def slashedRoutes : List TableLabel := [.set "/app/" 9000, .set "/" 9001]

theorem keepsTo_exact_slashedRoutes : ∃ t, tables.run .new slashedRoutes = some t ∧
    ∀ path, t.KeepsTo path := by
  have hrun : ∃ t, tables.run .new slashedRoutes = some t ∧
      ∀ route ∈ t.routes.keys, endsWith route "/" = true := ⟨_, rfl, by decide⟩
  obtain ⟨t, ht, hends⟩ := hrun
  exact ⟨t, ht, (keepsTo_exact ⟨slashedRoutes, ht⟩).2.mpr fun route hroute =>
    hends route (AList.lookup_isSome.mp hroute)⟩

/-- The route of one service takes the requests for another path. -/
theorem apple_reaches_app : ∃ t, tables.run .new [.set "/app" 9000] = some t ∧
    ∃ (proxy : KdctProxy) (req : RequestHead), proxy.routeTable = t ∧ req.path = "/apple" ∧
      proxy.servedBy req = some "/app" ∧ (proxy.upstreamPeer req).toOption.map HttpPeer.port =
        some 9000 ∧ ¬InSubtree "/app" "/apple" := by
  refine ⟨_, rfl, { routeTable := _, domain := some "example.com", apiPort := 8080 },
    { uriHost := none, hostHeader := some "example.com:443", path := "/apple" }, rfl, rfl, ?_⟩
  decide

end RouteTable

end Kdct
