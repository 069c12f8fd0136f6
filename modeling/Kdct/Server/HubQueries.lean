/-
What the panel types reaches Docker Hub (`run_api`, `search_docker_hub`, `urlencoding` and
`fetch_tags` in `crates/kdcts/src/api.rs`, `LoadImageModal.svelte` in the panel).

The panel encodes the text for a query once.  The server takes the parameter out of the raw
query without decoding it; the search encodes it once more, and the tags put it into a path
as it is and look for a slash in it.
-/
import Kdct.Lib.HashMap
import Kdct.Lib.Percent
import Kdct.Server.Router

namespace Kdct.HubQueries

/-! ## The panel -/

/-- The characters that `encodeURIComponent` leaves alone. -/
def unescaped (c : Char) : Bool := c.isAlphanum || "-_.!~*'()".toList.contains c

def encodeURIComponent (s : List Char) : List Char := Percent.encode unescaped s

/-- What the panel asks the server for. -/
inductive Call
  | search (q : List Char)
  | tags (repo : List Char) (page : Nat)

def Call.text : Call → List Char
  | search q => q
  | tags repo _ => repo

/-- The address that the panel fetches, under its base path. -/
def fetched : Call → List Char
  | .search q => "/admin/api/search?q=".toList ++ encodeURIComponent q
  | .tags repo page =>
      "/admin/api/tags?repo=".toList ++ encodeURIComponent repo ++ "&page=".toList ++
        (toString page).toList

/-- The address as it is sent: browsers escape an apostrophe in a query, other clients
may leave it. -/
def sent (escapesQuote : Bool) (call : Call) : List Char :=
  (fetched call).flatMap fun c => if escapesQuote ∧ c = '\'' then "%27".toList else [c]

/-! ## The server -/

/-- `splitn(2, '=')`. -/
def splitEq (pair : List Char) : List Char × Option (List Char) :=
  match splitOnce '=' pair with
  | some (key, value) => (key, some value)
  | none => (pair, none)

/-- The pairs of the query, if there is one. -/
def queryPairs (rawPath : List Char) : List (List Char × Option (List Char)) :=
  match (rawPath.splitOn '?')[1]? with
  | none => []
  | some query => (query.splitOn '&').map splitEq

def searchQuery (rawPath : List Char) : List Char :=
  ((queryPairs rawPath).findSome? fun kv => if kv.1 = "q".toList then kv.2 else none).getD []

/-- The parameters in a hash map, where a later one replaces an earlier one. -/
def params (rawPath : List Char) : HashMap (List Char) (List Char) :=
  (queryPairs rawPath).foldl (fun map kv => map.insert kv.1 (kv.2.getD [])) ∅

/-- `u32::from_str`. -/
def parseU32 (text : List Char) : Option Nat :=
  let number (digits : List Char) : Option Nat :=
    let n := Nat.ofDigitChars 10 digits 0
    if digits.all Char.isDigit ∧ n < 4294967296 then some n else none
  match text with
  | [] | ['+'] => none
  | '+' :: digits => number digits
  | digits => number digits

/-- The bytes that `urlencoding` leaves alone, as characters. -/
def unreserved (c : Char) : Bool := c.isAlphanum || "-_.~".toList.contains c

def urlencoding (s : List Char) : List Char :=
  (Utf8.enc s).flatMap fun byte =>
    if unreserved (Char.ofNat byte.toNat) then [Char.ofNat byte.toNat]
    else if byte = 32 then "%20".toList
    else Percent.escape byte

def searchUrl (query : List Char) : List Char :=
  "https://hub.docker.com/v2/search/repositories/?query=".toList ++ urlencoding query ++
    "&page_size=15".toList

def tagsUrl (repo : List Char) (page : Nat) : List Char :=
  if '/' ∈ repo then
    "https://hub.docker.com/v2/repositories/".toList ++ repo ++ "/tags/?page=".toList ++
      (toString page).toList ++ "&page_size=20".toList
  else
    "https://hub.docker.com/v2/repositories/library/".toList ++ repo ++ "/tags/?page=".toList ++
      (toString page).toList ++ "&page_size=20".toList

/-- The URL that the arms for search and tags request, unless they answer by themselves. -/
def hubUrl (rawPath : List Char) : Option (List Char) :=
  let path := Router.stripAdmin (Router.pathOnly (String.ofList rawPath))
  if "/api/search".toList <+: path then
    let query := searchQuery rawPath
    if query = [] then none else some (searchUrl query)
  else if "/api/tags".toList <+: path then
    let params := params rawPath
    let repo := (params.lookup "repo".toList).getD []
    let page := ((params.lookup "page".toList).bind parseU32).getD 1
    if repo = [] then none else some (tagsUrl repo page)
  else none

/-! ## What a URL stands for -/

/-- Path and query of a URL of Docker Hub, without a fragment. -/
def parseUrl (url : List Char) : Option (List Char × List Char) :=
  (stripPrefix "https://hub.docker.com".toList url).map fun rest =>
    let rest := rest.takeWhile (· ≠ '#')
    (rest.takeWhile (· ≠ '?'), (rest.dropWhile (· ≠ '?')).tail)

/-- The value of the first parameter of a name. -/
def paramValue (name query : List Char) : Option (List Char) :=
  (query.splitOn '&').findSome? fun pair =>
    (splitOnce '=' pair).bind fun kv => if kv.1 = name then some kv.2 else none

/-- Where Docker Hub keeps a repository. -/
def repositoryPath (repo : List Char) : List Char :=
  if '/' ∈ repo then repo else "library/".toList ++ repo

/-- The URL asks for the text of the call, once it is decoded. -/
def Denotes (url : List Char) : Call → Prop
  | .search q => ∃ path query value, parseUrl url = some (path, query) ∧
      path = "/v2/search/repositories/".toList ∧ paramValue "query".toList query = some value ∧
        Percent.decode value = Utf8.enc q
  | .tags repo _ => ∃ path query, parseUrl url = some (path, query) ∧
      Percent.decode path =
        Utf8.enc ("/v2/repositories/".toList ++ repositoryPath repo ++ "/tags/".toList)

/-- A call with a text makes the server request a URL that stands for it. -/
def Unchanged (escapesQuote : Bool) (call : Call) : Prop :=
  call.text ≠ [] → ∃ url, hubUrl (sent escapesQuote call) = some url ∧ Denotes url call

/-- The texts that come through: for a search those that need no escapes, for tags those
without a slash. -/
def Plain (escapesQuote : Bool) : Call → Prop
  | .search q => ∀ c ∈ q, unescaped c = true ∧ ¬(escapesQuote ∧ c = '\'')
  | .tags repo _ => '/' ∉ repo

/-! ## Encoded text -/

/-- The characters that are sent as they are. -/
def sentKeep (escapesQuote : Bool) (c : Char) : Bool :=
  unescaped c && !(escapesQuote && c == '\'')

/-- `sent` on a part of the address. -/
def quoted (escapesQuote : Bool) (cs : List Char) : List Char :=
  cs.flatMap fun c => if escapesQuote ∧ c = '\'' then "%27".toList else [c]

variable {escapesQuote : Bool}

theorem quoted_of_not_mem {cs : List Char} (h : '\'' ∉ cs) : quoted escapesQuote cs = cs := by
  induction cs with
  | nil => rfl
  | cons c cs ih =>
      rw [List.mem_cons, not_or] at h
      have hc : ¬(escapesQuote = true ∧ c = '\'') := fun hand => h.1 hand.2.symm
      rw [quoted, List.flatMap_cons, if_neg hc]
      exact congrArg (c :: ·) (ih h.2)

theorem quoted_append (a b : List Char) :
    quoted escapesQuote (a ++ b) = quoted escapesQuote a ++ quoted escapesQuote b :=
  List.flatMap_append

theorem quote_not_mem_escapes (bs : Bytes) : '\'' ∉ bs.flatMap Percent.escape := by
  intro hmem
  obtain ⟨b, -, hb⟩ := List.mem_flatMap.mp hmem
  have hlt := b.toNat_lt
  rw [Percent.escape, List.mem_cons, List.mem_cons, List.mem_singleton] at hb
  have hdigit : ∀ n, n < 16 → '\'' ≠ Percent.hexDigit n := by decide
  rcases hb with hb | hb | hb
  · exact absurd hb (by decide)
  · exact hdigit _ (by omega) hb
  · exact hdigit _ (by omega) hb

theorem quoted_encodeURIComponent (s : List Char) :
    quoted escapesQuote (encodeURIComponent s) = Percent.encode (sentKeep escapesQuote) s := by
  induction s with
  | nil => rfl
  | cons c s ih =>
      have hchar : quoted escapesQuote (Percent.encodeChar unescaped c) =
          Percent.encodeChar (sentKeep escapesQuote) c := by
        unfold Percent.encodeChar sentKeep
        by_cases hc : unescaped c = true
        · rw [if_pos hc, hc, Bool.true_and]
          by_cases hquote : escapesQuote = true ∧ c = '\''
          · obtain ⟨rfl, rfl⟩ := hquote
            decide
          · have hkeep : (!(escapesQuote && c == '\'')) = true := by
              simpa [or_iff_not_imp_left] using hquote
            rw [if_pos hkeep, quoted, List.flatMap_singleton, if_neg hquote]
        · have hfalse : unescaped c = false := by simpa using hc
          rw [if_neg hc, hfalse, Bool.false_and, if_neg Bool.false_ne_true]
          exact quoted_of_not_mem (quote_not_mem_escapes _)
      calc quoted escapesQuote (encodeURIComponent (c :: s))
          = quoted escapesQuote (Percent.encodeChar unescaped c) ++
              quoted escapesQuote (encodeURIComponent s) := quoted_append _ _
        _ = Percent.encode (sentKeep escapesQuote) (c :: s) := by
          rw [hchar, ih]
          rfl

/-- The text that the server finds in the query. -/
def sentText (escapesQuote : Bool) (s : List Char) : List Char :=
  Percent.encode (sentKeep escapesQuote) s

theorem sent_search (q : List Char) :
    sent escapesQuote (.search q) = "/admin/api/search?q=".toList ++ sentText escapesQuote q := by
  have hfront : '\'' ∉ "/admin/api/search?q=".toList := by simp
  calc sent escapesQuote (.search q)
      = quoted escapesQuote ("/admin/api/search?q=".toList ++ encodeURIComponent q) := rfl
    _ = _ := by rw [quoted_append, quoted_of_not_mem hfront, quoted_encodeURIComponent]; rfl

theorem sent_tags (repo : List Char) (page : Nat) :
    sent escapesQuote (.tags repo page) = "/admin/api/tags?repo=".toList ++
      sentText escapesQuote repo ++ "&page=".toList ++ (toString page).toList := by
  have hfront : '\'' ∉ "/admin/api/tags?repo=".toList := by simp
  have hmid : '\'' ∉ "&page=".toList := by simp
  have hpage : '\'' ∉ (toString page).toList := not_mem_toString (by decide) page
  calc sent escapesQuote (.tags repo page)
      = quoted escapesQuote ("/admin/api/tags?repo=".toList ++ encodeURIComponent repo ++
          "&page=".toList ++ (toString page).toList) := rfl
    _ = _ := by
      rw [quoted_append, quoted_append, quoted_append, quoted_of_not_mem hfront,
        quoted_of_not_mem hmid, quoted_of_not_mem hpage, quoted_encodeURIComponent]
      rfl

/-- The characters that a URL is taken apart at. -/
def separators : List Char := ['?', '&', '=', '#', '/']

/-- No encoded text holds a separator. -/
theorem separator_not_mem_encode {keep : Char → Bool} (hkeep : ∀ d ∈ separators, keep d = false)
    {d : Char} (hd : d ∈ separators) (s : List Char) : d ∉ Percent.encode keep s := by
  have hhex : ∀ d ∈ separators, d ≠ '%' ∧ Percent.hexValue d = none :=
    forall_mem_of_all (by decide)
  exact Percent.not_mem_encode (hkeep d hd) (hhex d hd).1 (hhex d hd).2

theorem separator_not_mem_sentText {d : Char} (hd : d ∈ separators) (s : List Char) :
    d ∉ sentText escapesQuote s := by
  refine separator_not_mem_encode (fun d hd => ?_) hd s
  have hescaped : ∀ d ∈ separators, unescaped d = false :=
    forall_mem_of_all (by decide)
  rw [sentKeep, hescaped d hd, Bool.false_and]

theorem sentText_eq_nil_iff {s : List Char} : sentText escapesQuote s = [] ↔ s = [] := by
  constructor
  · intro h
    have hlen : s.length ≤ (Percent.encode (sentKeep escapesQuote) s).length :=
      Percent.length_le_encode s
    unfold sentText at h
    rw [h] at hlen
    exact List.length_eq_zero_iff.mp (Nat.le_zero.mp hlen)
  · rintro rfl
    rfl

/-! ## What the server reads -/

theorem toNat_lt_of_unreserved {c : Char} (h : unreserved c = true) : c.toNat < 128 := by
  unfold unreserved at h
  rw [Bool.or_eq_true] at h
  rcases h with h | h
  · have hranges : c.isAlphanum = ((decide ('A'.val ≤ c.val ∧ c.val ≤ 'Z'.val) ||
        ('a'.val ≤ c.val && c.val ≤ 'z'.val)) || ('0'.val ≤ c.val && c.val ≤ '9'.val)) := rfl
    rw [hranges] at h
    simp only [Bool.or_eq_true, Bool.and_eq_true, decide_eq_true_eq, UInt32.le_iff_toNat_le] at h
    show c.val.toNat < 128
    have hz : 'Z'.val.toNat = 90 := rfl
    have hz' : 'z'.val.toNat = 122 := rfl
    have hnine : '9'.val.toNat = 57 := rfl
    omega
  · have hmem : c ∈ ['-', '_', '.', '~'] := List.contains_iff_mem.mp h
    simp only [List.mem_cons, List.not_mem_nil, or_false] at hmem
    rcases hmem with rfl | rfl | rfl | rfl
    all_goals decide

theorem urlencoding_eq (s : List Char) : urlencoding s = Percent.encode unreserved s := by
  have hchar : ∀ c : Char, (String.utf8EncodeChar c).flatMap (fun byte =>
      if unreserved (Char.ofNat byte.toNat) then [Char.ofNat byte.toNat]
      else if byte = 32 then "%20".toList
      else Percent.escape byte) = Percent.encodeChar unreserved c := by
    intro c
    have hspace : ∀ byte : UInt8, (if byte = 32 then "%20".toList else Percent.escape byte) =
        Percent.escape byte := by
      intro byte
      split
      · rename_i h
        rw [h]
        decide
      · rfl
    simp only [hspace]
    unfold Percent.encodeChar
    rcases Utf8.utf8EncodeChar_cases c with ⟨b, hsingle, hlt⟩ | ⟨htwo, hhigh⟩
    · have hc : [c] = [Char.ofNat b.toNat] := by
        apply Utf8.enc_injective
        rw [Utf8.enc_cons, Utf8.enc_cons, hsingle, Utf8.utf8EncodeChar_of_lt hlt]
      rw [hsingle, List.flatMap_singleton, List.flatMap_singleton, hc, (List.cons.inj hc).1]
    · have hreserved : unreserved c ≠ true := by
        intro h
        rw [Utf8.utf8EncodeChar_of_toNat_lt (toNat_lt_of_unreserved h),
          List.length_singleton] at htwo
        exact absurd htwo (by decide)
      rw [if_neg hreserved]
      refine List.flatMap_congr fun b hb => if_neg fun h => ?_
      have hge := hhigh b hb
      have hlt := toNat_lt_of_unreserved h
      rw [Utf8.toNat_ofNat_byte] at hlt
      omega
  calc urlencoding s
      = s.flatMap fun c => (String.utf8EncodeChar c).flatMap _ := List.flatMap_assoc
    _ = Percent.encode unreserved s := by
      simp only [hchar]
      rfl

theorem not_mem_append_cons {d sep : Char} {a b : List Char} (ha : d ∉ a) (hsep : d ≠ sep)
    (hb : d ∉ b) : d ∉ a ++ sep :: b := by
  rw [List.mem_append, List.mem_cons, not_or, not_or]
  exact ⟨ha, hsep, hb⟩

theorem queryPairs_eq {path query : List Char} (hpath : '?' ∉ path) (hquery : '?' ∉ query) :
    queryPairs (path ++ '?' :: query) = (query.splitOn '&').map splitEq := by
  unfold queryPairs
  rw [List.splitOn_append_cons_self_of_not_mem hpath, List.splitOn_eq_singleton hquery]
  rfl

theorem pathOnly_eq {path : List Char} (hpath : '?' ∉ path) (query : List Char) :
    Router.pathOnly (String.ofList (path ++ '?' :: query)) = path := by
  rw [Router.pathOnly, String.toList_ofList, takeWhile_ne hpath]

theorem stripAdmin_append (rest : List Char) :
    Router.stripAdmin ("/admin/".toList ++ rest) = '/' :: rest := by
  unfold Router.stripAdmin stripPrefix
  rw [if_pos (List.prefix_append _ _), List.drop_left]

theorem splitEq_append {key : List Char} (hkey : '=' ∉ key) (value : List Char) :
    splitEq (key ++ '=' :: value) = (key, some value) := by
  rw [splitEq, splitOnce_append hkey]

theorem hubUrl_sent_search {q : List Char} (hq : q ≠ []) :
    hubUrl (sent escapesQuote (.search q)) = some (searchUrl (sentText escapesQuote q)) := by
  have htext : sent escapesQuote (.search q) =
      "/admin/api/search".toList ++ '?' :: ("q".toList ++ '=' :: sentText escapesQuote q) := by
    have hfront : "/admin/api/search?q=".toList =
        "/admin/api/search".toList ++ '?' :: ("q".toList ++ ['=']) := by simp
    rw [sent_search, hfront]
    simp only [List.append_assoc, List.cons_append, List.nil_append]
  have hpath : '?' ∉ "/admin/api/search".toList := by simp
  have hkey : ∀ d ∈ separators, d ∉ "q".toList := by simp [separators]
  have hmark : ∀ d ∈ separators, d ≠ '=' →
      d ∉ "q".toList ++ '=' :: sentText escapesQuote q :=
    fun d hd hne => not_mem_append_cons (hkey d hd) hne (separator_not_mem_sentText hd q)
  have hpairs : queryPairs (sent escapesQuote (.search q)) =
      [("q".toList, some (sentText escapesQuote q))] := by
    rw [htext, queryPairs_eq hpath (hmark '?' (by decide) (by decide)),
      List.splitOn_eq_singleton (hmark '&' (by decide) (by decide)), List.map_singleton,
      splitEq_append (hkey '=' (by decide))]
  have hquery : searchQuery (sent escapesQuote (.search q)) = sentText escapesQuote q := by
    rw [searchQuery, hpairs]
    rfl
  have harm : Router.stripAdmin (Router.pathOnly
      (String.ofList (sent escapesQuote (.search q)))) = "/api/search".toList := by
    have hadmin : "/admin/api/search".toList = "/admin/".toList ++ "api/search".toList := by simp
    rw [htext, pathOnly_eq hpath, hadmin, stripAdmin_append]
    simp
  unfold hubUrl
  rw [harm, hquery]
  dsimp only
  rw [if_pos List.prefix_rfl, if_neg (mt sentText_eq_nil_iff.mp hq)]

theorem hubUrl_sent_tags {repo : List Char} (page : Nat) (hrepo : repo ≠ []) :
    hubUrl (sent escapesQuote (.tags repo page)) = some (tagsUrl (sentText escapesQuote repo)
      ((parseU32 (toString page).toList).getD 1)) := by
  have htext : sent escapesQuote (.tags repo page) = "/admin/api/tags".toList ++ '?' ::
      (("repo".toList ++ '=' :: sentText escapesQuote repo) ++ '&' ::
        ("page".toList ++ '=' :: (toString page).toList)) := by
    have hfront : "/admin/api/tags?repo=".toList =
        "/admin/api/tags".toList ++ '?' :: ("repo".toList ++ ['=']) := by simp
    have hmid : "&page=".toList = '&' :: ("page".toList ++ ['=']) := by simp
    rw [sent_tags, hfront, hmid]
    simp only [List.append_assoc, List.cons_append, List.nil_append]
  have hpath : '?' ∉ "/admin/api/tags".toList := by simp
  have hkey : ∀ d ∈ separators, d ∉ "repo".toList := by simp [separators]
  have hkeyPage : ∀ d ∈ separators, d ∉ "page".toList := by simp [separators]
  have hdigit : ∀ d ∈ separators, d.isDigit = false := by simp [separators]
  have hmark : ∀ d ∈ separators, d ≠ '=' →
      d ∉ "repo".toList ++ '=' :: sentText escapesQuote repo :=
    fun d hd hne => not_mem_append_cons (hkey d hd) hne (separator_not_mem_sentText hd repo)
  have hpage : ∀ d ∈ separators, d ≠ '=' → d ∉ "page".toList ++ '=' :: (toString page).toList :=
    fun d hd hne => not_mem_append_cons (hkeyPage d hd) hne (not_mem_toString (hdigit d hd) page)
  have hpairs : queryPairs (sent escapesQuote (.tags repo page)) =
      [("repo".toList, some (sentText escapesQuote repo)),
        ("page".toList, some (toString page).toList)] := by
    have hquery : '?' ∉ ("repo".toList ++ '=' :: sentText escapesQuote repo) ++ '&' ::
        ("page".toList ++ '=' :: (toString page).toList) :=
      not_mem_append_cons (hmark '?' (by decide) (by decide)) (by decide)
        (hpage '?' (by decide) (by decide))
    rw [htext, queryPairs_eq hpath hquery,
      List.splitOn_append_cons_self_of_not_mem (hmark '&' (by decide) (by decide)),
      List.splitOn_eq_singleton (hpage '&' (by decide) (by decide)), List.map_cons,
      List.map_singleton, splitEq_append (hkey '=' (by decide)),
      splitEq_append (hkeyPage '=' (by decide))]
  have harm : Router.stripAdmin (Router.pathOnly
      (String.ofList (sent escapesQuote (.tags repo page)))) = "/api/tags".toList := by
    have hadmin : "/admin/api/tags".toList = "/admin/".toList ++ "api/tags".toList := by simp
    rw [htext, pathOnly_eq hpath, hadmin, stripAdmin_append]
    simp
  have hsearch : ¬"/api/search".toList <+: "/api/tags".toList := by simp
  have hnames : "repo".toList ≠ "page".toList := by simp
  unfold hubUrl params
  rw [harm, hpairs]
  dsimp only [List.foldl_cons, List.foldl_nil]
  rw [if_neg hsearch, if_pos List.prefix_rfl, AList.lookup_insert_ne hnames, AList.lookup_insert,
    AList.lookup_insert]
  dsimp only [Option.getD_some, Option.bind_some]
  rw [if_neg (mt sentText_eq_nil_iff.mp hrepo)]

/-! ## What is requested -/

theorem parseUrl_eq {path query : List Char} (hpath : '?' ∉ path) (hfragment : '#' ∉ path)
    (hquery : '#' ∉ query) :
    parseUrl ("https://hub.docker.com".toList ++ (path ++ '?' :: query)) = some (path, query) := by
  have hall : '#' ∉ path ++ '?' :: query := not_mem_append_cons hfragment (by decide) hquery
  unfold parseUrl stripPrefix
  rw [if_pos (List.prefix_append _ _), Option.map_some, List.drop_left]
  dsimp only
  rw [takeWhile_of_not_mem hall, takeWhile_ne hpath, dropWhile_ne hpath, List.tail_cons]

theorem parseUrl_searchUrl (query : List Char) :
    parseUrl (searchUrl query) = some ("/v2/search/repositories/".toList,
      ("query".toList ++ '=' :: urlencoding query) ++ '&' :: "page_size=15".toList) := by
  have hfront : "https://hub.docker.com/v2/search/repositories/?query=".toList =
      "https://hub.docker.com".toList ++ ("/v2/search/repositories/".toList ++ '?' ::
        ("query".toList ++ ['='])) := by simp
  have hback : "&page_size=15".toList = '&' :: "page_size=15".toList := by simp
  have hpath : '?' ∉ "/v2/search/repositories/".toList := by simp
  have hfragment : '#' ∉ "/v2/search/repositories/".toList := by simp
  have hquery : '#' ∉ ("query".toList ++ '=' :: urlencoding query) ++ '&' ::
      "page_size=15".toList := by
    have hkey : '#' ∉ "query".toList := by simp
    have hsize : '#' ∉ "page_size=15".toList := by simp
    have hvalue : '#' ∉ urlencoding query := by
      rw [urlencoding_eq]
      exact separator_not_mem_encode (forall_mem_of_all (by decide)) (by decide) query
    exact not_mem_append_cons (not_mem_append_cons hkey (by decide) hvalue) (by decide) hsize
  rw [← parseUrl_eq hpath hfragment hquery]
  unfold searchUrl
  rw [hfront, hback]
  simp only [List.append_assoc, List.cons_append, List.nil_append]

theorem paramValue_searchUrl (query : List Char) :
    paramValue "query".toList (("query".toList ++ '=' :: urlencoding query) ++ '&' ::
      "page_size=15".toList) = some (urlencoding query) := by
  have hkey : ∀ d ∈ separators, d ∉ "query".toList := by simp [separators]
  have hvalue : '&' ∉ urlencoding query := by
    rw [urlencoding_eq]
    exact separator_not_mem_encode (forall_mem_of_all (by decide)) (by decide) query
  have hmark : '&' ∉ "query".toList ++ '=' :: urlencoding query :=
    not_mem_append_cons (hkey '&' (by decide)) (by decide) hvalue
  unfold paramValue
  rw [List.splitOn_append_cons_self_of_not_mem hmark, List.findSome?_cons,
    splitOnce_append (hkey '=' (by decide)), Option.bind_some, if_pos rfl]

/-- A search asks for the text that the server found in its query. -/
theorem denotes_searchUrl_iff {query q : List Char} :
    Denotes (searchUrl query) (.search q) ↔ query = q := by
  have hdecode : Percent.decode (urlencoding query) = Utf8.enc query := by
    rw [urlencoding_eq]
    exact Percent.decode_encode (by decide) query
  constructor
  · rintro ⟨path, params, value, hurl, -, hvalue, henc⟩
    rw [parseUrl_searchUrl] at hurl
    obtain ⟨rfl, rfl⟩ := Prod.mk.inj (Option.some.inj hurl)
    rw [paramValue_searchUrl] at hvalue
    rw [← Option.some.inj hvalue, hdecode] at henc
    exact Utf8.enc_injective henc
  · rintro rfl
    exact ⟨_, _, _, parseUrl_searchUrl query, rfl, paramValue_searchUrl query, hdecode⟩

/-- Without a separator, the server looks under `library`. -/
theorem parseUrl_tagsUrl {repo : List Char} (page : Nat) (hrepo : ∀ d ∈ separators, d ∉ repo) :
    parseUrl (tagsUrl repo page) = some
      ("/v2/repositories/library/".toList ++ repo ++ "/tags/".toList,
        "page=".toList ++ (toString page).toList ++ "&page_size=20".toList) := by
  have hfront : "https://hub.docker.com/v2/repositories/library/".toList =
      "https://hub.docker.com".toList ++ "/v2/repositories/library/".toList := by simp
  have hback : "/tags/?page=".toList = "/tags/".toList ++ '?' :: "page=".toList := by simp
  have hlibrary : ∀ d ∈ ['?', '#'], d ∉ "/v2/repositories/library/".toList := by simp
  have htags : ∀ d ∈ ['?', '#'], d ∉ "/tags/".toList := by simp
  have hseps : ∀ d ∈ ['?', '#'], d ∈ separators := by simp [separators]
  have hpath : ∀ d ∈ ['?', '#'],
      d ∉ "/v2/repositories/library/".toList ++ repo ++ "/tags/".toList := by
    intro d hd
    rw [List.mem_append, List.mem_append, not_or, not_or]
    exact ⟨⟨hlibrary d hd, hrepo d (hseps d hd)⟩, htags d hd⟩
  have hquery : '#' ∉ "page=".toList ++ (toString page).toList ++ "&page_size=20".toList := by
    have hkey : '#' ∉ "page=".toList := by simp
    have hsize : '#' ∉ "&page_size=20".toList := by simp
    rw [List.mem_append, List.mem_append, not_or, not_or]
    exact ⟨⟨hkey, not_mem_toString (by decide) page⟩, hsize⟩
  rw [← parseUrl_eq (hpath '?' (by decide)) (hpath '#' (by decide)) hquery]
  unfold tagsUrl
  rw [if_neg (hrepo '/' (by decide)), hfront, hback]
  simp only [List.append_assoc, List.cons_append]

theorem decode_tagsPath (repo : List Char) :
    Percent.decode ("/v2/repositories/library/".toList ++ sentText escapesQuote repo ++
      "/tags/".toList) =
      Utf8.enc ("/v2/repositories/".toList ++ ("library/".toList ++ repo) ++ "/tags/".toList) := by
  have hlibrary : "/v2/repositories/library/".toList =
      "/v2/repositories/".toList ++ "library/".toList := by simp
  have hfront : '%' ∉ "/v2/repositories/library/".toList := by simp
  have hback : '%' ∉ "/tags/".toList := by simp
  have hescaped : unescaped '%' = false := by decide
  have hkeep : sentKeep escapesQuote '%' = false := by rw [sentKeep, hescaped, Bool.false_and]
  have htags : Percent.decode "/tags/".toList = Utf8.enc "/tags/".toList := by
    have h := Percent.decode_append hback []
    rwa [List.append_nil, Percent.decode, List.append_nil] at h
  unfold sentText
  rw [List.append_assoc, Percent.decode_append hfront, Percent.decode_encode_append hkeep, htags,
    hlibrary]
  simp only [Utf8.enc_append, List.append_assoc]

/-- Tags are asked for as they should be, unless the repository has a slash, which the
server does not see. -/
theorem denotes_tagsUrl_iff {repo : List Char} (page page' : Nat) :
    Denotes (tagsUrl (sentText escapesQuote repo) page') (.tags repo page) ↔ '/' ∉ repo := by
  have hurl := parseUrl_tagsUrl page' fun d hd =>
    @separator_not_mem_sentText escapesQuote d hd repo
  constructor
  · rintro ⟨path, query, hparse, hdecode⟩ hslash
    rw [hurl] at hparse
    obtain ⟨rfl, rfl⟩ := Prod.mk.inj (Option.some.inj hparse)
    rw [decode_tagsPath, repositoryPath, if_pos hslash] at hdecode
    have hsame := List.append_cancel_left (List.append_cancel_right (Utf8.enc_injective hdecode))
    exact absurd (List.append_left_eq_self.mp hsame) (by simp)
  · intro hslash
    refine ⟨_, _, hurl, ?_⟩
    rw [decode_tagsPath, repositoryPath, if_neg hslash]

/-! ## The round trip -/

theorem sentText_eq_self_iff {s : List Char} :
    sentText escapesQuote s = s ↔ ∀ c ∈ s, unescaped c = true ∧ ¬(escapesQuote ∧ c = '\'') := by
  rw [sentText, Percent.encode_eq_self_iff]
  simp only [sentKeep, Bool.and_eq_true, Bool.not_eq_true', Bool.and_eq_false_iff,
    beq_eq_false_iff_ne, not_and_or, Bool.not_eq_true, ne_eq]

/-- A call reaches Docker Hub unchanged exactly when a search is for text that needs no
escapes, or tags are for a repository without a slash. -/
theorem unchanged_iff_plain (escapesQuote : Bool) (call : Call) :
    Unchanged escapesQuote call ↔ Plain escapesQuote call := by
  cases call with
  | search q =>
      show (q ≠ [] → _) ↔ ∀ c ∈ q, unescaped c = true ∧ ¬(escapesQuote ∧ c = '\'')
      by_cases hq : q = []
      · subst hq
        exact iff_of_true (fun h => absurd rfl h) (List.forall_mem_nil _)
      · rw [hubUrl_sent_search hq, ← sentText_eq_self_iff, ← denotes_searchUrl_iff]
        simp [hq]
  | tags repo page =>
      show (repo ≠ [] → _) ↔ '/' ∉ repo
      by_cases hrepo : repo = []
      · subst hrepo
        exact iff_of_true (fun h => absurd rfl h) List.not_mem_nil
      · rw [hubUrl_sent_tags page hrepo]
        simp [hrepo, denotes_tagsUrl_iff]

/-- A search for `a b` asks for `a%20b`, and tags of `a/b` for those of `library/a/b`. -/
theorem not_unchanged_space_slash :
    ¬Unchanged true (.search ['a', ' ', 'b']) ∧ ¬Unchanged true (.tags ['a', '/', 'b'] 1) := by
  constructor
  · intro h
    obtain ⟨url, hurl, hdenotes⟩ := h (List.cons_ne_nil _ _)
    rw [hubUrl_sent_search (List.cons_ne_nil _ _)] at hurl
    rw [← Option.some.inj hurl, denotes_searchUrl_iff] at hdenotes
    exact absurd hdenotes (by decide)
  · intro h
    obtain ⟨url, hurl, hdenotes⟩ := h (List.cons_ne_nil _ _)
    rw [hubUrl_sent_tags 1 (List.cons_ne_nil _ _)] at hurl
    rw [← Option.some.inj hurl, denotes_tagsUrl_iff] at hdenotes
    exact absurd hdenotes (by decide)

end Kdct.HubQueries
