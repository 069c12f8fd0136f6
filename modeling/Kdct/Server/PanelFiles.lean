/-
The files of the panel (`serve_static` in `crates/kdcts/src/api.rs`).

Whatever a path is made of, escapes, dots or links, its answer is a file from under the
directory of the panel or the start page.  And what the build has put there, under names in
ASCII and without links, is found under `/admin` however its characters are written, unless
what is written is a path of the API: a file under its own name, a page without its `.html`, a
directory by its start page, and everything else as the start page of the panel.

`percent_decode` takes each byte for a character, and so no other names are found.
-/
import Kdct.Lib.Disk
import Kdct.Server.HubQueries
import Kdct.Server.Routes

namespace Kdct

inductive FileReply
  | data (data : Bytes) (contentType : String)
  | notFound
  deriving DecidableEq

def contentType (path : List Char) : String :=
  if ".html".toList <:+ path then "text/html"
  else if ".css".toList <:+ path then "text/css"
  else if ".js".toList <:+ path then "application/javascript"
  else if ".json".toList <:+ path then "application/json"
  else if ".png".toList <:+ path then "image/png"
  else if ".svg".toList <:+ path then "image/svg+xml"
  else if ".woff2".toList <:+ path then "font/woff2"
  else "application/octet-stream"

def indexHtml : List Char := "index.html".toList

/-- The disk, the working directory and what `panel_dir` has chosen. -/
structure PanelDir where
  disk : Disk Bytes
  cwd : List (List Char)
  path : List Char

namespace PanelDir

variable (panel : PanelDir)

def canonicalize (path : List Char) : Option (List (List Char)) :=
  panel.disk.canonicalize panel.cwd path

def read (path : List Char) : Option Bytes := panel.disk.read panel.cwd path

def pathExists (path : List Char) : Bool := (panel.canonicalize path).isSome

def isFile (path : List Char) : Bool := (panel.read path).isSome

/-- Whether a path leads to somewhere under the directory. -/
def safe (path : List Char) : Bool :=
  match panel.canonicalize path, panel.canonicalize panel.path with
  | some place, some root => root.isPrefixOf place
  | _, _ => false

def serveFile (path name : List Char) : FileReply :=
  match panel.read path with
  | some data => .data data (contentType name)
  | none => .notFound

def serveFileOrFallback (name : List Char) : FileReply :=
  match panel.read (Disk.join panel.path name) with
  | some data => .data data "text/html"
  | none => .notFound

/-- The files that are tried for a name. -/
def serveName (name : List Char) : FileReply :=
  let filePath := Disk.join panel.path name
  let htmlPath := Disk.join panel.path (name ++ ".html".toList)
  let indexPath := Disk.join (Disk.join panel.path name) indexHtml
  if panel.isFile filePath && panel.safe filePath then panel.serveFile filePath name
  else if panel.pathExists htmlPath && panel.safe htmlPath then
    panel.serveFile htmlPath (name ++ ".html".toList)
  else if panel.pathExists indexPath && panel.safe indexPath then
    panel.serveFile indexPath indexHtml
  else panel.serveFileOrFallback indexHtml

def serveStatic (path : List Char) : FileReply :=
  let name := Router.percentDecode
    (String.ofList (path.dropWhile (· = '/'))).toUTF8.data.toList
  if name = [] then panel.serveFileOrFallback indexHtml
  else if (name.splitOn '/').any fun seg => seg = ['.', '.'] || seg = ['.'] then
    panel.serveFileOrFallback indexHtml
  else panel.serveName name

/-- The answer to a request that asks for a file. -/
def reply (tools : ApiTools) (settings : ApiSettings) (request : HttpRequest) :
    Option FileReply :=
  match Router.serve tools settings request with
  | .file _ => some (panel.serveStatic (Router.requestPath request))
  | _ => none

/-! ## What is found -/

/-- What is under a name in a directory. -/
def entryAt (root : List (List Char)) (name : List Char) : Option (DiskEntry Bytes) :=
  panel.disk.entry (root ++ name.splitOn '/')

def page : DiskEntry Bytes → FileReply
  | .file data => .data data "text/html"
  | _ => .notFound

/-- The file of a name, or the page, or the start page of the directory or of the panel. -/
def found (root : List (List Char)) (name : List Char) : FileReply :=
  match panel.entryAt root name with
  | some (.file data) => .data data (contentType name)
  | _ =>
      match (panel.entryAt root (name ++ ".html".toList)).or
          ((panel.entryAt root (name ++ '/' :: indexHtml)).or (panel.entryAt root indexHtml)) with
      | some entry => page entry
      | none => .notFound

/-- The directory is there, and holds no links. -/
structure Rooted (root : List (List Char)) : Prop where
  place : panel.canonicalize panel.path = some root
  dir : panel.disk.entry root = some .dir
  linkless : panel.disk.Linkless root

/-- A name of the build. -/
structure Named (name : List Char) : Prop where
  plain : Disk.PlainPath name
  ascii : ∀ c ∈ name, 0 < c.toNat ∧ c.toNat < 128

/-- The data are those of a file under the directory, or of the start page. -/
def Contains (data : Bytes) : Prop :=
  ∃ place, panel.disk.entry place = some (.file data) ∧
    ((∃ root, panel.canonicalize panel.path = some root ∧ root <+: place) ∨
      panel.canonicalize (Disk.join panel.path indexHtml) = some place)

/-- Nothing but the files of the panel, and all of them. -/
structure Serves : Prop where
  contained : ∀ tools settings request data type,
    panel.reply tools settings request = some (.data data type) → panel.Contains data
  /-- However a name is written. -/
  found : ∀ root, panel.Rooted root →
    ∀ (tools : ApiTools) (settings : ApiSettings) (request : HttpRequest)
      (name written query : List Char),
      Named name → Percent.Spells written name → '?' ∉ written → ¬"api/".toList <+: written →
      request.method = .get → Router.authorized tools settings request = true →
      query = [] ∨ query.head? = some '?' →
      request.url = String.ofList ("/admin/".toList ++ written ++ query) →
        panel.reply tools settings request = some (panel.found root name)

end PanelDir

/-! ## Names as they are written -/

namespace Router

theorem percentDecode_cons {byte : UInt8} (h : byte ≠ 0x25) (rest : Bytes) :
    percentDecode (byte :: rest) = Char.ofNat byte.toNat :: percentDecode rest := by
  match rest with
  | [] => rfl
  | [_] => rfl
  | a :: b :: rest => rw [percentDecode, if_neg h]

/-- Two digits are read as they are meant. -/
theorem hexByte_eq_unescape {a b : Char} (ha : a ∈ Percent.hexDigits)
    (hb : b ∈ Percent.hexDigits) :
    hexByte (UInt8.ofNat a.toNat) (UInt8.ofNat b.toNat) = Percent.unescape a b := by
  have hall : Percent.hexDigits.all (fun a => Percent.hexDigits.all fun b =>
      hexByte (UInt8.ofNat a.toNat) (UInt8.ofNat b.toNat) = Percent.unescape a b) = true := by
    decide +kernel
  exact of_decide_eq_true (List.all_eq_true.mp (List.all_eq_true.mp hall a ha) b hb)

/-- However a text is written, the server reads the text. -/
theorem percentDecode_of_spells {written text : List Char} (h : Percent.Spells written text)
    (hascii : ∀ c ∈ text, c.toNat < 128) : percentDecode (Utf8.enc written) = text := by
  have hbyte : ∀ c : Char, c.toNat < 128 → (UInt8.ofNat c.toNat).toNat = c.toNat := by
    intro c hc
    rw [UInt8.toNat_ofNat']
    omega
  induction h with
  | nil => rfl
  | @char c written text hc _ ih =>
      rw [List.forall_mem_cons] at hascii
      have hne : UInt8.ofNat c.toNat ≠ 0x25 := by
        intro heq
        refine hc (Char.toNat_inj.mp ?_)
        rw [← hbyte c hascii.1, heq]
        rfl
      rw [Utf8.enc_cons, Utf8.utf8EncodeChar_of_toNat_lt hascii.1, List.singleton_append,
        percentDecode_cons hne, ih hascii.2, hbyte c hascii.1, Char.ofNat_toNat]
  | @escape a b c written text hc hunescape _ ih =>
      rw [List.forall_mem_cons] at hascii
      obtain ⟨ha, hb⟩ := Percent.mem_of_unescape hunescape
      have hdigit : ∀ d ∈ Percent.hexDigits, d.toNat < 128 :=
        forall_mem_of_all (by decide +kernel)
      rw [Utf8.enc_cons, Utf8.enc_cons, Utf8.enc_cons, Utf8.utf8EncodeChar_of_toNat_lt (by decide),
        Utf8.utf8EncodeChar_of_toNat_lt (hdigit a ha),
        Utf8.utf8EncodeChar_of_toNat_lt (hdigit b hb)]
      show percentDecode (0x25 :: _ :: _ :: Utf8.enc written) = _
      rw [percentDecode, if_pos rfl, hexByte_eq_unescape ha hb, hunescape]
      dsimp only
      rw [ih hascii.2, hbyte c hc, Char.ofNat_toNat]

/-- Everything else is under `/api/`. -/
theorem getRoute_eq_fallback {path : List Char} (h : ¬"/api/".toList <+: path) :
    getRoute path = .fallback := by
  have hnot : ∀ {pre : List Char}, "/api/".toList <+: pre → ¬pre <+: path :=
    fun hapi hpre => h (hapi.trans hpre)
  have hmem : ∀ {paths : List (List Char)}, (∀ pre ∈ paths, "/api/".toList <+: pre) →
      path ∉ paths := fun hapi hpath => h (hapi path hpath)
  have hbridges : ¬(bridgesPath <+: path ∧ ¬"/port".toList <:+: path ∧ ¬"/env".toList <:+: path) :=
    fun hbridge => hnot (by decide +kernel) hbridge.1
  unfold getRoute
  rw [if_neg (hmem (by decide +kernel)), if_neg hbridges, if_neg (hmem (by decide +kernel)),
    if_neg]
  rintro (hsearch | htags | hprogress)
  · exact hnot (by decide +kernel) hsearch
  · exact hnot (by decide +kernel) htags
  · exact hnot (by decide +kernel) hprogress

end Router

namespace PanelDir

/-! ## Containment -/

variable {panel : PanelDir} {root : List (List Char)} {name : List Char}

/-- A reply with data is some file's. -/
theorem serveFile_eq_data {path shown : List Char} {data : Bytes} {type : String}
    (h : panel.serveFile path shown = .data data type) : panel.read path = some data := by
  unfold serveFile at h
  split at h
  · rename_i found hread
    rw [hread, (FileReply.data.inj h).1]
  · cases h

theorem read_eq_some {path : List Char} {data : Bytes} (h : panel.read path = some data) :
    ∃ place, panel.canonicalize path = some place ∧
      panel.disk.entry place = some (.file data) := by
  unfold read Disk.read at h
  split at h
  · rename_i found hentry
    obtain ⟨place, hplace, hfile⟩ := Option.bind_eq_some_iff.mp hentry
    obtain rfl := Option.some.inj h
    exact ⟨place, hplace, hfile⟩
  · cases h

theorem exists_of_safe {path : List Char} (h : panel.safe path = true) :
    ∃ place root, panel.canonicalize path = some place ∧
      panel.canonicalize panel.path = some root ∧ root <+: place := by
  unfold safe at h
  split at h
  · rename_i place root hplace hroot
    exact ⟨place, root, hplace, hroot, List.isPrefixOf_iff_prefix.mp h⟩
  · cases h

theorem contains_of_safe {path shown : List Char} {data : Bytes} {type : String}
    (hsafe : panel.safe path = true) (h : panel.serveFile path shown = .data data type) :
    panel.Contains data := by
  obtain ⟨place, hplace, hfile⟩ := read_eq_some (serveFile_eq_data h)
  obtain ⟨place', root, hplace', hroot, hprefix⟩ := exists_of_safe hsafe
  obtain rfl : place = place' := Option.some.inj (hplace.symm.trans hplace')
  exact ⟨place, hfile, .inl ⟨root, hroot, hprefix⟩⟩

theorem contains_of_fallback {data : Bytes} {type : String}
    (h : panel.serveFileOrFallback indexHtml = .data data type) : panel.Contains data := by
  unfold serveFileOrFallback at h
  split at h
  · rename_i found hread
    obtain ⟨place, hplace, hfile⟩ := read_eq_some hread
    rw [(FileReply.data.inj h).1] at hfile
    exact ⟨place, hfile, .inr hplace⟩
  · cases h

theorem contains_of_serveName {data : Bytes} {type : String}
    (h : panel.serveName name = .data data type) : panel.Contains data := by
  unfold serveName at h
  dsimp only at h
  split at h
  · rename_i hsafe
    exact contains_of_safe (Bool.and_eq_true_iff.mp hsafe).2 h
  · split at h
    · rename_i hsafe
      exact contains_of_safe (Bool.and_eq_true_iff.mp hsafe).2 h
    · split at h
      · rename_i hsafe
        exact contains_of_safe (Bool.and_eq_true_iff.mp hsafe).2 h
      · exact contains_of_fallback h

theorem contains_of_serveStatic {path : List Char} {data : Bytes} {type : String}
    (h : panel.serveStatic path = .data data type) : panel.Contains data := by
  unfold serveStatic at h
  dsimp only at h
  split at h
  · exact contains_of_fallback h
  · split at h
    · exact contains_of_fallback h
    · exact contains_of_serveName h

/-! ## What is there is found -/

/-- A path into the directory. -/
structure Within (name : List Char) : Prop where
  noNul : Char.ofNat 0 ∉ name
  plain : Disk.PlainPath name

theorem canonicalize_join (h : panel.Rooted root) (hname : Within name) :
    panel.canonicalize (Disk.join panel.path name) =
      if (panel.entryAt root name).isSome then some (root ++ name.splitOn '/') else none :=
  Disk.canonicalize_join h.place h.dir h.linkless hname.noNul hname.plain

theorem read_join (h : panel.Rooted root) (hname : Within name) :
    panel.read (Disk.join panel.path name) =
      match panel.entryAt root name with
      | some (.file data) => some data
      | _ => none := by
  have hplace := canonicalize_join h hname
  unfold canonicalize at hplace
  rw [read, Disk.read, hplace]
  cases hentry : panel.entryAt root name with
  | none => rfl
  | some entry =>
      rw [Option.isSome_some, if_pos rfl, Option.bind_some]
      unfold entryAt at hentry
      rw [hentry]
      cases entry <;> rfl

theorem safe_join (h : panel.Rooted root) (hname : Within name) :
    panel.safe (Disk.join panel.path name) = (panel.entryAt root name).isSome := by
  rw [safe, canonicalize_join h hname, h.place]
  cases hentry : panel.entryAt root name with
  | none => rfl
  | some entry => exact List.isPrefixOf_iff_prefix.mpr (List.prefix_append _ _)

theorem pathExists_join (h : panel.Rooted root) (hname : Within name) :
    panel.pathExists (Disk.join panel.path name) = (panel.entryAt root name).isSome := by
  rw [pathExists, canonicalize_join h hname]
  cases panel.entryAt root name <;> rfl

/-- One of the pages that are tried. -/
theorem tried_page (h : panel.Rooted root) (hname : Within name) {shown : List Char}
    (hshown : contentType shown = "text/html") (rest : FileReply) :
    (if panel.pathExists (Disk.join panel.path name) && panel.safe (Disk.join panel.path name) then
      panel.serveFile (Disk.join panel.path name) shown else rest) =
      match panel.entryAt root name with
      | some entry => page entry
      | none => rest := by
  rw [pathExists_join h hname, safe_join h hname, Bool.and_self, serveFile, read_join h hname,
    hshown]
  cases panel.entryAt root name with
  | none => rfl
  | some entry => cases entry <;> rfl

theorem fallback_eq (h : panel.Rooted root) (hname : Within indexHtml) :
    panel.serveFileOrFallback indexHtml =
      match panel.entryAt root indexHtml with
      | some entry => page entry
      | none => .notFound := by
  rw [serveFileOrFallback, read_join h hname]
  cases panel.entryAt root indexHtml with
  | none => rfl
  | some entry => cases entry <;> rfl

theorem contentType_html (name : List Char) :
    contentType (name ++ ".html".toList) = "text/html" := if_pos (List.suffix_append _ _)

theorem serveName_eq_found (h : panel.Rooted root) (hname : Within name)
    (hhtml : Within (name ++ ".html".toList)) (hindex : Within (name ++ '/' :: indexHtml))
    (hstart : Within indexHtml)
    (hjoin : Disk.join (Disk.join panel.path name) indexHtml =
      Disk.join panel.path (name ++ '/' :: indexHtml)) :
    panel.serveName name = panel.found root name := by
  have hindexType : contentType indexHtml = "text/html" := by decide +kernel
  rw [serveName, hjoin, tried_page h hindex hindexType, tried_page h hhtml (contentType_html name),
    fallback_eq h hstart, isFile, safe_join h hname, serveFile, read_join h hname]
  -- the pages in their order
  have hpages : ∀ html index start : Option (DiskEntry Bytes),
      (match html with
      | some entry => page entry
      | none =>
          match index with
          | some entry => page entry
          | none =>
              match start with
              | some entry => page entry
              | none => .notFound) =
        match html.or (index.or start) with
        | some entry => page entry
        | none => .notFound := by
    intro html index start
    cases html <;> cases index <;> cases start <;> rfl
  have hrest := hpages (panel.entryAt root (name ++ ".html".toList))
    (panel.entryAt root (name ++ '/' :: indexHtml)) (panel.entryAt root indexHtml)
  unfold found
  cases panel.entryAt root name with
  | none => exact hrest
  | some entry =>
      cases entry with
      | file data => rfl
      | dir => exact hrest
      | link target => exact hrest

theorem within_indexHtml : Within indexHtml := ⟨by decide +kernel, by decide +kernel⟩

namespace Named

variable (h : Named name)
include h

theorem within : Within name :=
  ⟨fun hnul => absurd (h.ascii _ hnul).1 (by decide), h.plain⟩

theorem within_html : Within (name ++ ".html".toList) := by
  refine ⟨?_, h.plain.append_extension (by decide) (by decide)⟩
  rw [List.mem_append, not_or]
  exact ⟨h.within.noNul, by decide⟩

theorem within_index : Within (name ++ '/' :: indexHtml) :=
  ⟨HubQueries.not_mem_append_cons h.within.noNul (by decide) within_indexHtml.noNul,
    h.plain.append_cons within_indexHtml.plain⟩

end Named

theorem serveName_named (h : panel.Rooted root) (hname : Named name) :
    panel.serveName name = panel.found root name := by
  have hpath : panel.path ≠ [] := by
    intro hnil
    have hplace := h.place
    rw [hnil] at hplace
    cases hplace
  exact serveName_eq_found h hname.within hname.within_html hname.within_index within_indexHtml
    (Disk.join_join hpath hname.plain (by decide +kernel))

/-- No name starts with a slash, however it is written. -/
theorem dropWhile_of_spells {written : List Char} (hname : Named name)
    (hspells : Percent.Spells written name) :
    ('/' :: written).dropWhile (· = '/') = written := by
  have hslash : ('/' :: written).dropWhile (· = '/') = written.dropWhile (· = '/') :=
    List.dropWhile_cons_of_pos (by decide)
  rw [hslash]
  cases hspells with
  | nil => rfl
  | @char c written text _ _ =>
      have hc : c ≠ '/' := by
        rintro rfl
        exact hname.plain.head?_ne rfl
      exact List.dropWhile_cons_of_neg (by simpa using hc)
  | escape _ _ _ => exact List.dropWhile_cons_of_neg (by decide)

theorem serveStatic_of_spells (h : panel.Rooted root) {written : List Char} (hname : Named name)
    (hspells : Percent.Spells written name) :
    panel.serveStatic ('/' :: written) = panel.found root name := by
  have hdecode : Router.percentDecode (String.ofList written).toUTF8.data.toList = name := by
    have hbytes := congrArg (·.data.toList) (Utf8.toByteArray_ofList written)
    dsimp only at hbytes
    rw [String.toUTF8, hbytes]
    exact Router.percentDecode_of_spells hspells fun c hc => (hname.ascii c hc).2
  have hdots : ((name.splitOn '/').any fun seg => seg = ['.', '.'] || seg = ['.']) ≠ true := by
    intro hany
    obtain ⟨seg, hseg, hdot⟩ := List.any_eq_true.mp hany
    have hplain := hname.plain seg hseg
    simp [hplain.2.1, hplain.2.2] at hdot
  unfold serveStatic
  dsimp only
  rw [dropWhile_of_spells hname hspells, hdecode, if_neg hname.plain.ne_nil, if_neg hdots,
    serveName_named h hname]

theorem reply_of_spells (h : panel.Rooted root) {tools : ApiTools} {settings : ApiSettings}
    {request : HttpRequest} {written query : List Char} (hname : Named name)
    (hspells : Percent.Spells written name) (hplain : '?' ∉ written)
    (hapi : ¬"api/".toList <+: written) (hmethod : request.method = .get)
    (hauth : Router.authorized tools settings request = true)
    (hmark : query = [] ∨ query.head? = some '?')
    (hurl : request.url = String.ofList ("/admin/".toList ++ written ++ query)) :
    panel.reply tools settings request = some (panel.found root name) := by
  have hraw : Router.pathOnly request.url = "/admin/".toList ++ written := by
    have hpath : '?' ∉ "/admin/".toList ++ written := by
      rw [List.mem_append, not_or]
      exact ⟨by decide +kernel, hplain⟩
    rcases hmark with rfl | hmark
    · rw [hurl, List.append_nil, Router.pathOnly, String.toList_ofList, takeWhile_of_not_mem hpath]
    · obtain ⟨rest, rfl⟩ := List.head?_eq_some_iff.mp hmark
      rw [hurl, HubQueries.pathOnly_eq hpath]
  have hpath : Router.requestPath request = '/' :: written := by
    rw [Router.requestPath, hraw, HubQueries.stripAdmin_append]
  have hroute : Router.route request.method (Router.requestPath request) = .fallback := by
    rw [hmethod, hpath]
    exact Router.getRoute_eq_fallback fun hpre => hapi (List.cons_prefix_cons.mp hpre).2
  have hadmin : Router.wasAdmin (Router.pathOnly request.url) = true := by
    rw [hraw, Router.wasAdmin, Bool.or_eq_true]
    exact .inr (List.isPrefixOf_iff_prefix.mpr (List.prefix_append _ _))
  have hserve : Router.serve tools settings request =
      .file (Router.staticName (Router.requestPath request)) := by
    rw [Router.serve, if_pos hauth, Router.handle, hroute, hadmin]
    rfl
  rw [reply, hserve]
  exact congrArg some (hpath ▸ serveStatic_of_spells h hname hspells)

theorem panel_served (panel : PanelDir) : panel.Serves where
  contained := by
    intro tools settings request data type hreply
    unfold reply at hreply
    split at hreply
    · exact contains_of_serveStatic (Option.some.inj hreply)
    · cases hreply
  found := fun _ h _ _ _ _ _ _ hname hspells hplain hapi hmethod hauth hmark hurl =>
    reply_of_spells h hname hspells hplain hapi hmethod hauth hmark hurl

/-- The start page and a script. -/
def smallPanel : PanelDir where
  disk := .oneDir "panel".toList [(indexHtml, [60, 62]), ("app.js".toList, [59])]
  cwd := []
  path := "/panel".toList

theorem rooted_smallPanel : smallPanel.Rooted ["panel".toList] where
  place := Disk.canonicalize_oneDir (by decide +kernel) (by decide +kernel) (by decide +kernel)
  dir := rfl
  linkless := Disk.linkless_oneDir _

theorem smallPanel_served : smallPanel.reply Router.openTools Router.openSettings
    ⟨.get, "/admin/%61pp%2ejs?v=1", none, none⟩ = some (.data [59] "application/javascript") := by
  have hnamed : Named "app.js".toList :=
    ⟨by decide +kernel, forall_mem_of_all (by decide +kernel)⟩
  have hspells : Percent.Spells "%61pp%2ejs".toList "app.js".toList :=
    .escape (by decide) (by decide) <| .char (by decide) <| .char (by decide) <|
      .escape (by decide) (by decide) <| .char (by decide) <| .char (by decide) .nil
  have hserved := (panel_served smallPanel).found _ rooted_smallPanel Router.openTools
    Router.openSettings ⟨.get, "/admin/%61pp%2ejs?v=1", none, none⟩ "app.js".toList
    "%61pp%2ejs".toList "?v=1".toList hnamed hspells (by decide +kernel) (by decide +kernel) rfl rfl
    (.inr rfl) (by decide +kernel)
  exact hserved.trans (by decide +kernel)

end PanelDir

end Kdct
