/-
What a start makes of the configuration file and of the settings that the panel has
stored (`start_server` in `crates/kdcts/src/main.rs`, `AcmeManager::from_config` in
`crates/kdcts/src/acme.rs`, the settings in `crates/kdcts/src/api.rs` and
`crates/kdcts/src/db.rs`).

The panel writes to the database and the next start reads it, so what the panel shows and
what a post brings about are facts about runs with restarts in them.  The file may be
another at every start; `files` are those that are there when the paths are checked, after
a certificate has been asked for.
-/
import Kdct.Lib.Disk
import Kdct.Lib.Flow
import Kdct.Lib.HashMap
import Kdct.Server.Router

namespace Kdct

/-- The section `[server.acme]`. -/
structure AcmeConfig where
  enabled : Bool
  email : Option String
  directoryUrl : Option String
  staging : Bool
  stateDir : Option String
  deriving DecidableEq

/-- `AcmeConfig::default`. -/
def AcmeConfig.default : AcmeConfig := ⟨false, none, none, false, none⟩

/-- What a start reads of the section `[server]`. -/
structure ServerToml where
  domain : Option String
  tlsCertPath : Option String
  tlsKeyPath : Option String
  acme : Option AcmeConfig

structure AcmeManager where
  domain : String
  email : String
  directoryUrl : String
  stateDir : String
  deriving DecidableEq

def joinPath (base path : String) : String := String.ofList (Disk.join base.toList path.toList)

namespace AcmeManager

def directoryProd : String := "https://acme-v02.api.letsencrypt.org/directory"

def directoryStaging : String := "https://acme-staging-v02.api.letsencrypt.org/directory"

def fromConfig (currentDir : Option String) (domain : String) (cfg : AcmeConfig) :
    Option AcmeManager :=
  if !cfg.enabled then none
  else
    (cfg.email.filter fun email => !(trim email).isEmpty).map fun email =>
      let directoryUrl :=
        cfg.directoryUrl.getD (if cfg.staging then directoryStaging else directoryProd)
      let raw := cfg.stateDir.getD (joinPath (joinPath "kdct-state" "acme") domain)
      let stateDir :=
        if startsWith raw "/" then raw else (currentDir.map fun d => joinPath d raw).getD raw
      { domain := domain, email := email, directoryUrl := directoryUrl, stateDir := stateDir }

def certPath (mgr : AcmeManager) : String := joinPath mgr.stateDir "cert.pem"

def keyPath (mgr : AcmeManager) : String := joinPath mgr.stateDir "key.pem"

end AcmeManager

/-! ## Settings -/

/-- The table `server_config`. -/
abbrev Settings := HashMap String String

namespace Settings

/-- `set_setting`, unless the statement fails. -/
def set (db : Settings) (unwritable : String → Bool) (key value : String) : Settings :=
  if unwritable key then db else db.insert key value

def flag (b : Bool) : String := if b then "true" else "false"

/-- `.ok().flatten().map(|v| v == "true").unwrap_or(false)`. -/
def isTrue (value : Option String) : Bool := value == some "true"

theorem lookup_set (db : Settings) (unwritable : String → Bool) (key value k : String) :
    (db.set unwritable key value).lookup k =
      if k = key ∧ unwritable key = false then some value else db.lookup k := by
  unfold set
  cases h : unwritable key with
  | true => simp
  | false =>
      rw [if_neg Bool.false_ne_true, HashMap.lookup_insert_eq]
      exact if_congr (and_iff_left rfl).symm rfl rfl

/-- A statement that is only there when a value was sent. -/
theorem lookup_elim_set {α : Type} (db : Settings) (unwritable : String → Bool) (key k : String)
    (value : Option α) (text : α → String) :
    (value.elim db fun v => db.set unwritable key (text v)).lookup k =
      (if k = key ∧ unwritable k = false then value.map text else none).or (db.lookup k) := by
  cases value with
  | none => simp
  | some v =>
      rw [Option.elim_some, lookup_set]
      by_cases hk : k = key
      · subst hk
        cases unwritable k <;> simp
      · simp [hk]

end Settings

/-- What a start finds around it. -/
structure Surroundings where
  toml : ServerToml
  /-- `Path::is_file`. -/
  isFile : String → Bool
  currentDir : Option String
  /-- The keys whose reads fail. -/
  unreadable : String → Bool
  unwritable : String → Bool

namespace Surroundings

variable (env : Surroundings) (db : Settings)

/-- `get_setting`, with a failure as no value. -/
def get (key : String) : Option String := if env.unreadable key then none else db.lookup key

/-- The panel's settings own the section once it has stored `acme_enabled`. -/
def acmeConfig : Option AcmeConfig :=
  if (env.get db "acme_enabled").isSome then
    let base := env.toml.acme.getD .default
    some {
      enabled := Settings.isTrue (env.get db "acme_enabled")
      email := ((env.get db "acme_email").filter fun s => !s.isEmpty).or base.email
      staging := ((env.get db "acme_staging").map fun v => v == "true").getD base.staging
      directoryUrl := base.directoryUrl
      stateDir := ((env.get db "acme_state_dir").filter fun s => !s.isEmpty).or base.stateDir }
  else env.toml.acme

/-- Rejected settings count as none. -/
def manager (cfg : Option AcmeConfig) : Option AcmeManager :=
  env.toml.domain.bind fun domain => cfg.bind (AcmeManager.fromConfig env.currentDir domain)

/-- The paths of certificate and key: the manager's, or those in the file. -/
def tlsPaths (mgr : Option AcmeManager) : Option String × Option String :=
  match mgr with
  | some mgr => (some mgr.certPath, some mgr.keyPath)
  | none => (env.toml.tlsCertPath, env.toml.tlsKeyPath)

def tlsPathsOk (mgr : Option AcmeManager) : Bool :=
  match env.tlsPaths mgr with
  | (some c, some k) => !c.isEmpty && !k.isEmpty && env.isFile c && env.isFile k
  | _ => false

end Surroundings

/-- What the process knows after its start. -/
structure Live where
  acme : Option AcmeManager
  tlsConfigurable : Bool
  domainConfigured : Bool
  tlsLive : Bool
  /-- The certificate and the key the proxy serves. -/
  tlsForProxy : Option (String × String)

/-- The database and the process. -/
structure Panel where
  db : Settings
  live : Live

namespace Panel

/-- A certificate of its own makes the server turn the stored toggle on. -/
def start (env : Surroundings) (db : Settings) : Panel :=
  let mgr := env.manager (env.acmeConfig db)
  let paths := env.tlsPaths mgr
  let pathsOk := env.tlsPathsOk mgr
  let configurable := env.toml.domain.isSome && pathsOk
  let persisted := Settings.isTrue (env.get db "tls_enabled")
  let forced := mgr.isSome && pathsOk && !persisted
  let tlsLive := (persisted || forced) && configurable
  { db := if forced then db.set env.unwritable "tls_enabled" "true" else db
    live :=
      { acme := mgr
        tlsConfigurable := configurable
        domainConfigured := env.toml.domain.isSome
        tlsLive := tlsLive
        tlsForProxy := if tlsLive then some (paths.1.getD "", paths.2.getD "") else none } }

/-- What the arms of the API read. -/
def apiSettings (admin : Option (String × String)) (s : Panel) : ApiSettings where
  adminUser := admin.map Prod.fst
  adminPassword := admin.map Prod.snd
  tlsConfigurable := s.live.tlsConfigurable
  domainConfigured := s.live.domainConfigured

/-- What the handler of `GET /api/settings` answers under `restart_required`. -/
def restartRequired (s : Panel) : Bool :=
  Settings.isTrue (s.db.lookup "tls_enabled") != s.live.tlsLive

end Panel

/-- The statements of an arm, of which each may fail. -/
def Action.store (unwritable : String → Bool) (db : Settings) : Action → Settings
  | .setTls enabled => db.set unwritable "tls_enabled" (Settings.flag enabled)
  | .setAcme enabled email staging =>
      let db := enabled.elim db fun b => db.set unwritable "acme_enabled" (Settings.flag b)
      let db := email.elim db fun email => db.set unwritable "acme_email" email
      staging.elim db fun b => db.set unwritable "acme_staging" (Settings.flag b)
  | _ => db

inductive PanelLabel
  /-- The process starts, or replaces itself. -/
  | start (env : Surroundings)
  | request (r : HttpRequest) (unwritable : String → Bool)

/-- A database and a process that starts on it again and again. -/
structure PanelSetup where
  tools : ApiTools
  admin : Option (String × String)
  env : Surroundings
  db : Settings

namespace Panel

/-- The arm that changes the settings on a request. -/
def action (setup : PanelSetup) (s : Panel) : PanelLabel → Option Action
  | .start _ => none
  | .request r _ =>
      match Router.serve setup.tools (s.apiSettings setup.admin) r with
      | .change action => some action
      | _ => none

def step (setup : PanelSetup) (s : Panel) : PanelLabel → Option Panel
  | .start env => some (start env s.db)
  | .request r unwritable =>
      some { s with db := ((s.action setup (.request r unwritable)).map
        (Action.store unwritable s.db)).getD s.db }

end Panel

def panels (setup : PanelSetup) : Machine Panel PanelLabel where
  init := .start setup.env setup.db
  step := Panel.step setup

/-! ## What was posted last -/

/-- What an arm stores under `key`. -/
def Action.stored (key : String) : Action → Option String
  | .setTls enabled => if key = "tls_enabled" then some (Settings.flag enabled) else none
  | .setAcme enabled email staging =>
      if key = "acme_enabled" then enabled.map Settings.flag
      else if key = "acme_email" then email
      else if key = "acme_staging" then staging.map Settings.flag
      else none
  | _ => none

theorem Action.lookup_store (action : Action) (unwritable : String → Bool) (db : Settings)
    (key : String) :
    (action.store unwritable db).lookup key =
      (if unwritable key then none else action.stored key).or (db.lookup key) := by
  cases action with
  | setTls enabled =>
      have h := Settings.lookup_elim_set db unwritable "tls_enabled" key (some enabled)
        Settings.flag
      rw [Option.elim_some] at h
      rw [store, h, stored]
      cases unwritable key <;> simp
  | setAcme enabled email staging =>
      have hmail (d : Settings) :
          (email.elim d fun v => d.set unwritable "acme_email" v).lookup key =
            (if key = "acme_email" ∧ unwritable key = false then email else none).or
              (d.lookup key) := by
        have h := Settings.lookup_elim_set d unwritable "acme_email" key email id
        rwa [Option.map_id] at h
      rw [store, Settings.lookup_elim_set, hmail, Settings.lookup_elim_set, stored]
      cases unwritable key with
      | true => simp
      | false =>
          by_cases h₁ : key = "acme_enabled"
          · simp [h₁]
          · by_cases h₂ : key = "acme_email" <;> simp [h₁, h₂]
  | _ => cases h : unwritable key <;> rfl

/-- What the section should say: what was posted last, once `acme_enabled` was, and what the
file says before.  Nothing posts a directory, neither of the server nor of the state. -/
def AcmeConfig.owned (file : Option AcmeConfig) (posted : String → Option String)
    (stateDir : Option String) : Option AcmeConfig :=
  match posted "acme_enabled" with
  | none => file
  | some enabled =>
      let base := file.getD .default
      some { base with
        enabled := enabled == "true"
        email := ((posted "acme_email").filter fun s => !s.isEmpty).or base.email
        staging := ((posted "acme_staging").map fun v => v == "true").getD base.staging
        stateDir := (stateDir.filter fun s => !s.isEmpty).or base.stateDir }

namespace Panel

/-- What a post stores under `key`. -/
def posted (setup : PanelSetup) (key : String) (s : Panel) : PanelLabel → Option String
  | .start _ => none
  | .request r unwritable =>
      if unwritable key then none
      else (s.action setup (.request r unwritable)).bind (Action.stored key)

/-- The value that was posted last, or else the one that was there. -/
def lastPosted (setup : PanelSetup) (is : List PanelLabel) (key : String) : Option String :=
  ((panels setup).records (posted setup key) (panels setup).init is).getLast?.or
    (setup.db.lookup key)

variable {setup : PanelSetup} {s t : Panel} {label : PanelLabel} {key : String}

/-- A start writes the toggle and nothing else. -/
theorem lookup_start (env : Surroundings) (db : Settings) (hkey : key ≠ "tls_enabled") :
    (start env db).db.lookup key = db.lookup key := by
  show AList.lookup key (ite _ _ _) = _
  split
  · rw [Settings.lookup_set, if_neg fun h => hkey h.1]
  · rfl

theorem lookup_step (h : s.step setup label = some t) (hkey : key ≠ "tls_enabled") :
    t.db.lookup key = (s.posted setup key label).or (s.db.lookup key) := by
  cases label with
  | start env =>
      obtain rfl := Option.some.inj h
      exact lookup_start env s.db hkey
  | request r unwritable =>
      obtain rfl := Option.some.inj h
      have hposted : s.posted setup key (.request r unwritable) = if unwritable key then none
          else (s.action setup (.request r unwritable)).bind (Action.stored key) := rfl
      rw [hposted]
      cases s.action setup (.request r unwritable) with
      | none => cases unwritable key <;> rfl
      | some action => exact action.lookup_store unwritable s.db key

theorem lookup_run {is : List PanelLabel} (h : (panels setup).run (panels setup).init is = some s)
    (hkey : key ≠ "tls_enabled") : s.db.lookup key = lastPosted setup is key := by
  have hlast := Machine.eq_last_record (fun s : Panel => s.db.lookup key)
    (fun _ _ _ hstep => lookup_step hstep hkey) h
  have hinit : (panels setup).init.db.lookup key = setup.db.lookup key :=
    lookup_start setup.env setup.db hkey
  rw [hlast, hinit, lastPosted]

theorem posted_stateDir : s.posted setup "acme_state_dir" label = none := by
  cases label with
  | start env => rfl
  | request r unwritable =>
      have hstored (action : Action) : action.stored "acme_state_dir" = none := by
        cases action <;> simp [Action.stored]
      show ite _ _ _ = none
      rw [funext hstored, Option.bind_fun_none, ite_self]

theorem lastPosted_stateDir (is : List PanelLabel) :
    lastPosted setup is "acme_state_dir" = setup.db.lookup "acme_state_dir" := by
  have hnone : (panels setup).records (posted setup "acme_state_dir") (panels setup).init is = [] :=
    List.filterMap_eq_nil_iff.mpr fun _ _ => posted_stateDir
  rw [lastPosted, hnone]
  rfl

/-- No request stops the panel, so every list of labels is a run. -/
theorem exists_run (setup : PanelSetup) (s : Panel) (is : List PanelLabel) :
    ∃ t, (panels setup).run s is = some t := by
  induction is generalizing s with
  | nil => exact ⟨s, rfl⟩
  | cons label is ih =>
      cases label with
      | start env => exact ih (start env s.db)
      | request r unwritable => exact ih _

end Panel

/-- After any posts and starts, the next start goes by what was posted last. -/
theorem acme_of_posts (setup : PanelSetup) (is : List PanelLabel) (env : Surroundings) :
    ∃ t, (panels setup).run (panels setup).init (is ++ [.start env]) = some t ∧
      t.live.acme = env.manager (AcmeConfig.owned env.toml.acme
        (fun key => if env.unreadable key then none else Panel.lastPosted setup is key)
        (if env.unreadable "acme_state_dir" then none else setup.db.lookup "acme_state_dir")) := by
  obtain ⟨s, hs⟩ := Panel.exists_run setup (panels setup).init is
  refine ⟨.start env s.db, ?_, ?_⟩
  · rw [Machine.run_append, hs]
    rfl
  · have hget {key : String} (hkey : key ≠ "tls_enabled") :
        env.get s.db key = if env.unreadable key then none else Panel.lastPosted setup is key := by
      rw [Surroundings.get, Panel.lookup_run hs hkey]
    show env.manager (env.acmeConfig s.db) = _
    rw [← Panel.lastPosted_stateDir is, ← hget (by simp), Surroundings.acmeConfig,
      AcmeConfig.owned, ← hget (by simp), ← hget (by simp), ← hget (by simp)]
    cases env.get s.db "acme_enabled" with
    | none => rfl
    | some enabled => rfl

/-! ## What a restart brings about -/

namespace Panel

/-- The same surroundings at every start, and no post about ACME. -/
def Undisturbed (setup : PanelSetup) (s : Panel) (label : PanelLabel) : Prop :=
  match label with
  | .start env => env = setup.env
  | .request .. => ∀ key ∈ ["acme_enabled", "acme_email", "acme_staging"],
      s.posted setup key label = none

/-- The process is what a start in `env` would make of the database, up to the toggle. -/
structure Kept (env : Surroundings) (s : Panel) : Prop where
  acme : s.live.acme = env.manager (env.acmeConfig s.db)
  configurable : s.live.tlsConfigurable = (env.toml.domain.isSome && env.tlsPathsOk s.live.acme)
  live_of_acme : s.live.acme.isSome = true → s.live.tlsLive = s.live.tlsConfigurable
  configurable_of_live : s.live.tlsLive = true → s.live.tlsConfigurable = true

theorem acmeConfig_congr {env : Surroundings} {db db' : Settings}
    (h : ∀ key ≠ "tls_enabled", db'.lookup key = db.lookup key) :
    env.acmeConfig db' = env.acmeConfig db := by
  have hget (key : String) (hkey : key ≠ "tls_enabled") : env.get db' key = env.get db key := by
    rw [Surroundings.get, Surroundings.get, h key hkey]
  unfold Surroundings.acmeConfig
  rw [hget _ (by simp), hget _ (by simp), hget _ (by simp), hget _ (by simp)]

/-- TLS is on for a certificate of ACME's, whatever the toggle says, where it can be on at all. -/
theorem tlsLive_start (env : Surroundings) (db : Settings) :
    (start env db).live.tlsLive =
      ((Settings.isTrue (env.get db "tls_enabled") || (env.manager (env.acmeConfig db)).isSome) &&
        (start env db).live.tlsConfigurable) := by
  have hall (persisted acme pathsOk domain : Bool) :
      ((persisted || acme && pathsOk && !persisted) && (domain && pathsOk)) =
        ((persisted || acme) && (domain && pathsOk)) := by
    cases persisted <;> cases acme <;> cases pathsOk <;> cases domain <;> rfl
  exact hall _ _ _ _

theorem kept_start (env : Surroundings) (db : Settings) : Kept env (start env db) := by
  have hdb : env.acmeConfig (start env db).db = env.acmeConfig db :=
    acmeConfig_congr fun _ hkey => lookup_start env db hkey
  refine ⟨?_, rfl, fun hacme => ?_, fun hlive => ?_⟩
  · rw [hdb]
    rfl
  · have hmgr : (env.manager (env.acmeConfig db)).isSome = true := hacme
    rw [tlsLive_start, hmgr, Bool.or_true, Bool.true_and]
  · rw [tlsLive_start] at hlive
    exact (Bool.and_eq_true_iff.mp hlive).2

theorem Kept.step (h : Kept setup.env s) (hcalm : Undisturbed setup s label)
    (hstep : s.step setup label = some t) : Kept setup.env t := by
  cases label with
  | start env =>
      obtain rfl := Option.some.inj hstep
      exact hcalm ▸ kept_start setup.env s.db
  | request r unwritable =>
      have hdb : setup.env.acmeConfig t.db = setup.env.acmeConfig s.db := by
        have hsame {key : String} (hkey : key ≠ "tls_enabled")
            (hnone : s.posted setup key (.request r unwritable) = none) :
            setup.env.get t.db key = setup.env.get s.db key := by
          rw [Surroundings.get, Surroundings.get, lookup_step hstep hkey, hnone, Option.none_or]
        unfold Surroundings.acmeConfig
        rw [hsame (by simp) (hcalm _ (by simp)), hsame (by simp) (hcalm _ (by simp)),
          hsame (by simp) (hcalm _ (by simp)), hsame (by simp) posted_stateDir]
      obtain rfl := Option.some.inj hstep
      exact ⟨h.acme.trans (congrArg _ hdb.symm), h.configurable, h.live_of_acme,
        h.configurable_of_live⟩

theorem Kept.changes_iff {env : Surroundings} (h : Kept env s)
    (hread : env.unreadable "tls_enabled" = false) :
    (start env s.db).live.tlsLive ≠ s.live.tlsLive ↔
      s.restartRequired = true ∧ s.live.tlsConfigurable = true ∧ s.live.acme = none := by
  have hconf : (start env s.db).live.tlsConfigurable = s.live.tlsConfigurable := by
    rw [h.configurable, h.acme]
    rfl
  have hget : env.get s.db "tls_enabled" = s.db.lookup "tls_enabled" := by
    rw [Surroundings.get, hread, if_neg Bool.false_ne_true]
  rw [tlsLive_start, hconf, hget, ← h.acme, restartRequired]
  cases hacme : s.live.acme with
  | some mgr =>
      have hlive := h.live_of_acme (by rw [hacme]; rfl)
      simp [hlive]
  | none =>
      have hoff := h.configurable_of_live
      cases hc : s.live.tlsConfigurable with
      | true => simp
      | false =>
          have hlive : s.live.tlsLive = false := by
            cases hl : s.live.tlsLive with
            | false => rfl
            | true => exact absurd (hc.symm.trans (hoff hl)) Bool.false_ne_true
          simp [hlive]

end Panel

/-- The panel asks for a restart exactly when one would help, where the certificate is not from
ACME and TLS is configured. -/
theorem restart_changes_iff (setup : PanelSetup)
    (hread : setup.env.unreadable "tls_enabled" = false) (is : List PanelLabel)
    (hcalm : (panels setup).Meets (Panel.Undisturbed setup) (panels setup).init is) :
    (panels setup).Always (fun s =>
      (Panel.start setup.env s.db).live.tlsLive ≠ s.live.tlsLive ↔
        s.restartRequired = true ∧ s.live.tlsConfigurable = true ∧ s.live.acme = none)
      (panels setup).init is := by
  have hkept : (panels setup).Always (Panel.Kept setup.env) (panels setup).init is :=
    Machine.always_of_meets (fun _ _ _ h hc hstep => h.step hc hstep)
      (Panel.kept_start setup.env setup.db) hcalm
  exact hkept.mono fun s h => h.changes_iff hread

/-- A certificate of one's own, and TLS asked for. -/
def ownCertificate : PanelSetup where
  tools :=
    { parseJson := fun _ => .ok (.object [("tls_enabled", .bool true)])
      decodeBase64 := fun _ => none }
  admin := none
  env :=
    { toml := ⟨some "kdct.example", some "/cert.pem", some "/key.pem", none⟩
      isFile := fun _ => true
      currentDir := some "/"
      unreadable := fun _ => false
      unwritable := fun _ => false }
  db := ∅

def turnTlsOn : List PanelLabel :=
  [.request ⟨.post, "/api/settings", none, some "\x7b\"tls_enabled\": true\x7d"⟩ fun _ => false]

theorem restart_changes_iff_turnTlsOn :
    (panels ownCertificate).Always (fun s =>
      (Panel.start ownCertificate.env s.db).live.tlsLive ≠ s.live.tlsLive ↔
        s.restartRequired = true ∧ s.live.tlsConfigurable = true ∧ s.live.acme = none)
      (panels ownCertificate).init turnTlsOn := by
  refine restart_changes_iff ownCertificate rfl turnTlsOn fun t ht => ⟨?_, trivial⟩
  show ∀ key ∈ ["acme_enabled", "acme_email", "acme_staging"], _ = none
  decide +kernel

end Kdct
