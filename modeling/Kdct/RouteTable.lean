/-
Public paths and the ports behind them (`crates/kdcts/src/proxy.rs`).
-/
import Kdct.Lib.HashMap
import Kdct.PortPool
import Kdct.Text

namespace Kdct

def adminPrefix : String := "/admin"

def isAdminPath (path : String) : Bool := path == adminPrefix || startsWith path "/admin/"

structure RouteTable where
  routes : HashMap String Port

inductive RouteError
  | reserved (path : String)
  | inUse (path : String)
  deriving DecidableEq

def RouteError.text : RouteError → String
  | .reserved path => "Path '" ++ path ++ "' is reserved for the admin panel"
  | .inUse path => "Path '" ++ path ++ "' is already in use"

namespace RouteTable

def new : RouteTable where
  routes := ∅

def set (t : RouteTable) (path : String) (port : Port) : Except RouteError RouteTable :=
  if isAdminPath path then .error (.reserved path)
  else if (t.routes.lookup path).isSome then .error (.inUse path)
  else .ok { t with routes := t.routes.insert path port }

def removeByPort (t : RouteTable) (port : Port) : RouteTable :=
  { t with routes := HashMap.retain (fun _ p => p != port) t.routes }

/-- One turn of the loop in `resolve`: a longer match replaces a shorter one. -/
def better (path : String) (best : Option (String × Port)) (route : String) (port : Port) :
    Option (String × Port) :=
  if startsWith path route then
    match best with
    | some (existing, p) =>
        if byteLen route > byteLen existing then some (route, port) else some (existing, p)
    | none => some (route, port)
  else best

def resolve (t : RouteTable) (path : String) : Option Port :=
  match t.routes.lookup path with
  | some port => some port
  | none => (t.routes.foldl (fun best route port => better path best route port) none).map Prod.snd

theorem set_ok {t t' : RouteTable} {path : String} {port : Port} (h : t.set path port = .ok t') :
    t.routes.lookup path = none ∧
      ∀ q, t'.routes.lookup q = if q = path then some port else t.routes.lookup q := by
  unfold set at h
  split at h
  · cases h
  · split at h
    · cases h
    · rename_i hnone
      obtain rfl := Except.ok.inj h
      exact ⟨by simpa using hnone, fun q => HashMap.lookup_insert_eq _ _ _ _⟩

theorem removeByPort_lookup {t : RouteTable} {port p : Port} {path : String} :
    (t.removeByPort port).routes.lookup path = some p ↔
      t.routes.lookup path = some p ∧ p ≠ port := by
  show (HashMap.retain _ _).lookup path = some p ↔ _
  rw [HashMap.lookup_retain, bne_iff_ne]

end RouteTable

end Kdct
