/-
The listener on the plain HTTP port (`handle_redirect` in `crates/kdcts/src/proxy.rs`
and `serve_challenge` in `crates/kdcts/src/acme.rs`).

Both read up to 4096 bytes, until the bytes that have come contain a blank line, and take
the request line and the `Host` header out of them by splitting at CRLF, at spaces and at
colons.  What stands between these goes into the answer as it is.

An error of the socket ends a handler without an answer and is left out; the end of the
stream and a timeout end the reads.
-/
import Kdct.Lib.HashMap
import Kdct.Lib.Utf8
import Kdct.TextSlices

namespace Kdct.Redirect

/-! ## Reading a request -/

def blankLine : Bytes := [13, 10, 13, 10]

/-- The loop that reads; an empty read is the end of the stream. -/
def readLoop (filled : Bytes) : List Bytes → Bytes
  | [] => filled
  | read :: reads =>
      if filled.length = 4096 ∨ read = [] then filled
      else
        let filled := filled ++ read.take (4096 - filled.length)
        if blankLine <:+: filled then filled else readLoop filled reads

/-- What has come, as text; bytes that are not UTF-8 count as no text. -/
def headOf (filled : Bytes) : List Char := (Utf8.dec filled).getD []

def crlf : List Char := ['\r', '\n']

/-- `split("\r\n")`. -/
def splitCrlf : List Char → List (List Char)
  | [] => [[]]
  | '\r' :: '\n' :: rest => [] :: splitCrlf rest
  | c :: rest => (splitCrlf rest).modifyHead (c :: ·)

/-- The second word of the request line. -/
def requestTarget (lines : List (List Char)) : List Char :=
  ((lines.head?.getD []).splitOn ' ')[1]?.getD ['/']

/-- The value of the first `Host` header before the blank line. -/
def hostValue : List (List Char) → Option (List Char)
  | [] => none
  | line :: lines =>
      if line = [] then none
      else
        match splitOnce ':' line with
        | some (name, value) =>
            if name.map Char.toLower = "host".toList then
              some (trim (String.ofList value)).toList
            else hostValue lines
        | none => hostValue lines

/-- The value up to its first colon. -/
def hostPart (lines : List (List Char)) : List Char :=
  ((hostValue lines.tail).map fun value => value.takeWhile (· ≠ ':')).getD []

/-! ## Answers -/

def acmePrefix : List Char := "/.well-known/acme-challenge/".toList

def challengeText (keyAuth : String) : List Char :=
  "HTTP/1.1 200 OK\r\nContent-Type: text/plain\r\nContent-Length: ".toList ++
    (toString (byteLen keyAuth)).toList ++ "\r\nConnection: close\r\n\r\n".toList ++ keyAuth.toList

def notFoundText : List Char :=
  "HTTP/1.1 404 Not Found\r\nContent-Length: 0\r\nConnection: close\r\n\r\n".toList

def badRequestText : List Char :=
  "HTTP/1.1 400 Bad Request\r\nContent-Length: 0\r\nConnection: close\r\n\r\n".toList

def redirectText (location : List Char) : List Char :=
  "HTTP/1.1 301 Moved Permanently\r\nLocation: ".toList ++ location ++
    "\r\nContent-Length: 0\r\nConnection: close\r\n\r\n".toList

def locationOf (httpsPort : UInt16) (host target : List Char) : List Char :=
  if httpsPort = 443 then "https://".toList ++ host ++ target
  else "https://".toList ++ host ++ ':' :: (toString httpsPort.toNat).toList ++ target

abbrev ChallengeMap := HashMap String String

def respond (httpsPort : UInt16) (challenges : Option ChallengeMap) (head : List Char) :
    List Char :=
  let lines := splitCrlf head
  let target := requestTarget lines
  match stripPrefix acmePrefix target with
  | some token =>
      match challenges.bind fun map => map.lookup (String.ofList token) with
      | some keyAuth => challengeText keyAuth
      | none => notFoundText
  | none =>
      let host := hostPart lines
      let target := if target = [] then ['/'] else target
      if host = [] then badRequestText else redirectText (locationOf httpsPort host target)

def respondChallenge (challenges : ChallengeMap) (head : List Char) : List Char :=
  match (stripPrefix acmePrefix (requestTarget (splitCrlf head))).bind fun token =>
      challenges.lookup (String.ofList token) with
  | some keyAuth => challengeText keyAuth
  | none => notFoundText

def handleRedirect (httpsPort : UInt16) (challenges : Option ChallengeMap) (reads : List Bytes) :
    List Char :=
  respond httpsPort challenges (headOf (readLoop [] reads))

def serveChallenge (challenges : ChallengeMap) (reads : List Bytes) : List Char :=
  respondChallenge challenges (headOf (readLoop [] reads))

/-! ## What an answer should be -/

/-- A message of a status line, header lines and a body. -/
structure Message where
  status : List Char
  headers : List (List Char)
  body : List Char

namespace Message

def render (m : Message) : List Char :=
  m.status ++ crlf ++ (m.headers.flatMap fun line => line ++ crlf) ++ crlf ++ m.body

/-- No line holds the end of another. -/
def Clean (m : Message) : Prop := ∀ line ∈ m.status :: m.headers, '\r' ∉ line ∧ '\n' ∉ line

def challenge (keyAuth : String) : Message where
  status := "HTTP/1.1 200 OK".toList
  headers := ["Content-Type: text/plain".toList,
    "Content-Length: ".toList ++ (toString (byteLen keyAuth)).toList, "Connection: close".toList]
  body := keyAuth.toList

def empty (status : String) : Message where
  status := status.toList
  headers := ["Content-Length: 0".toList, "Connection: close".toList]
  body := []

def moved (location : List Char) : Message where
  status := "HTTP/1.1 301 Moved Permanently".toList
  headers := ["Location: ".toList ++ location, "Content-Length: 0".toList,
    "Connection: close".toList]
  body := []

/-- The messages that the listener is meant to send. -/
inductive Intended : Message → Prop
  | challenge (keyAuth : String) : Intended (challenge keyAuth)
  | notFound : Intended (empty "HTTP/1.1 404 Not Found")
  | badRequest : Intended (empty "HTTP/1.1 400 Bad Request")
  | moved (location : List Char) : Intended (moved location)

end Message

/-- An address in brackets with a colon in it, alone or in front of a port. -/
def BracketedColon (value : List Char) : Prop :=
  ∃ literal rest, value = '[' :: (literal ++ ']' :: rest) ∧ ']' ∉ literal ∧ ':' ∈ literal ∧
    (rest = [] ∨ ∃ port, rest = ':' :: port)

/-- The host of a `Host` value: an address in brackets, or else what precedes the port. -/
inductive NamedHost : List Char → List Char → Prop
  | bracketed {literal rest : List Char} : ']' ∉ literal →
      (rest = [] ∨ ∃ port, rest = ':' :: port) →
      NamedHost ('[' :: (literal ++ ']' :: rest)) ('[' :: (literal ++ [']']))
  | plain {value : List Char} : ¬BracketedColon value → NamedHost value (value.takeWhile (· ≠ ':'))

/-- The answer is one of the intended messages, with lines that are lines, and a redirect
goes to the host and the target that were asked for. -/
structure Unsplit (httpsPort : UInt16) (lines : List (List Char)) (answer : List Char) : Prop where
  single : ∃ m, Message.Intended m ∧ m.Clean ∧ answer = m.render
  location : ∀ value host path, hostValue lines.tail = some value → NamedHost value host →
    host ≠ [] → requestTarget lines = '/' :: path → ¬acmePrefix <+: '/' :: path →
      answer = (Message.moved (locationOf httpsPort host ('/' :: path))).render

/-! ## Lines of the answers -/

theorem challengeText_eq (keyAuth : String) :
    challengeText keyAuth = (Message.challenge keyAuth).render := by
  have hfront : "HTTP/1.1 200 OK\r\nContent-Type: text/plain\r\nContent-Length: ".toList =
      "HTTP/1.1 200 OK".toList ++ crlf ++ ("Content-Type: text/plain".toList ++ crlf) ++
        "Content-Length: ".toList := by simp [crlf]
  have hback : "\r\nConnection: close\r\n\r\n".toList =
      crlf ++ ("Connection: close".toList ++ crlf) ++ crlf := by simp [crlf]
  unfold challengeText Message.render Message.challenge
  rw [hfront, hback]
  simp only [List.flatMap_cons, List.flatMap_nil, List.append_assoc, List.append_nil]

theorem redirectText_eq (location : List Char) :
    redirectText location = (Message.moved location).render := by
  have hfront : "HTTP/1.1 301 Moved Permanently\r\nLocation: ".toList =
      "HTTP/1.1 301 Moved Permanently".toList ++ crlf ++ "Location: ".toList := by simp [crlf]
  have hback : "\r\nContent-Length: 0\r\nConnection: close\r\n\r\n".toList =
      crlf ++ ("Content-Length: 0".toList ++ crlf) ++ ("Connection: close".toList ++ crlf) ++
        crlf := by simp [crlf]
  unfold redirectText Message.render Message.moved
  rw [hfront, hback]
  simp only [List.flatMap_cons, List.flatMap_nil, List.append_assoc, List.append_nil]

theorem notFoundText_eq : notFoundText = (Message.empty "HTTP/1.1 404 Not Found").render := by
  unfold notFoundText Message.render Message.empty
  simp [crlf]

theorem badRequestText_eq :
    badRequestText = (Message.empty "HTTP/1.1 400 Bad Request").render := by
  unfold badRequestText Message.render Message.empty
  simp [crlf]

def NoLineEnd (text : List Char) : Prop := '\r' ∉ text ∧ '\n' ∉ text

instance (text : List Char) : Decidable (NoLineEnd text) :=
  inferInstanceAs (Decidable ('\r' ∉ text ∧ '\n' ∉ text))

theorem noLineEnd_append {a b : List Char} : NoLineEnd (a ++ b) ↔ NoLineEnd a ∧ NoLineEnd b := by
  simp only [NoLineEnd, List.mem_append, not_or]
  exact and_and_and_comm

theorem noLineEnd_toString (n : Nat) : NoLineEnd (toString n).toList :=
  ⟨not_mem_toString (by decide) n, not_mem_toString (by decide) n⟩

theorem clean_challenge (keyAuth : String) : (Message.challenge keyAuth).Clean := by
  have hname : NoLineEnd "Content-Length: ".toList := by simp [NoLineEnd]
  have hlength : NoLineEnd ("Content-Length: ".toList ++ (toString (byteLen keyAuth)).toList) :=
    noLineEnd_append.mpr ⟨hname, noLineEnd_toString _⟩
  unfold Message.Clean Message.challenge
  intro line hline
  simp only [List.mem_cons, List.not_mem_nil, or_false] at hline
  rcases hline with rfl | rfl | rfl | rfl
  · simp
  · simp
  · exact hlength
  · simp

theorem clean_notFound : (Message.empty "HTTP/1.1 404 Not Found").Clean := by
  unfold Message.Clean Message.empty
  simp

theorem clean_badRequest : (Message.empty "HTTP/1.1 400 Bad Request").Clean := by
  unfold Message.Clean Message.empty
  simp

theorem clean_moved_iff {location : List Char} :
    (Message.moved location).Clean ↔ NoLineEnd location := by
  have hname : NoLineEnd "Location: ".toList := by simp [NoLineEnd]
  unfold Message.Clean Message.moved
  constructor
  · intro h
    have hline := h ("Location: ".toList ++ location) (by simp)
    exact (noLineEnd_append.mp hline).2
  · intro h line hline
    simp only [List.mem_cons, List.not_mem_nil, or_false] at hline
    rcases hline with rfl | rfl | rfl | rfl
    · simp
    · exact noLineEnd_append.mpr ⟨hname, h⟩
    · simp
    · simp

theorem not_mem_status {m : Message} (hm : m.Intended) : '\r' ∉ m.status := by
  have hok : '\r' ∉ "HTTP/1.1 200 OK".toList := by simp
  have hmoved : '\r' ∉ "HTTP/1.1 301 Moved Permanently".toList := by simp
  have hbad : '\r' ∉ "HTTP/1.1 400 Bad Request".toList := by simp
  have hnone : '\r' ∉ "HTTP/1.1 404 Not Found".toList := by simp
  cases hm with
  | challenge => exact hok
  | notFound => exact hnone
  | badRequest => exact hbad
  | moved => exact hmoved

/-- Answers that read the same have the same status. -/
theorem status_eq_of_render {m m' : Message} (hm : m.Intended) (hm' : m'.Intended)
    (h : m.render = m'.render) : m.status = m'.status := by
  unfold Message.render crlf at h
  simp only [List.append_assoc, List.cons_append] at h
  exact (eq_of_append_sep (not_mem_status hm) (not_mem_status hm') h).1

/-- Only a redirect reads like one. -/
theorem eq_moved_of_render {m : Message} {location : List Char} (hm : m.Intended)
    (h : (Message.moved location).render = m.render) : m = Message.moved location := by
  have hstatus : "HTTP/1.1 301 Moved Permanently".toList = m.status :=
    status_eq_of_render (.moved location) hm h
  cases hm with
  | challenge keyAuth =>
      have hok : "HTTP/1.1 301 Moved Permanently".toList ≠ "HTTP/1.1 200 OK".toList := by simp
      exact absurd hstatus hok
  | notFound =>
      have hnone : "HTTP/1.1 301 Moved Permanently".toList ≠ "HTTP/1.1 404 Not Found".toList := by
        simp
      exact absurd hstatus hnone
  | badRequest =>
      have hbad : "HTTP/1.1 301 Moved Permanently".toList ≠ "HTTP/1.1 400 Bad Request".toList := by
        simp
      exact absurd hstatus hbad
  | moved location' =>
      rw [← redirectText_eq, ← redirectText_eq] at h
      have hback := List.append_cancel_right h
      rw [List.append_cancel_left hback]

/-! ## Hosts -/

theorem namedHost_eq {value host : List Char} (h : NamedHost value host)
    (hcolon : ¬BracketedColon value) : host = value.takeWhile (· ≠ ':') := by
  cases h with
  | plain => rfl
  | @bracketed literal rest hliteral hrest =>
      have hno : ':' ∉ '[' :: (literal ++ [']']) := by
        intro hmem
        have hin : ':' ∈ literal := by simpa using hmem
        exact hcolon ⟨literal, rest, rfl, hliteral, hin, hrest⟩
      have happ : '[' :: (literal ++ ']' :: rest) = '[' :: (literal ++ [']']) ++ rest := by simp
      rw [happ]
      rcases hrest with rfl | ⟨port, rfl⟩
      · rw [List.append_nil, takeWhile_of_not_mem hno]
      · exact (takeWhile_ne hno port).symm

theorem noLineEnd_locationOf {httpsPort : UInt16} {host target : List Char} :
    NoLineEnd (locationOf httpsPort host target) ↔ NoLineEnd host ∧ NoLineEnd target := by
  have hscheme : NoLineEnd "https://".toList := by simp [NoLineEnd]
  have hcolon : NoLineEnd [':'] := by decide
  have hport := noLineEnd_toString httpsPort.toNat
  have hsplit : ∀ xs ys : List Char, ':' :: xs ++ ys = [':'] ++ xs ++ ys := fun _ _ => rfl
  unfold locationOf
  split
  · simp only [noLineEnd_append, hscheme, true_and]
  · rw [List.append_assoc, hsplit]
    simp only [noLineEnd_append, hscheme, hcolon, hport, true_and]

theorem locationOf_injective {httpsPort : UInt16} {host host' target : List Char}
    (h : locationOf httpsPort host target = locationOf httpsPort host' target) : host = host' := by
  unfold locationOf at h
  split at h
  · exact List.append_cancel_left (List.append_cancel_right h)
  · exact List.append_cancel_left
      (List.append_cancel_right (List.append_cancel_right h))

theorem takeWhile_ne_nil_of_namedHost {value host : List Char} (h : NamedHost value host)
    (hhost : host ≠ []) : value.takeWhile (· ≠ ':') ≠ [] := by
  cases h with
  | plain => exact hhost
  | bracketed =>
      rw [List.takeWhile_cons_of_pos (by decide)]
      exact List.cons_ne_nil _ _

/-! ## The answer to a request -/

variable {httpsPort : UInt16} {challenges : Option ChallengeMap} {head : List Char}

theorem respond_of_acme (h : acmePrefix <+: requestTarget (splitCrlf head)) :
    (∃ keyAuth, respond httpsPort challenges head = challengeText keyAuth) ∨
      respond httpsPort challenges head = notFoundText := by
  unfold respond stripPrefix
  dsimp only
  rw [if_pos h]
  dsimp only
  split
  · rename_i keyAuth _
    exact .inl ⟨keyAuth, rfl⟩
  · exact .inr rfl

theorem respond_of_no_host (h : ¬acmePrefix <+: requestTarget (splitCrlf head))
    (hhost : hostPart (splitCrlf head) = []) :
    respond httpsPort challenges head = badRequestText := by
  unfold respond stripPrefix
  dsimp only
  rw [if_neg h]
  dsimp only
  rw [if_pos hhost]

/-- The target of a redirect: an empty one is the root. -/
def sentTarget (head : List Char) : List Char :=
  if requestTarget (splitCrlf head) = [] then ['/'] else requestTarget (splitCrlf head)

theorem respond_of_host (h : ¬acmePrefix <+: requestTarget (splitCrlf head))
    (hhost : hostPart (splitCrlf head) ≠ []) :
    respond httpsPort challenges head = (Message.moved
      (locationOf httpsPort (hostPart (splitCrlf head)) (sentTarget head))).render := by
  unfold respond stripPrefix
  dsimp only
  rw [if_neg h]
  dsimp only
  rw [if_neg hhost]
  exact redirectText_eq _

theorem noLineEnd_sentTarget :
    NoLineEnd (sentTarget head) ↔ NoLineEnd (requestTarget (splitCrlf head)) := by
  unfold sentTarget
  split
  · rename_i hempty
    rw [hempty]
    decide
  · exact Iff.rfl

theorem sentTarget_of_origin {path : List Char}
    (h : requestTarget (splitCrlf head) = '/' :: path) : sentTarget head = '/' :: path := by
  unfold sentTarget
  rw [if_neg (by rw [h]; exact List.cons_ne_nil _ _), h]

theorem hostPart_of_hostValue {lines : List (List Char)} {value : List Char}
    (h : hostValue lines.tail = some value) : hostPart lines = value.takeWhile (· ≠ ':') := by
  unfold hostPart
  rw [h]
  rfl

theorem render_moved_injective {location location' : List Char}
    (h : (Message.moved location).render = (Message.moved location').render) :
    location = location' := by
  rw [← redirectText_eq, ← redirectText_eq] at h
  exact List.append_cancel_left (List.append_cancel_right h)

theorem unsplit_of_acme (h : acmePrefix <+: requestTarget (splitCrlf head)) :
    Unsplit httpsPort (splitCrlf head) (respond httpsPort challenges head) where
  single := by
    rcases @respond_of_acme httpsPort challenges head h with
      ⟨keyAuth, hanswer⟩ | hanswer
    · exact ⟨_, .challenge keyAuth, clean_challenge keyAuth,
        hanswer.trans (challengeText_eq keyAuth)⟩
    · exact ⟨_, .notFound, clean_notFound, hanswer.trans notFoundText_eq⟩
  location := by
    intro value host path _ _ _ htarget hno
    rw [htarget] at h
    exact absurd h hno

theorem unsplit_of_no_host (h : ¬acmePrefix <+: requestTarget (splitCrlf head))
    (hhost : hostPart (splitCrlf head) = []) :
    Unsplit httpsPort (splitCrlf head) (respond httpsPort challenges head) where
  single := ⟨_, .badRequest, clean_badRequest,
    (respond_of_no_host h hhost).trans badRequestText_eq⟩
  location := by
    intro value host path hvalue hnamed hne _ _
    rw [hostPart_of_hostValue hvalue] at hhost
    exact absurd hhost (takeWhile_ne_nil_of_namedHost hnamed hne)

/-- A redirect is as it should be exactly when neither part of it holds the end of a line,
and no address in brackets is cut at its first colon. -/
theorem unsplit_of_host_iff (h : ¬acmePrefix <+: requestTarget (splitCrlf head))
    (hhost : hostPart (splitCrlf head) ≠ []) :
    Unsplit httpsPort (splitCrlf head) (respond httpsPort challenges head) ↔
      NoLineEnd (requestTarget (splitCrlf head)) ∧ NoLineEnd (hostPart (splitCrlf head)) ∧
        ∀ path value, requestTarget (splitCrlf head) = '/' :: path →
          hostValue (splitCrlf head).tail = some value → ¬BracketedColon value := by
  have hanswer := @respond_of_host httpsPort challenges head h hhost
  constructor
  · intro hunsplit
    obtain ⟨m, hm, hclean, hrender⟩ := hunsplit.single
    have hmoved := eq_moved_of_render hm (hanswer.symm.trans hrender)
    rw [hmoved, clean_moved_iff, noLineEnd_locationOf, noLineEnd_sentTarget] at hclean
    refine ⟨hclean.2, hclean.1, ?_⟩
    rintro path value htarget hvalue ⟨literal, rest, rfl, hliteral, hcolon, hrest⟩
    have hlocation := hunsplit.location _ _ path hvalue (.bracketed hliteral hrest)
      (List.cons_ne_nil _ _) htarget (htarget ▸ h)
    have hsame := render_moved_injective (hanswer.symm.trans hlocation)
    rw [sentTarget_of_origin htarget] at hsame
    have hcut := locationOf_injective hsame
    have hin : ':' ∈ hostPart (splitCrlf head) := by
      rw [hcut]
      simp [hcolon]
    rw [hostPart_of_hostValue hvalue] at hin
    exact not_mem_takeWhile_ne ':' _ hin
  · rintro ⟨htarget, hpart, hbracket⟩
    constructor
    · refine ⟨_, .moved _, ?_, hanswer⟩
      rw [clean_moved_iff, noLineEnd_locationOf, noLineEnd_sentTarget]
      exact ⟨hpart, htarget⟩
    · intro value host path hvalue hnamed _ horigin _
      have hname := namedHost_eq hnamed (hbracket path value horigin hvalue)
      rw [← hostPart_of_hostValue hvalue] at hname
      rw [hname, hanswer, sentTarget_of_origin horigin]

/-- The redirect is well formed and goes where it should exactly when there is no
redirect, or the target and the host hold no line end and the host is no address in
brackets that is cut at its first colon. -/
theorem unsplit_iff (httpsPort : UInt16) (challenges : Option ChallengeMap) (reads : List Bytes) :
    Unsplit httpsPort (splitCrlf (headOf (readLoop [] reads)))
        (handleRedirect httpsPort challenges reads) ↔
      acmePrefix <+: requestTarget (splitCrlf (headOf (readLoop [] reads))) ∨
        hostPart (splitCrlf (headOf (readLoop [] reads))) = [] ∨
        (NoLineEnd (requestTarget (splitCrlf (headOf (readLoop [] reads)))) ∧
          NoLineEnd (hostPart (splitCrlf (headOf (readLoop [] reads)))) ∧
          ∀ path value, requestTarget (splitCrlf (headOf (readLoop [] reads))) = '/' :: path →
            hostValue (splitCrlf (headOf (readLoop [] reads))).tail = some value →
              ¬BracketedColon value) := by
  unfold handleRedirect
  generalize headOf (readLoop [] reads) = head
  by_cases hacme : acmePrefix <+: requestTarget (splitCrlf head)
  · exact iff_of_true (unsplit_of_acme hacme) (.inl hacme)
  · by_cases hhost : hostPart (splitCrlf head) = []
    · exact iff_of_true (unsplit_of_no_host hacme hhost) (.inr (.inl hhost))
    · rw [unsplit_of_host_iff hacme hhost]
      simp only [hacme, hhost, false_or]

theorem readLoop_singleton {bs : Bytes} (hlen : bs.length ≤ 4096) : readLoop [] [bs] = bs := by
  unfold readLoop
  split
  · rename_i h
    rcases h with h | h
    · cases h
    · exact h.symm
  · rw [List.nil_append, List.length_nil, Nat.sub_zero, List.take_of_length_le hlen]
    exact ite_self _

/-- A request whose target begins with a line feed and whose host ends with a carriage
return. -/
def splitRequest : List Char := "GET \nSet-Cookie:x=1 HTTP/1.1\r\nHost: a\r:80\r\n\r\n".toList

theorem splitRequest_not_unsplit :
    handleRedirect 443 none [Utf8.enc splitRequest] =
        redirectText ("https://a".toList ++ crlf ++ "Set-Cookie:x=1".toList) ∧
      ¬Unsplit 443 (splitCrlf (headOf (readLoop [] [Utf8.enc splitRequest])))
        (handleRedirect 443 none [Utf8.enc splitRequest]) := by
  have hlen : (Utf8.enc splitRequest).length ≤ 4096 := by decide +kernel
  have hhead : headOf (readLoop [] [Utf8.enc splitRequest]) = splitRequest := by
    rw [readLoop_singleton hlen, headOf, Utf8.dec_enc]
    rfl
  have htarget : requestTarget (splitCrlf splitRequest) = "\nSet-Cookie:x=1".toList := by
    decide +kernel
  have hhost : hostPart (splitCrlf splitRequest) = "a\r".toList := by decide +kernel
  have hno : ¬acmePrefix <+: requestTarget (splitCrlf splitRequest) := by
    rw [htarget]
    decide +kernel
  have hsome : hostPart (splitCrlf splitRequest) ≠ [] := by
    rw [hhost]
    simp
  have hlocation : locationOf 443 "a\r".toList (sentTarget splitRequest) =
      "https://a".toList ++ crlf ++ "Set-Cookie:x=1".toList := by
    decide +kernel
  rw [handleRedirect, hhead]
  constructor
  · rw [respond_of_host hno hsome, hhost, hlocation, redirectText_eq]
  · rw [unsplit_of_host_iff hno hsome, htarget]
    rintro ⟨hclean, -, -⟩
    exact absurd hclean (by decide +kernel)

end Kdct.Redirect
