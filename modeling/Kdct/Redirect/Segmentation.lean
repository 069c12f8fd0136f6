/-
Whether an answer of the plain HTTP listener depends on how the request was cut into reads.

The reads end with the first buffer that holds a blank line, and what of the bytes behind it
has come by then depends on the reads.  The lines before decide the answer, but the whole
buffer has to be UTF-8: a character behind the blank line of which only a part has come
makes a request without text of one that has some.
-/
import Kdct.Redirect

namespace Kdct.Redirect

/-- A request and the reads that bring it. -/
structure Splits (request : Bytes) (reads : List Bytes) : Prop where
  flatten : reads.flatten = request
  nonempty : ∀ read ∈ reads, read ≠ []

/-- However the request comes, both handlers answer the same. -/
def SameAnswers (httpsPort : UInt16) (challenges : Option ChallengeMap) (map : ChallengeMap)
    (request : Bytes) : Prop :=
  ∀ reads reads', Splits request reads → Splits request reads' →
    handleRedirect httpsPort challenges reads = handleRedirect httpsPort challenges reads' ∧
      serveChallenge map reads = serveChallenge map reads'

/-! ## The first blank line -/

/-- The bytes up to the first blank line and with it. -/
def front : Bytes → Bytes
  | [] => []
  | b :: bs => if blankLine <+: b :: bs then blankLine else b :: front bs

/-- The bytes behind the first blank line. -/
def rest (bs : Bytes) : Bytes := bs.drop (front bs).length

theorem front_isPrefix (bs : Bytes) : front bs <+: bs := by
  induction bs with
  | nil => exact List.prefix_rfl
  | cons b bs ih =>
      unfold front
      split
      · rename_i h
        exact h
      · exact (List.prefix_cons_inj b).mpr ih

theorem front_append_rest (bs : Bytes) : front bs ++ rest bs = bs :=
  (List.prefix_append_drop (front_isPrefix bs)).symm

theorem prefix_rest {bs q : Bytes} (h : front bs ++ q <+: bs) : q <+: rest bs := by
  obtain ⟨t, ht⟩ := h
  have hdrop := congrArg (List.drop (front bs).length) ht
  rw [List.append_assoc, List.drop_left] at hdrop
  exact ⟨t, hdrop⟩

theorem exists_front_eq {bs : Bytes} (h : blankLine <:+: bs) :
    ∃ lines, front bs = lines ++ blankLine := by
  induction bs with
  | nil => exact absurd (List.infix_nil.mp h) (List.cons_ne_nil _ _)
  | cons b bs ih =>
      unfold front
      split
      · exact ⟨[], rfl⟩
      · rename_i hno
        obtain ⟨lines, hlines⟩ := ih ((List.infix_cons_iff.mp h).resolve_left hno)
        exact ⟨b :: lines, by rw [hlines, List.cons_append]⟩

/-- A buffer with a blank line goes at least to the first one. -/
theorem front_le_of_blank {bs p : Bytes} (hp : p <+: bs) (h : blankLine <:+: p) :
    front bs <+: p := by
  induction bs generalizing p with
  | nil =>
      rw [List.prefix_nil.mp hp]
      exact List.prefix_rfl
  | cons b bs ih =>
      cases p with
      | nil => exact absurd (List.infix_nil.mp h) (List.cons_ne_nil _ _)
      | cons b' p =>
          obtain ⟨rfl, htail⟩ := List.cons_prefix_cons.mp hp
          unfold front
          split
          · rename_i hblank
            have hlen : blankLine.length ≤ (b' :: p).length := h.length_le
            exact List.prefix_of_prefix_length_le hblank hp hlen
          · rename_i hno
            have hrest : blankLine <:+: p :=
              (List.infix_cons_iff.mp h).resolve_left fun hpre => hno (hpre.trans hp)
            exact (List.prefix_cons_inj b').mpr (ih htail hrest)

/-! ## What the reads leave in the buffer -/

theorem readLoop_spec {filled : Bytes} {reads : List Bytes}
    (hlen : (filled ++ reads.flatten).length ≤ 4096) (hne : ∀ read ∈ reads, read ≠ [])
    (hno : ¬blankLine <:+: filled) (hblank : blankLine <:+: filled ++ reads.flatten) :
    readLoop filled reads <+: filled ++ reads.flatten ∧ blankLine <:+: readLoop filled reads := by
  induction reads generalizing filled with
  | nil =>
      rw [List.flatten_nil, List.append_nil] at hblank
      exact absurd hblank hno
  | cons read reads ih =>
      have hread : read ≠ [] := hne read List.mem_cons_self
      have hpos : 0 < read.length := List.length_pos_of_ne_nil hread
      rw [List.flatten_cons, ← List.append_assoc] at hlen hblank ⊢
      have hroom : read.length ≤ 4096 - filled.length := by
        simp only [List.length_append] at hlen
        omega
      have hgo : ¬(filled.length = 4096 ∨ read = []) := by
        rintro (hfull | hempty)
        · omega
        · exact hread hempty
      unfold readLoop
      rw [if_neg hgo, List.take_of_length_le hroom]
      dsimp only
      split
      · rename_i hstop
        exact ⟨List.prefix_append _ _, hstop⟩
      · rename_i hmore
        exact ih hlen (fun r hr => hne r (List.mem_cons_of_mem read hr)) hmore hblank

theorem readLoop_cons {p : Bytes} (reads : List Bytes) (hlen : p.length ≤ 4096)
    (h : blankLine <:+: p) : readLoop [] (p :: reads) = p := by
  have hgo : ¬(([] : Bytes).length = 4096 ∨ p = []) := by
    rintro (hfull | rfl)
    · cases hfull
    · exact absurd (List.infix_nil.mp h) (List.cons_ne_nil _ _)
  unfold readLoop
  rw [if_neg hgo, List.nil_append, List.length_nil, Nat.sub_zero, List.take_of_length_le hlen]
  exact if_pos h

/-- The buffers in which the reads of a request may end are its prefixes that hold a
blank line. -/
theorem exists_splits_iff {request p : Bytes} (hlen : request.length ≤ 4096)
    (hblank : blankLine <:+: request) :
    (∃ reads, Splits request reads ∧ readLoop [] reads = p) ↔
      p <+: request ∧ blankLine <:+: p := by
  constructor
  · rintro ⟨reads, hsplits, rfl⟩
    have hnil : ¬blankLine <:+: [] := fun h => List.cons_ne_nil _ _ (List.infix_nil.mp h)
    have hspec := @readLoop_spec [] reads
    rw [List.nil_append, hsplits.flatten] at hspec
    exact hspec hlen hsplits.nonempty hnil hblank
  · rintro ⟨⟨q, rfl⟩, hp⟩
    have hne : p ≠ [] := by
      rintro rfl
      exact List.cons_ne_nil _ _ (List.infix_nil.mp hp)
    have hplen : p.length ≤ 4096 := by
      rw [List.length_append] at hlen
      omega
    by_cases hq : q = []
    · subst hq
      exact ⟨[p], ⟨by simp, by simpa using hne⟩, readLoop_cons [] hplen hp⟩
    · exact ⟨[p, q], ⟨by simp, by simp [hne, hq]⟩, readLoop_cons [q] hplen hp⟩

theorem sameAnswers_iff_prefixes {httpsPort : UInt16} {challenges : Option ChallengeMap}
    {map : ChallengeMap} {request : Bytes} (hlen : request.length ≤ 4096)
    (hblank : blankLine <:+: request) :
    SameAnswers httpsPort challenges map request ↔
      ∀ p, p <+: request → blankLine <:+: p →
        respond httpsPort challenges (headOf p) =
            respond httpsPort challenges (headOf (front request)) ∧
          respondChallenge map (headOf p) = respondChallenge map (headOf (front request)) := by
  obtain ⟨lines, hfront⟩ := exists_front_eq hblank
  have hfirst : blankLine <:+: front request := hfront ▸ List.infix_append' lines blankLine []
  constructor
  · intro h p hp hpblank
    obtain ⟨reads, hreads, rfl⟩ := (exists_splits_iff hlen hblank).mpr ⟨hp, hpblank⟩
    obtain ⟨reads', hreads', hsame⟩ :=
      (exists_splits_iff hlen hblank).mpr ⟨front_isPrefix request, hfirst⟩
    rw [← hsame]
    exact h reads reads' hreads hreads'
  · intro h reads reads' hreads hreads'
    obtain ⟨hp, hpblank⟩ := (exists_splits_iff hlen hblank).mp ⟨reads, hreads, rfl⟩
    obtain ⟨hp', hpblank'⟩ := (exists_splits_iff hlen hblank).mp ⟨reads', hreads', rfl⟩
    have hone := h _ hp hpblank
    have htwo := h _ hp' hpblank'
    exact ⟨hone.1.trans htwo.1.symm, hone.2.trans htwo.2.symm⟩

/-! ## Lines behind a blank line -/

theorem splitCrlf_ne_nil (cs : List Char) : splitCrlf cs ≠ [] := by
  induction cs using splitCrlf.induct with
  | case1 => exact List.cons_ne_nil _ _
  | case2 tail ih => exact List.cons_ne_nil _ _
  | case3 c tail hno ih =>
      rw [splitCrlf.eq_3 c tail hno]
      exact mt List.modifyHead_eq_nil_iff.mp ih

theorem splitCrlf_append (a b : List Char) :
    splitCrlf (a ++ crlf ++ b) = splitCrlf a ++ splitCrlf b := by
  induction a using splitCrlf.induct with
  | case1 => rfl
  | case2 tail ih => exact congrArg ([] :: ·) ih
  | case3 c tail hno ih =>
      -- the carriage return of the separator ends no earlier one
      have hmore : ∀ more, c = '\r' → tail ++ crlf ++ b = '\n' :: more → False := by
        intro more hc htext
        cases tail with
        | nil => exact absurd (List.cons.inj htext).1 (by decide)
        | cons d tail => exact hno tail hc (by rw [(List.cons.inj htext).1])
      obtain ⟨line, lines, hlines⟩ := List.exists_cons_of_ne_nil (splitCrlf_ne_nil tail)
      rw [List.cons_append, List.cons_append, splitCrlf.eq_3 c _ hmore, ih,
        splitCrlf.eq_3 c tail hno, hlines]
      rfl

theorem requestTarget_append {lines : List (List Char)} (h : lines ≠ [])
    (more : List (List Char)) : requestTarget (lines ++ more) = requestTarget lines := by
  unfold requestTarget
  rw [List.head?_append_of_ne_nil lines h]

theorem hostValue_append (lines more : List (List Char)) :
    hostValue (lines ++ [] :: more) = hostValue (lines ++ [[]]) := by
  induction lines with
  | nil => rfl
  | cons line lines ih =>
      rw [List.cons_append, List.cons_append]
      unfold hostValue
      rw [ih]

theorem hostPart_append {lines : List (List Char)} (h : lines ≠ []) (more : List (List Char)) :
    hostPart (lines ++ [] :: more) = hostPart (lines ++ [[]]) := by
  unfold hostPart
  rw [List.tail_append_of_ne_nil h, List.tail_append_of_ne_nil h, hostValue_append]

variable {httpsPort : UInt16} {challenges : Option ChallengeMap} {map : ChallengeMap}

theorem respond_congr {head head' : List Char}
    (htarget : requestTarget (splitCrlf head) = requestTarget (splitCrlf head'))
    (hhost : hostPart (splitCrlf head) = hostPart (splitCrlf head')) :
    respond httpsPort challenges head = respond httpsPort challenges head' := by
  unfold respond
  dsimp only
  rw [htarget, hhost]

theorem respondChallenge_congr {head head' : List Char}
    (htarget : requestTarget (splitCrlf head) = requestTarget (splitCrlf head')) :
    respondChallenge map head = respondChallenge map head' := by
  unfold respondChallenge
  rw [htarget]

/-- What follows a blank line does not count. -/
theorem parts_append (x y : List Char) :
    requestTarget (splitCrlf (x ++ (crlf ++ crlf) ++ y)) =
        requestTarget (splitCrlf (x ++ (crlf ++ crlf))) ∧
      hostPart (splitCrlf (x ++ (crlf ++ crlf) ++ y)) =
        hostPart (splitCrlf (x ++ (crlf ++ crlf))) := by
  have hlines : ∀ z, splitCrlf (x ++ (crlf ++ crlf) ++ z) = splitCrlf x ++ [] :: splitCrlf z := by
    intro z
    have hassoc : x ++ (crlf ++ crlf) ++ z = x ++ crlf ++ ([] ++ crlf ++ z) := by
      simp only [List.append_assoc, List.nil_append]
    rw [hassoc, splitCrlf_append, splitCrlf_append]
    rfl
  have hnone := hlines []
  rw [List.append_nil] at hnone
  rw [hlines y, hnone]
  have hne := splitCrlf_ne_nil x
  exact ⟨by rw [requestTarget_append hne, requestTarget_append hne],
    by rw [hostPart_append hne, hostPart_append hne (splitCrlf [])]⟩

/-! ## The text in a buffer -/

theorem blankLine_eq : blankLine = Utf8.enc (crlf ++ crlf) := by decide

/-- The text of a head ends with its blank line. -/
theorem exists_eq_of_dec_front {request : Bytes} {x : List Char} (hblank : blankLine <:+: request)
    (h : Utf8.dec (front request) = some x) : ∃ lines, x = lines ++ (crlf ++ crlf) := by
  obtain ⟨lines, hfront⟩ := exists_front_eq hblank
  have henc := Utf8.dec_eq_some_iff.mp h
  rw [hfront, blankLine_eq] at henc
  obtain ⟨y, hy, -⟩ := Utf8.exists_of_enc_eq_append_enc (forall_mem_of_all (by decide)) henc
  exact ⟨y, hy⟩

theorem dec_front_append {request : Bytes} (hblank : blankLine <:+: request) (q : Bytes) :
    Utf8.dec (front request ++ q) =
      (Utf8.dec (front request)).bind fun x => (Utf8.dec q).map fun y => x ++ y := by
  obtain ⟨lines, hfront⟩ := exists_front_eq hblank
  refine Utf8.dec_append fun b hb => ?_
  have hlast : (front request).getLast? = some 10 := by
    rw [hfront, List.getLast?_append_of_ne_nil lines (by decide : blankLine ≠ [])]
    rfl
  rw [hlast] at hb
  cases hb
  decide

/-- Behind a head, a buffer is text as far as what has come behind it is. -/
theorem answers_front_append {request : Bytes} {x : List Char} (hblank : blankLine <:+: request)
    (h : Utf8.dec (front request) = some x) {q : Bytes} (hq : (Utf8.dec q).isSome) :
    respond httpsPort challenges (headOf (front request ++ q)) =
        respond httpsPort challenges (headOf (front request)) ∧
      respondChallenge map (headOf (front request ++ q)) =
        respondChallenge map (headOf (front request)) := by
  obtain ⟨y, hy⟩ := Option.isSome_iff_exists.mp hq
  obtain ⟨lines, rfl⟩ := exists_eq_of_dec_front hblank h
  have hhead : headOf (front request) = lines ++ (crlf ++ crlf) := by
    rw [headOf, h]
    rfl
  have hmore : headOf (front request ++ q) = lines ++ (crlf ++ crlf) ++ y := by
    rw [headOf, dec_front_append hblank, h, hy]
    rfl
  obtain ⟨htarget, hhost⟩ := parts_append lines y
  rw [hmore, hhead]
  exact ⟨respond_congr htarget hhost, respondChallenge_congr htarget⟩

theorem headOf_of_none {request q : Bytes} (hblank : blankLine <:+: request)
    (h : Utf8.dec (front request) = none ∨ Utf8.dec q = none) :
    headOf (front request ++ q) = [] := by
  rw [headOf, dec_front_append hblank]
  rcases h with h | h
  · rw [h]
    rfl
  · rw [h]
    cases Utf8.dec (front request) <;> rfl

/-- A request without text is answered with 400. -/
theorem respond_nil : respond httpsPort challenges [] = badRequestText :=
  respond_of_no_host (by decide +kernel) (by decide +kernel)

theorem respond_eq_badRequest_iff {head : List Char} :
    respond httpsPort challenges head = badRequestText ↔
      ¬acmePrefix <+: requestTarget (splitCrlf head) ∧ hostPart (splitCrlf head) = [] := by
  have hbad : ∀ {m : Message}, m.Intended → respond httpsPort challenges head = m.render →
      respond httpsPort challenges head = badRequestText →
        m.status = "HTTP/1.1 400 Bad Request".toList := by
    intro m hm hrender h
    rw [badRequestText_eq, hrender] at h
    exact status_eq_of_render hm .badRequest h
  constructor
  · intro h
    have hacme : ¬acmePrefix <+: requestTarget (splitCrlf head) := by
      intro hpre
      rcases respond_of_acme hpre with ⟨keyAuth, hanswer⟩ | hanswer
      · rw [challengeText_eq] at hanswer
        have hstatus : "HTTP/1.1 200 OK".toList = "HTTP/1.1 400 Bad Request".toList :=
          hbad (.challenge keyAuth) hanswer h
        exact absurd hstatus (by simp)
      · rw [notFoundText_eq] at hanswer
        have hstatus : "HTTP/1.1 404 Not Found".toList = "HTTP/1.1 400 Bad Request".toList :=
          hbad .notFound hanswer h
        exact absurd hstatus (by simp)
    refine ⟨hacme, ?_⟩
    by_contra hhost
    have hstatus : "HTTP/1.1 301 Moved Permanently".toList = "HTTP/1.1 400 Bad Request".toList :=
      hbad (.moved _) (respond_of_host hacme hhost) h
    exact absurd hstatus (by simp)
  · rintro ⟨hacme, hhost⟩
    exact respond_of_no_host hacme hhost

theorem respondChallenge_of_not_acme {head : List Char}
    (h : ¬acmePrefix <+: requestTarget (splitCrlf head)) :
    respondChallenge map head = notFoundText := by
  unfold respondChallenge stripPrefix
  rw [if_neg h]
  rfl

/-! ## Requests that are answered however they come -/

/-- Every buffer of the request is text or none is, or there is nothing to answer but 400. -/
def Settled (request : Bytes) : Prop :=
  Utf8.dec (front request) = none ∨ (∀ b ∈ rest request, b.toNat < 128) ∨
    (¬acmePrefix <+: requestTarget (splitCrlf (headOf (front request))) ∧
      hostPart (splitCrlf (headOf (front request))) = [])

theorem sameAnswers_of_settled {request : Bytes} (hlen : request.length ≤ 4096)
    (hblank : blankLine <:+: request) (h : Settled request) :
    SameAnswers httpsPort challenges map request := by
  rw [sameAnswers_iff_prefixes hlen hblank]
  intro p hp hpblank
  obtain ⟨q, rfl⟩ := front_le_of_blank hp hpblank
  cases hdec : Utf8.dec (front request) with
  | none =>
      have hempty := headOf_of_none (q := []) hblank (.inl hdec)
      rw [List.append_nil] at hempty
      rw [headOf_of_none hblank (.inl hdec), hempty]
      exact ⟨rfl, rfl⟩
  | some x =>
      cases hq : Utf8.dec q with
      | some y => exact answers_front_append hblank hdec (by rw [hq]; rfl)
      | none =>
          rcases h with hnone | hascii | ⟨hacme, hhost⟩
          · rw [hdec] at hnone
            cases hnone
          · have hrest : q <+: rest request := prefix_rest hp
            have hsome := Utf8.dec_isSome_of_ascii fun b hb => hascii b (hrest.subset hb)
            rw [hq] at hsome
            cases hsome
          · have hempty : ¬acmePrefix <+: requestTarget (splitCrlf []) := by decide +kernel
            rw [headOf_of_none hblank (.inr hq), respond_nil, respond_of_no_host hacme hhost,
              respondChallenge_of_not_acme hempty, respondChallenge_of_not_acme hacme]
            exact ⟨rfl, rfl⟩

theorem settled_of_sameAnswers {request : Bytes} (hlen : request.length ≤ 4096)
    (hblank : blankLine <:+: request) (h : SameAnswers httpsPort challenges map request) :
    Settled request := by
  by_cases hascii : ∀ b ∈ rest request, b.toNat < 128
  · exact .inr (.inl hascii)
  · -- the buffer that ends inside a character is no text
    have hhigh : ∃ b ∈ rest request, 128 ≤ b.toNat := by simpa using hascii
    obtain ⟨q, hq, hdec⟩ := Utf8.exists_prefix_dec_eq_none hhigh
    have hp : front request ++ q <+: request := by
      conv_rhs => rw [← front_append_rest request]
      exact (List.prefix_append_right_inj (front request)).mpr hq
    obtain ⟨lines, hfront⟩ := exists_front_eq hblank
    have hpblank : blankLine <:+: front request ++ q := by
      rw [hfront]
      exact List.infix_append lines blankLine q
    obtain ⟨hsame, -⟩ := (sameAnswers_iff_prefixes hlen hblank).mp h _ hp hpblank
    rw [headOf_of_none hblank (.inr hdec), respond_nil] at hsame
    exact .inr (.inr (respond_eq_badRequest_iff.mp hsame.symm))

/-- The answers do not depend on the reads exactly when the head is no text, or the bytes
behind it are all below 128, or the head asks for nothing but 400. -/
theorem sameAnswers_iff_settled (httpsPort : UInt16) (challenges : Option ChallengeMap)
    (map : ChallengeMap) (request : Bytes) (hlen : request.length ≤ 4096)
    (hblank : blankLine <:+: request) :
    SameAnswers httpsPort challenges map request ↔ Settled request :=
  ⟨settled_of_sameAnswers hlen hblank, sameAnswers_of_settled hlen hblank⟩

/-- A request with a character of two bytes behind its blank line. -/
def bodyRequest : Bytes := Utf8.enc "GET / HTTP/1.1\r\nHost: a\r\n\r\né".toList

theorem sameAnswers_iff_settled_bodyRequest :
    bodyRequest.length ≤ 4096 ∧ blankLine <:+: bodyRequest ∧
      (SameAnswers 443 none ∅ bodyRequest ↔ Settled bodyRequest) := by
  have hlen : bodyRequest.length ≤ 4096 := by decide +kernel
  have hblank : blankLine <:+: bodyRequest := by decide +kernel
  exact ⟨hlen, hblank, sameAnswers_iff_settled 443 none ∅ bodyRequest hlen hblank⟩

theorem bodyRequest_not_sameAnswers :
    bodyRequest.length ≤ 4096 ∧ blankLine <:+: bodyRequest ∧
      ¬SameAnswers 443 none ∅ bodyRequest := by
  have hlen : bodyRequest.length ≤ 4096 := by decide +kernel
  have hblank : blankLine <:+: bodyRequest := by decide +kernel
  refine ⟨hlen, hblank, fun h => ?_⟩
  have hfront : front bodyRequest = Utf8.enc "GET / HTTP/1.1\r\nHost: a\r\n\r\n".toList := by
    decide +kernel
  rcases settled_of_sameAnswers hlen hblank h with hnone | hascii | ⟨-, hhost⟩
  · rw [hfront, Utf8.dec_enc] at hnone
    cases hnone
  · exact absurd hascii (by decide +kernel)
  · rw [headOf, hfront, Utf8.dec_enc, Option.getD_some] at hhost
    exact absurd hhost (by decide +kernel)

end Kdct.Redirect
