/-
Reading the certificate at the start of `kdcts` and once a day, with the slices that may
panic (`first_cert_pem_to_der` and `cert_days_remaining` in `crates/kdcts/src/acme.rs`).

The end marker is looked for from the first byte of the begin marker, so that it may
begin with dashes of the begin marker, and the slice between the two then ends before it
starts.  The outer `none` of the functions below is that panic, which ends the process:
release builds abort.
-/
import Kdct.Acme
import Kdct.TextSlices
import Mathlib.Data.List.Infix

namespace Kdct.CertFile

/-- `str::find`: the byte at which the first occurrence starts. -/
def find (pat cs : List Char) : Option Nat := (splitFirst pat cs).map fun p => bytesOf p.1

def firstCertPemToDer (tools : AcmeTools) (pem : String) : Option (Option Bytes) :=
  match find beginMarker pem.toList with
  | none => some none
  | some start => do
      let afterBegin ← dropBytes start pem.toList
      match find endMarker afterBegin with
      | none => some none
      | some stop => do
          let body ← sliceBytes (bytesOf beginMarker) stop afterBegin
          some (tools.decodeBase64 (String.ofList (body.filter fun c => !isWhitespace c)))

/-- `str::from_utf8`. -/
def textOf (content : Bytes) : Option String := String.fromUTF8? ⟨content.toArray⟩

def certDaysRemaining (tools : AcmeTools) (dir : StateDir) (now : Nat) : Option (Option Int) :=
  match dir.cert.bind textOf with
  | none => some none
  | some text =>
      (firstCertPemToDer tools text).map fun der =>
        (der.bind tools.notAfter).map fun notAfter : Int => (notAfter - now).tdiv 86400

def certNeedsIssueOrRenew (tools : AcmeTools) (dir : StateDir) (now : Nat) : Option Bool :=
  (certDaysRemaining tools dir now).map fun days => days.all (· < renewWithinDays)

/-! ## What a reader may rely on -/

/-- The two markers stand in the text, with the Base64 of a certificate between them. -/
def HasBlock (tools : AcmeTools) (content : Bytes) : Prop :=
  ∃ text before body after der, textOf content = some text ∧
    text.toList = before ++ beginMarker ++ body ++ endMarker ++ after ∧
    tools.decodeBase64 (String.ofList (body.filter fun c => !isWhitespace c)) = some der ∧
    (tools.notAfter der).isSome

/-- Whatever the file holds, it is read to the end, and without a block in it a new
certificate is asked for. -/
structure Harmless (tools : AcmeTools) (content : Bytes) : Prop where
  sliced : ∀ text, textOf content = some text → (firstCertPemToDer tools text).isSome
  reissued : ∀ dir now, dir.cert = some content → ¬HasBlock tools content →
    certDaysRemaining tools dir now = some none ∧ certNeedsIssueOrRenew tools dir now = some true

def endTail : List Char := "END CERTIFICATE-----".toList

/-- After the first begin marker come fewer than the five dashes of an end marker, and
then the rest of one. -/
def MarkersOverlap (pem : String) : Prop :=
  ∃ before rest dashes, splitFirst beginMarker pem.toList = some (before, rest) ∧ dashes < 5 ∧
    List.replicate dashes '-' ++ endTail <+: rest

/-! ## First occurrences -/

theorem eq_of_splitFirst {pat cs before after : List Char}
    (h : splitFirst pat cs = some (before, after)) : cs = before ++ pat ++ after := by
  induction cs generalizing before with
  | nil =>
      rw [splitFirst] at h
      split at h
      · rename_i hempty
        cases h
        rw [List.isEmpty_iff.mp hempty]
        rfl
      · cases h
  | cons c cs ih =>
      rw [splitFirst] at h
      split at h
      · rename_i hpre
        cases h
        obtain ⟨t, ht⟩ := List.isPrefixOf_iff_prefix.mp hpre
        rw [← ht, List.drop_left, List.nil_append]
      · obtain ⟨p, hp, heq⟩ := Option.map_eq_some_iff.mp h
        cases heq
        exact congrArg (c :: ·) (ih hp)

/-- Where no occurrence starts before `rest`, the first one is the first of `rest`. -/
theorem splitFirst_append {pat xs rest : List Char}
    (h : ∀ suf, suf <:+ xs → suf ≠ [] → ¬pat <+: suf ++ rest) :
    splitFirst pat (xs ++ rest) = (splitFirst pat rest).map fun p => (xs ++ p.1, p.2) := by
  induction xs with
  | nil => simp
  | cons x xs ih =>
      have hnot : ¬pat.isPrefixOf (x :: (xs ++ rest)) = true := fun hpre =>
        h (x :: xs) (List.suffix_refl _) (List.cons_ne_nil _ _)
          (List.isPrefixOf_iff_prefix.mp hpre)
      have hrest := ih fun suf hsuf => h suf (hsuf.trans (List.suffix_cons x xs))
      rw [List.cons_append, splitFirst, if_neg hnot, hrest, Option.map_map]
      rfl

/-- An occurrence that starts before `rest` makes the first one start there. -/
theorem splitFirst_of_overlap {pat xs rest suf : List Char} (hsuf : suf <:+ xs)
    (hne : suf ≠ []) (hpat : pat <+: suf ++ rest) :
    ∃ before after c cs, splitFirst pat (xs ++ rest) = some (before, after) ∧
      xs = before ++ c :: cs := by
  induction xs with
  | nil => exact absurd (List.suffix_nil.mp hsuf) hne
  | cons x xs ih =>
      rw [List.cons_append, splitFirst]
      split
      · exact ⟨[], _, x, xs, rfl, rfl⟩
      · rename_i hnot
        rcases List.suffix_cons_iff.mp hsuf with rfl | hsuf
        · exact absurd (List.isPrefixOf_iff_prefix.mpr hpat) hnot
        · obtain ⟨before, after, c, cs, hsplit, hxs⟩ := ih hsuf
          refine ⟨x :: before, after, c, cs, ?_, congrArg (x :: ·) hxs⟩
          rw [hsplit]
          rfl

theorem take_eq_of_isPrefix {pat suf rest : List Char} (h : pat <+: suf ++ rest) :
    pat.take suf.length = suf.take pat.length := by
  obtain ⟨tail, htail⟩ := h
  calc pat.take suf.length = ((pat ++ tail).take pat.length).take suf.length := by
        rw [List.take_left]
    _ = ((suf ++ rest).take suf.length).take pat.length := by
        rw [htail, List.take_take, List.take_take, Nat.min_comm]
    _ = suf.take pat.length := by rw [List.take_left]

/-! ## The two markers -/

theorem endMarker_eq {dashes : Nat} (h : dashes ≤ 5) :
    endMarker = List.replicate dashes '-' ++ (List.replicate (5 - dashes) '-' ++ endTail) := by
  rw [← List.append_assoc, List.replicate_append_replicate, Nat.add_sub_cancel' h]
  rfl

/-- An end marker that starts inside the begin marker starts with its last dashes. -/
theorem overlap_iff {rest : List Char} :
    (∃ suf, suf <:+ beginMarker ∧ suf ≠ [] ∧ endMarker <+: suf ++ rest) ↔
      ∃ dashes < 5, List.replicate dashes '-' ++ endTail <+: rest := by
  constructor
  · rintro ⟨suf, hsuf, hne, hpat⟩
    have hmem : suf ∈ beginMarker.tails := (List.mem_tails suf beginMarker).mpr hsuf
    -- only the last five characters of the begin marker fit the start of an end marker
    have hfits : ∀ suf ∈ beginMarker.tails,
        endMarker.take suf.length = suf.take endMarker.length →
          suf.length ≤ 5 ∧ suf = List.replicate suf.length '-' := by
      decide +kernel
    obtain ⟨hshort, hdashes⟩ := hfits suf hmem (take_eq_of_isPrefix hpat)
    have hpos : 0 < suf.length := List.length_pos_of_ne_nil hne
    refine ⟨5 - suf.length, by omega, ?_⟩
    rw [endMarker_eq hshort, ← hdashes] at hpat
    exact (List.prefix_append_right_inj suf).mp hpat
  · rintro ⟨dashes, hlt, hrest⟩
    refine ⟨List.replicate (5 - dashes) '-', ?_, ?_, ?_⟩
    · have hfive : ∀ dashes < 5, List.replicate (5 - dashes) '-' <:+ beginMarker := by
        decide +kernel
      exact hfive dashes hlt
    · intro hnil
      have hlen := congrArg List.length hnil
      rw [List.length_replicate, List.length_nil] at hlen
      omega
    · have hsub : 5 - (5 - dashes) = dashes := by omega
      rw [endMarker_eq (show 5 - dashes ≤ 5 by omega), hsub]
      exact (List.prefix_append_right_inj _).mpr hrest

/-! ## What the slices do -/

variable {tools : AcmeTools} {pem : String}

theorem find_of_splitFirst {pat cs before after : List Char}
    (h : splitFirst pat cs = some (before, after)) :
    find pat cs = some (bytesOf before) ∧ dropBytes (bytesOf before) cs = some (pat ++ after) := by
  refine ⟨by rw [find, h, Option.map_some], ?_⟩
  rw [eq_of_splitFirst h, List.append_assoc, dropBytes_bytesOf]

/-- Where the markers do not overlap, the bytes are those between them. -/
theorem firstCertPemToDer_of_not_overlap (h : ¬MarkersOverlap pem) :
    firstCertPemToDer tools pem = some (Kdct.firstCertPemToDer tools pem) := by
  unfold firstCertPemToDer Kdct.firstCertPemToDer
  cases hbegin : splitFirst beginMarker pem.toList with
  | none =>
      rw [find, hbegin]
      rfl
  | some p =>
      obtain ⟨before, rest⟩ := p
      obtain ⟨hfind, hdrop⟩ := find_of_splitFirst hbegin
      have hclear : ∀ suf, suf <:+ beginMarker → suf ≠ [] → ¬endMarker <+: suf ++ rest := by
        intro suf hsuf hne hpat
        obtain ⟨dashes, hlt, hrest⟩ := overlap_iff.mp ⟨suf, hsuf, hne, hpat⟩
        exact h ⟨before, rest, dashes, hbegin, hlt, hrest⟩
      have hfindEnd : find endMarker (beginMarker ++ rest) =
          (splitFirst endMarker rest).map fun p => bytesOf (beginMarker ++ p.1) := by
        rw [find, splitFirst_append hclear, Option.map_map]
        rfl
      simp only [hfind, hdrop, hfindEnd, Option.bind_eq_bind, Option.bind_some]
      cases hend : splitFirst endMarker rest with
      | none => rfl
      | some q =>
          obtain ⟨body, after⟩ := q
          have hslice : sliceBytes (bytesOf beginMarker) (bytesOf (beginMarker ++ body))
              (beginMarker ++ rest) = some body := by
            rw [eq_of_splitFirst hend, List.append_assoc, ← List.append_assoc beginMarker,
              sliceBytes_bytesOf]
          simp only [Option.map_some, hslice, Option.bind_some]

theorem firstCertPemToDer_of_overlap (h : MarkersOverlap pem) :
    firstCertPemToDer tools pem = none := by
  obtain ⟨before, rest, dashes, hbegin, hlt, hrest⟩ := h
  obtain ⟨hfind, hdrop⟩ := find_of_splitFirst hbegin
  obtain ⟨suf, hsuf, hne, hpat⟩ := overlap_iff.mpr ⟨dashes, hlt, hrest⟩
  obtain ⟨body, after, c, cs, hend, hbody⟩ := splitFirst_of_overlap hsuf hne hpat
  have hshort : bytesOf body < bytesOf beginMarker := by
    have hpos : 0 < c.utf8Size := c.utf8Size_pos
    rw [hbody, bytesOf_append, bytesOf]
    omega
  unfold firstCertPemToDer
  have hfindEnd : find endMarker (beginMarker ++ rest) = some (bytesOf body) := by
    rw [find, hend, Option.map_some]
  simp only [hfind, hdrop, hfindEnd, Option.bind_eq_bind, Option.bind_some,
    sliceBytes_of_lt hshort, Option.bind_none]

/-- Where the markers do not overlap, the readers are those the flow was proved for. -/
theorem certDaysRemaining_of_not_overlap {dir : StateDir}
    (h : ∀ content ∈ dir.cert, ∀ text, textOf content = some text → ¬MarkersOverlap text)
    (now : Nat) :
    certDaysRemaining tools dir now = some (Kdct.certDaysRemaining tools dir now) := by
  unfold certDaysRemaining Kdct.certDaysRemaining certNotAfter
  cases hcert : dir.cert with
  | none => rfl
  | some content =>
      have hread : String.fromUTF8? ⟨content.toArray⟩ = textOf content := rfl
      simp only [Option.bind_eq_bind, Option.bind_some, hread]
      cases htext : textOf content with
      | none => rfl
      | some text =>
          simp only [firstCertPemToDer_of_not_overlap (h content hcert text htext),
            Option.map_some, Option.bind_some]

theorem certNeedsIssueOrRenew_of_not_overlap {dir : StateDir}
    (h : ∀ content ∈ dir.cert, ∀ text, textOf content = some text → ¬MarkersOverlap text)
    (now : Nat) :
    certNeedsIssueOrRenew tools dir now = some (Kdct.certNeedsIssueOrRenew tools dir now) := by
  rw [certNeedsIssueOrRenew, certDaysRemaining_of_not_overlap h, Option.map_some,
    Kdct.certNeedsIssueOrRenew]
  cases Kdct.certDaysRemaining tools dir now <;> rfl

/-- A day count is read from a block. -/
theorem hasBlock_of_certDaysRemaining {dir : StateDir} {content : Bytes} {now : Nat} {days : Int}
    (hcert : dir.cert = some content) (h : Kdct.certDaysRemaining tools dir now = some days) :
    HasBlock tools content := by
  obtain ⟨notAfter, hread, _⟩ := Option.map_eq_some_iff.mp h
  unfold certNotAfter at hread
  obtain ⟨pem, hpem, hread⟩ := Option.bind_eq_some_iff.mp hread
  obtain rfl := Option.some.inj (hpem.symm.trans hcert)
  obtain ⟨text, htext, hread⟩ := Option.bind_eq_some_iff.mp hread
  obtain ⟨der, hder, hafter⟩ := Option.bind_eq_some_iff.mp hread
  unfold Kdct.firstCertPemToDer at hder
  obtain ⟨⟨before, rest⟩, hbegin, hder⟩ := Option.bind_eq_some_iff.mp hder
  obtain ⟨⟨body, after⟩, hend, hder⟩ := Option.bind_eq_some_iff.mp hder
  refine ⟨text, before, body, after, der, htext, ?_, hder, by rw [hafter]; rfl⟩
  rw [eq_of_splitFirst hbegin, eq_of_splitFirst hend]
  simp only [List.append_assoc]

/-- A file is read without a panic exactly when no end marker starts inside its first
begin marker. -/
theorem harmless_iff_not_markersOverlap (tools : AcmeTools) (content : Bytes) :
    Harmless tools content ↔ ∀ text, textOf content = some text → ¬MarkersOverlap text := by
  constructor
  · intro h text htext hoverlap
    have hsliced := h.sliced text htext
    rw [firstCertPemToDer_of_overlap hoverlap] at hsliced
    cases hsliced
  · intro h
    constructor
    · intro text htext
      rw [firstCertPemToDer_of_not_overlap (h text htext)]
      rfl
    · intro dir now hcert hblock
      have hclear : ∀ content ∈ dir.cert, ∀ text, textOf content = some text →
          ¬MarkersOverlap text := by
        intro content' hcontent'
        obtain rfl := Option.some.inj (hcert.symm.trans hcontent')
        exact h
      have hdays : Kdct.certDaysRemaining tools dir now = none := by
        refine Option.eq_none_iff_forall_ne_some.mpr fun days heq => ?_
        exact hblock (hasBlock_of_certDaysRemaining hcert heq)
      have hnone : certDaysRemaining tools dir now = some none := by
        rw [certDaysRemaining_of_not_overlap hclear, hdays]
      exact ⟨hnone, by rw [certNeedsIssueOrRenew, hnone]; rfl⟩

/-- The dashes between the markers of a certificate without a body, written once. -/
def sharedDashes : String := "-----BEGIN CERTIFICATE-----END CERTIFICATE-----"

theorem sharedDashes_not_harmless : ¬Harmless AcmeState.sampleTools
    sharedDashes.toUTF8.data.toList := by
  intro h
  have hsliced := h.sliced sharedDashes (by decide +kernel)
  have hpanic : firstCertPemToDer AcmeState.sampleTools sharedDashes = none := by decide +kernel
  rw [hpanic] at hsliced
  cases hsliced

end Kdct.CertFile
