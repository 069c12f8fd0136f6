/-
What a port range says.

The grammar below is written down on its own: numbers as `u16::from_str` documents
them, blanks around them, and items between commas that are a number or two numbers
with a dash.  `parse_port_range` reads exactly the texts of this grammar, and the ports
it lists are the ports they denote.
-/
import Kdct.PortRange
import Mathlib.Data.List.DropRight

namespace Kdct

/-! ## The grammar -/

def Blank (text : List Char) : Prop := ∀ c ∈ text, isWhitespace c = true

/-- Decimal digits, perhaps with a plus sign in front, of a number below `2 ^ 16`. -/
def IsNumber (text : List Char) (port : Port) : Prop :=
  ∃ sign digits, text = sign ++ digits ∧ (sign = [] ∨ sign = ['+']) ∧ digits ≠ [] ∧
    (∀ c ∈ digits, c.isDigit = true) ∧ Nat.ofDigitChars 10 digits 0 = port.toNat

/-- A number with blanks around it. -/
def Numeral (text : List Char) (port : Port) : Prop :=
  ∃ before number after, text = before ++ number ++ after ∧ Blank before ∧ Blank after ∧
    IsNumber number port

/-- An item of a list, and the first and the last port it denotes. -/
inductive Item : List Char → Port → Port → Prop
  | port {text : List Char} {port : Port} : Numeral text port → Item text port port
  | range {a b : List Char} {first last : Port} :
      Numeral a first → Numeral b last → first ≤ last → Item (a ++ '-' :: b) first last

/-- A list of items between commas. -/
def WellFormed (spec : String) : Prop :=
  ∀ part ∈ splitCommas spec, ∃ first last, Item part.toList first last

def ItemDenotes (part : String) (port : Port) : Prop :=
  ∃ first last, Item part.toList first last ∧ first ≤ port ∧ port ≤ last

def Denotes (spec : String) (port : Port) : Prop := ∃ part ∈ splitCommas spec, ItemDenotes part port

/-- No two items of the list denote one port. -/
def NoOverlap (spec : String) : Prop :=
  (splitCommas spec).Pairwise fun a b => ∀ port, ¬(ItemDenotes a port ∧ ItemDenotes b port)

/-! ## Numbers -/

theorem isWhitespace_of_isDigit {c : Char} (h : c.isDigit = true) : isWhitespace c = false := by
  simp only [Char.isDigit, Bool.and_eq_true, decide_eq_true_eq, ge_iff_le,
    UInt32.le_iff_toNat_le] at h
  have hrange : 48 ≤ c.toNat ∧ c.toNat ≤ 57 := h
  refine Bool.eq_false_iff.mpr fun hblank => ?_
  simp only [isWhitespace, Bool.or_eq_true, Bool.and_eq_true, decide_eq_true_eq,
    beq_iff_eq] at hblank
  omega

theorem parsePort_eq_some_iff {digits : List Char} {port : Port} :
    parsePort digits = some port ↔
      (∀ c ∈ digits, c.isDigit = true) ∧ Nat.ofDigitChars 10 digits 0 = port.toNat := by
  unfold parsePort
  simp only [List.all_eq_true]
  constructor
  · intro h
    split at h
    · rename_i hdigits
      obtain rfl := Option.some.inj h
      refine ⟨hdigits.1, ?_⟩
      rw [UInt16.toNat_ofNat_of_lt' hdigits.2]
    · cases h
  · rintro ⟨hdigits, hvalue⟩
    rw [hvalue, if_pos ⟨hdigits, port.toNat_lt⟩, UInt16.ofNat_toNat]

/-- Digits are a number by themselves and behind a plus sign. -/
theorem isNumber_iff {text : List Char} {port : Port} :
    IsNumber text port ↔
      ∃ digits, (text = digits ∨ text = '+' :: digits) ∧ digits ≠ [] ∧
        parsePort digits = some port := by
  constructor
  · rintro ⟨sign, digits, rfl, hsign, hne, hdigits, hvalue⟩
    refine ⟨digits, ?_, hne, parsePort_eq_some_iff.mpr ⟨hdigits, hvalue⟩⟩
    rcases hsign with rfl | rfl
    · exact .inl rfl
    · exact .inr rfl
  · rintro ⟨digits, htext, hne, hparse⟩
    obtain ⟨hdigits, hvalue⟩ := parsePort_eq_some_iff.mp hparse
    rcases htext with rfl | rfl
    · exact ⟨[], text, rfl, .inl rfl, hne, hdigits, hvalue⟩
    · exact ⟨['+'], digits, rfl, .inr rfl, hne, hdigits, hvalue⟩

theorem parsePort_plus (digits : List Char) : parsePort ('+' :: digits) = none := by
  unfold parsePort
  rw [if_neg fun h => by simp at h]

theorem parseU16_eq_some_iff {text : String} {port : Port} :
    parseU16 text = some port ↔ IsNumber text.toList port := by
  rw [isNumber_iff]
  unfold parseU16
  split
  · rename_i hnil
    rw [hnil]
    refine ⟨fun h => (by cases h), ?_⟩
    rintro ⟨digits, rfl | h, hne, -⟩
    · exact absurd rfl hne
    · cases h
  · rename_i hplus
    rw [hplus]
    refine ⟨fun h => (by cases h), ?_⟩
    rintro ⟨digits, rfl | h, hne, hparse⟩
    · rw [parsePort_plus] at hparse
      cases hparse
    · cases h
      exact absurd rfl hne
  · rename_i digits hnot hplus
    rw [hplus]
    constructor
    · intro h
      exact ⟨digits, .inr rfl, fun hnil => hnot hnil, h⟩
    · rintro ⟨digits', rfl | h, -, hparse⟩
      · rw [parsePort_plus] at hparse
        cases hparse
      · cases h
        exact hparse
  · rename_i hnil hone hplus
    constructor
    · intro h
      exact ⟨text.toList, .inl rfl, hnil, h⟩
    · rintro ⟨digits, rfl | h, -, hparse⟩
      · exact hparse
      · exact absurd h (hplus digits)

theorem IsNumber.no_blank {text : List Char} {port : Port} (h : IsNumber text port) :
    ∀ c ∈ text, isWhitespace c = false ∧ c ≠ '-' := by
  obtain ⟨sign, digits, rfl, hsign, -, hdigits, -⟩ := h
  intro c hc
  rcases List.mem_append.mp hc with hc | hc
  · rcases hsign with rfl | rfl
    · cases hc
    · obtain rfl := List.mem_singleton.mp hc
      decide
  · refine ⟨isWhitespace_of_isDigit (hdigits c hc), ?_⟩
    rintro rfl
    exact absurd (hdigits '-' hc) (by decide)

/-! ## Blanks -/

theorem toList_trim (text : String) :
    (trim text).toList = (text.toList.dropWhile isWhitespace).rdropWhile isWhitespace := by
  rw [trim, String.toList_ofList]
  rfl

theorem trim_append_left {blank text : List Char} (h : Blank blank) :
    trim (String.ofList (blank ++ text)) = trim (String.ofList text) := by
  apply String.toList_injective
  rw [toList_trim, toList_trim, String.toList_ofList, String.toList_ofList,
    List.dropWhile_append_of_pos h]

theorem rdropWhile_append_blank {blank text : List Char} (h : Blank blank) :
    (text ++ blank).rdropWhile isWhitespace = text.rdropWhile isWhitespace := by
  unfold List.rdropWhile
  rw [List.reverse_append, List.dropWhile_append_of_pos fun c hc => h c (List.mem_reverse.mp hc)]

theorem trim_append_right {text blank : List Char} (h : Blank blank) :
    trim (String.ofList (text ++ blank)) = trim (String.ofList text) := by
  apply String.toList_injective
  rw [toList_trim, toList_trim, String.toList_ofList, String.toList_ofList, List.dropWhile_append]
  split
  · rename_i hempty
    rw [List.isEmpty_iff.mp hempty, List.dropWhile_eq_nil_iff.mpr h]
  · rw [rdropWhile_append_blank h]

/-- What is left of a text without blanks in it is the text. -/
theorem trim_of_no_blank {text : List Char} (h : ∀ c ∈ text, isWhitespace c = false) :
    trim (String.ofList text) = String.ofList text := by
  apply String.toList_injective
  have hnot : ∀ text : List Char, (∀ c ∈ text, isWhitespace c = false) →
      text.dropWhile isWhitespace = text := by
    intro text h
    cases text with
    | nil => rfl
    | cons c cs => rw [List.dropWhile_cons_of_neg (by simp [h c List.mem_cons_self])]
  rw [toList_trim, String.toList_ofList, hnot text h, List.rdropWhile,
    hnot text.reverse fun c hc => h c (List.mem_reverse.mp hc), List.reverse_reverse]

theorem exists_trim (text : String) :
    ∃ before after, text.toList = before ++ (trim text).toList ++ after ∧ Blank before ∧
      Blank after := by
  refine ⟨text.toList.takeWhile isWhitespace,
    ((text.toList.dropWhile isWhitespace).reverse.takeWhile isWhitespace).reverse, ?_,
    fun c hc => List.mem_takeWhile_imp hc,
    fun c hc => List.mem_takeWhile_imp (List.mem_reverse.mp hc)⟩
  rw [toList_trim, List.rdropWhile, List.append_assoc, ← List.reverse_append,
    List.takeWhile_append_dropWhile, List.reverse_reverse, List.takeWhile_append_dropWhile]

/-- A number is read where there is one, blanks around it or not. -/
theorem parseU16_trim_iff {text : String} {port : Port} :
    parseU16 (trim text) = some port ↔ Numeral text.toList port := by
  rw [parseU16_eq_some_iff]
  constructor
  · intro h
    obtain ⟨before, after, htext, hbefore, hafter⟩ := exists_trim text
    exact ⟨before, (trim text).toList, after, htext, hbefore, hafter, h⟩
  · rintro ⟨before, number, after, htext, hbefore, hafter, hnumber⟩
    have htrim : trim text = String.ofList number := by
      rw [← String.ofList_toList (s := text), htext, trim_append_right hafter,
        trim_append_left hbefore, trim_of_no_blank fun c hc => (hnumber.no_blank c hc).1]
    rw [htrim, String.toList_ofList]
    exact hnumber

theorem Numeral.no_dash {text : List Char} {port : Port} (h : Numeral text port) :
    '-' ∉ text := by
  obtain ⟨before, number, after, rfl, hbefore, hafter, hnumber⟩ := h
  intro hmem
  rcases List.mem_append.mp hmem with hmem | hmem
  · rcases List.mem_append.mp hmem with hmem | hmem
    · exact absurd (hbefore '-' hmem) (by decide)
    · exact (hnumber.no_blank '-' hmem).2 rfl
  · exact absurd (hafter '-' hmem) (by decide)

/-! ## Items -/

/-- A text with a dash is what comes before the first one, the dash, and the rest. -/
theorem eq_first_dash {text : List Char} (h : '-' ∈ text) :
    text = text.takeWhile (· ≠ '-') ++ '-' :: (text.dropWhile (· ≠ '-')).tail := by
  rcases eq_takeWhile_or '-' text with htext | ⟨rest, htext⟩
  · rw [htext] at h
    exact absurd h (not_mem_takeWhile_ne '-' text)
  · have hrest : (text.dropWhile (· ≠ '-')).tail = rest := by
      conv_lhs => rw [htext, dropWhile_ne (not_mem_takeWhile_ne '-' text)]
      rfl
    rw [hrest]
    exact htext

theorem Blank.no_dash {text : List Char} (h : Blank text) : '-' ∉ text := fun hmem =>
  absurd (h '-' hmem) (by decide)

/-- Blanks at the ends of the part do not matter to the numbers of a range. -/
theorem numeral_blank_left {blank text : List Char} {port : Port} (h : Blank blank) :
    Numeral (blank ++ text) port ↔ Numeral text port := by
  have hleft := @parseU16_trim_iff (String.ofList (blank ++ text)) port
  have hright := @parseU16_trim_iff (String.ofList text) port
  rw [String.toList_ofList] at hleft hright
  rw [← hleft, ← hright, trim_append_left h]

theorem numeral_blank_right {text blank : List Char} {port : Port} (h : Blank blank) :
    Numeral (text ++ blank) port ↔ Numeral text port := by
  have hleft := @parseU16_trim_iff (String.ofList (text ++ blank)) port
  have hright := @parseU16_trim_iff (String.ofList text) port
  rw [String.toList_ofList] at hleft hright
  rw [← hleft, ← hright, trim_append_right h]

/-- The two numbers around the first dash, and their order. -/
theorem item_dash_iff {a b : List Char} {first last : Port} (ha : '-' ∉ a) :
    Item (a ++ '-' :: b) first last ↔ Numeral a first ∧ Numeral b last ∧ first ≤ last := by
  constructor
  · intro h
    generalize htext : a ++ '-' :: b = text at h
    cases h with
    | port hnumeral =>
        refine absurd ?_ hnumeral.no_dash
        rw [← htext]
        simp
    | range ha' hb' hle =>
        obtain ⟨rfl, rfl⟩ := eq_of_append_sep ha ha'.no_dash htext
        exact ⟨ha', hb', hle⟩
  · rintro ⟨hfirst, hlast, hle⟩
    exact .range hfirst hlast hle

theorem item_no_dash_iff {text : List Char} {first last : Port} (h : '-' ∉ text) :
    Item text first last ↔ Numeral text first ∧ first = last := by
  constructor
  · intro hitem
    cases hitem with
    | port hnumeral => exact ⟨hnumeral, rfl⟩
    | range => exact absurd (by simp) h
  · rintro ⟨hnumeral, rfl⟩
    exact .port hnumeral

theorem Item.le {text : List Char} {first last : Port} (h : Item text first last) :
    first ≤ last := by
  cases h with
  | port => exact UInt16.le_refl first
  | range _ _ hle => exact hle

/-- A part is read exactly when it is an item. -/
theorem partBounds_eq_ok_iff {part : String} {first last : Port} :
    partBounds part = .ok (first, last) ↔ Item part.toList first last := by
  obtain ⟨before, after, hpart, hbefore, hafter⟩ := exists_trim part
  have hmem : '-' ∈ part.toList ↔ '-' ∈ (trim part).toList := by
    rw [hpart, List.mem_append, List.mem_append]
    simp [hbefore.no_dash, hafter.no_dash]
  unfold partBounds
  by_cases hdash : '-' ∈ (trim part).toList
  · have hcore := eq_first_dash hdash
    have hno := not_mem_takeWhile_ne '-' (trim part).toList
    simp only [hdash, if_true]
    generalize (trim part).toList.takeWhile (· ≠ '-') = a at hcore hno ⊢
    generalize ((trim part).toList.dropWhile (· ≠ '-')).tail = b at hcore ⊢
    have hsplit : part.toList = (before ++ a) ++ '-' :: (b ++ after) := by
      rw [hpart, hcore]
      simp
    have ha : '-' ∉ before ++ a := by
      rw [List.mem_append]
      exact fun h => h.elim hbefore.no_dash hno
    rw [hsplit, item_dash_iff ha, numeral_blank_left hbefore, numeral_blank_right hafter]
    have hfirst := @parseU16_trim_iff (String.ofList a) first
    have hlast := @parseU16_trim_iff (String.ofList b) last
    rw [String.toList_ofList] at hfirst hlast
    rw [← hfirst, ← hlast]
    cases parseU16 (trim (String.ofList a)) with
    | none => simp
    | some first' =>
        cases parseU16 (trim (String.ofList b)) with
        | none => simp
        | some last' =>
            simp only [gt_iff_lt, Option.some.injEq]
            split
            · rename_i hlt
              refine ⟨fun h => (by cases h), ?_⟩
              rintro ⟨rfl, rfl, hle⟩
              exact absurd hlt (UInt16.not_lt.mpr hle)
            · rename_i hlt
              rw [Except.ok.injEq, Prod.mk.injEq]
              refine ⟨fun h => ⟨h.1, h.2, ?_⟩, fun h => ⟨h.1, h.2.1⟩⟩
              rw [← h.1, ← h.2]
              exact UInt16.not_lt.mp hlt
  · simp only [hdash, if_false]
    rw [item_no_dash_iff (mt hmem.mp hdash), ← parseU16_trim_iff]
    cases parseU16 (trim part) with
    | none => simp
    | some port =>
        rw [Except.ok.injEq, Prod.mk.injEq, Option.some.injEq]
        exact and_congr_right fun heq => by rw [heq]

/-! ## Lists of items -/

theorem splitCommas_ne_nil (spec : String) : splitCommas spec ≠ [] := by
  rw [splitCommas, ne_eq, List.map_eq_nil_iff]
  exact List.splitOn_ne_nil ',' spec.toList

theorem spans_iff_itemDenotes {part : String} {port : Port} :
    Spans part port ↔ ItemDenotes part port := by
  constructor
  · rintro ⟨⟨first, last⟩, hbounds, hle⟩
    exact ⟨first, last, partBounds_eq_ok_iff.mp hbounds, hle⟩
  · rintro ⟨first, last, hitem, hle⟩
    exact ⟨(first, last), partBounds_eq_ok_iff.mpr hitem, hle⟩

/-- A list is read exactly when it is well formed. -/
theorem parsePortRange_isOk_iff {spec : String} :
    (∃ ports, parsePortRange spec = .ok ports) ↔ WellFormed spec := by
  unfold parsePortRange WellFormed
  generalize splitCommas spec = parts
  induction parts with
  | nil => exact ⟨fun _ => (by simp), fun _ => ⟨[], rfl⟩⟩
  | cons part parts ih =>
      rw [List.forall_mem_cons, ← ih]
      constructor
      · rintro ⟨ports, h⟩
        obtain ⟨bounds, rest, hbounds, hrest, -⟩ := partPorts_cons_eq_ok_iff.mp h
        exact ⟨⟨bounds.1, bounds.2, partBounds_eq_ok_iff.mp hbounds⟩, rest, hrest⟩
      · rintro ⟨⟨first, last, hitem⟩, rest, hrest⟩
        exact ⟨_, partPorts_cons_eq_ok_iff.mpr
          ⟨_, rest, partBounds_eq_ok_iff.mpr hitem, hrest, rfl⟩⟩

theorem mem_ports_iff_denotes {spec : String} {ports : List Port}
    (h : parsePortRange spec = .ok ports) {port : Port} : port ∈ ports ↔ Denotes spec port := by
  rw [mem_parsePortRange h]
  exact exists_congr fun part => and_congr_right fun _ => spans_iff_itemDenotes

/-- A port is listed twice exactly when two items denote it. -/
theorem ports_nodup_iff {spec : String} {ports : List Port} (h : parsePortRange spec = .ok ports) :
    ports.Nodup ↔ NoOverlap spec := by
  unfold parsePortRange at h
  unfold NoOverlap
  generalize splitCommas spec = parts at h ⊢
  induction parts generalizing ports with
  | nil =>
      obtain rfl := Except.ok.inj h
      simp
  | cons part parts ih =>
      obtain ⟨bounds, rest, hbounds, hrest, rfl⟩ := partPorts_cons_eq_ok_iff.mp h
      have hpart : ∀ port, port ∈ portsBetween bounds.1 bounds.2 ↔ ItemDenotes part port := by
        intro port
        rw [mem_portsBetween, ← spans_iff hbounds, spans_iff_itemDenotes]
      have hparts : ∀ port, port ∈ rest ↔ ∃ part ∈ parts, ItemDenotes part port := by
        intro port
        rw [mem_partPorts hrest]
        exact exists_congr fun part => and_congr_right fun _ => spans_iff_itemDenotes
      rw [List.nodup_append', List.pairwise_cons, ← ih hrest]
      refine ⟨fun ⟨_, hnodup, hdisj⟩ => ⟨fun other hother port hboth => ?_, hnodup⟩,
        fun ⟨hclear, hnodup⟩ => ⟨portsBetween_nodup _ _, hnodup, fun port hport hmem => ?_⟩⟩
      · exact hdisj ((hpart port).mpr hboth.1) ((hparts port).mpr ⟨other, hother, hboth.2⟩)
      · obtain ⟨other, hother, hdenotes⟩ := (hparts port).mp hmem
        exact hclear other hother port ⟨(hpart port).mp hport, hdenotes⟩

end Kdct
