/-
A map with two keys for each item (`MultiMap` in `crates/tunnel/src/multi_map.rs`).

An item is boxed, and both hash maps hold raw pointers: to the item as the value, and into
the item as the key.  Comparing keys reads through the pointers, so a map must not be asked
anything while one of its entries points into a box that was freed.  `none` stands for the
undefined behaviour of reading or freeing a box that is not there.

A hash map may compare a key with any of its own, so a lookup here reads all of them.  The
address of a new box and the order in which entries are drained are chosen outside.
-/
import Kdct.Lib.Heap

namespace Kdct.MultiMap

/-! ## Hash maps of pointers -/

/-- `Key` and `RawItem`. -/
structure Entry where
  key : Nat
  item : Nat
  deriving DecidableEq

section Entries

variable {ι κ μ : Type} [DecidableEq κ] [DecidableEq μ] (key : ι → κ) (key' : ι → μ)

/-- `Key::borrow`. -/
def borrow (h : Heap ι) (e : Entry) : Option κ := (h.read e.key).map key

def find (h : Heap ι) (k : κ) (map : List Entry) : Option (Option Entry) :=
  if ∀ e ∈ map, (borrow key h e).isSome then
    some (map.find? fun e => borrow key h e = some k)
  else none

/-- `HashMap::insert`; the value of an equal key is replaced. -/
def insertEntry (h : Heap ι) (e : Entry) (map : List Entry) : Option (List Entry) := do
  let k ← borrow key h e
  match ← find key h k map with
  | none => some (e :: map)
  | some old => some ({ old with item := e.item } :: map.erase old)

def removeEntry (h : Heap ι) (k : κ) (map : List Entry) : Option (Option Entry × List Entry) := do
  match ← find key h k map with
  | none => some (none, map)
  | some e => some (some e, map.erase e)

/-! ## Operations with either key -/

def getItem (h : Heap ι) (k : κ) (map : List Entry) : Option (Option ι) := do
  match ← find key h k map with
  | none => some none
  | some e =>
      let x ← h.read e.item
      some (some x)

/-- The caller of a mutable getter leaves `f` of what it finds. -/
def modifyItem (h : Heap ι) (k : κ) (f : ι → ι) (map : List Entry) :
    Option (Option ι × Heap ι) := do
  match ← find key h k map with
  | none => some (none, h)
  | some e =>
      let x ← h.read e.item
      let h ← h.write e.item (f x)
      some (some x, h)

/-- The box is owned again once its first entry is out, and freed when the other is out too. -/
def removeItem (h : Heap ι) (k : κ) (map map' : List Entry) :
    Option (Option ι × Heap ι × List Entry × List Entry) := do
  match ← removeEntry key h k map with
  | (none, _) => some (none, h, map, map')
  | (some e, map) =>
      let x ← h.read e.item
      let (_, map') ← removeEntry key' h (key' x) map'
      let (_, h) ← h.free e.item
      some (some x, h, map, map')

end Entries

/-! ## The map -/

variable {K1 K2 V : Type}

abbrev Item (K1 K2 V : Type) := K1 × K2 × V

def key1 (x : Item K1 K2 V) : K1 := x.1

def key2 (x : Item K1 K2 V) : K2 := x.2.1

def value (x : Item K1 K2 V) : V := x.2.2

def withValue (f : V → V) (x : Item K1 K2 V) : Item K1 K2 V := (x.1, x.2.1, f x.2.2)

structure State (K1 K2 V : Type) where
  heap : Heap (Item K1 K2 V)
  map1 : List Entry
  map2 : List Entry

def State.new : State K1 K2 V := ⟨Heap.empty, [], []⟩

inductive Op (K1 K2 V : Type)
  /-- With the address that the allocator gives, if it is asked. -/
  | insert (k1 : K1) (k2 : K2) (v : V) (address : Nat)
  | get1 (k1 : K1)
  | get1Mut (k1 : K1) (f : V → V)
  | get2 (k2 : K2)
  | getMut2 (k2 : K2) (f : V → V)
  | remove1 (k1 : K1)
  | remove2 (k2 : K2)

inductive Reply (K1 K2 V : Type)
  | inserted
  | refused (k1 : K1) (k2 : K2) (v : V)
  | value (v : Option V)
  deriving DecidableEq

section Operations

variable [DecidableEq K1] [DecidableEq K2]

def insert (s : State K1 K2 V) (k1 : K1) (k2 : K2) (v : V) (address : Nat) :
    Option (Reply K1 K2 V × State K1 K2 V) := do
  let found1 ← find key1 s.heap k1 s.map1
  if found1.isSome then some (.refused k1 k2 v, s)
  else
    let found2 ← find key2 s.heap k2 s.map2
    if found2.isSome then some (.refused k1 k2 v, s)
    else
      let heap ← s.heap.alloc address (k1, k2, v)
      let map1 ← insertEntry key1 heap ⟨address, address⟩ s.map1
      let map2 ← insertEntry key2 heap ⟨address, address⟩ s.map2
      some (.inserted, ⟨heap, map1, map2⟩)

def get1 (s : State K1 K2 V) (k1 : K1) : Option (Reply K1 K2 V × State K1 K2 V) := do
  let found ← getItem key1 s.heap k1 s.map1
  some (.value (found.map value), s)

def get2 (s : State K1 K2 V) (k2 : K2) : Option (Reply K1 K2 V × State K1 K2 V) := do
  let found ← getItem key2 s.heap k2 s.map2
  some (.value (found.map value), s)

def get1Mut (s : State K1 K2 V) (k1 : K1) (f : V → V) :
    Option (Reply K1 K2 V × State K1 K2 V) := do
  let (found, heap) ← modifyItem key1 s.heap k1 (withValue f) s.map1
  some (.value (found.map value), { s with heap := heap })

def getMut2 (s : State K1 K2 V) (k2 : K2) (f : V → V) :
    Option (Reply K1 K2 V × State K1 K2 V) := do
  let (found, heap) ← modifyItem key2 s.heap k2 (withValue f) s.map2
  some (.value (found.map value), { s with heap := heap })

def remove1 (s : State K1 K2 V) (k1 : K1) : Option (Reply K1 K2 V × State K1 K2 V) := do
  let (found, heap, map1, map2) ← removeItem key1 key2 s.heap k1 s.map1 s.map2
  some (.value (found.map value), ⟨heap, map1, map2⟩)

def remove2 (s : State K1 K2 V) (k2 : K2) : Option (Reply K1 K2 V × State K1 K2 V) := do
  let (found, heap, map2, map1) ← removeItem key2 key1 s.heap k2 s.map2 s.map1
  some (.value (found.map value), ⟨heap, map1, map2⟩)

def exec (s : State K1 K2 V) : Op K1 K2 V → Option (Reply K1 K2 V × State K1 K2 V)
  | .insert k1 k2 v address => insert s k1 k2 v address
  | .get1 k1 => get1 s k1
  | .get1Mut k1 f => get1Mut s k1 f
  | .get2 k2 => get2 s k2
  | .getMut2 k2 f => getMut2 s k2 f
  | .remove1 k1 => remove1 s k1
  | .remove2 k2 => remove2 s k2

def run : State K1 K2 V → List (Op K1 K2 V) → Option (List (Reply K1 K2 V) × State K1 K2 V)
  | s, [] => some ([], s)
  | s, op :: ops => do
      let (reply, s) ← exec s op
      let (replies, s) ← run s ops
      some (reply :: replies, s)

/-- `drop`: the first map is cleared, and the entries of the second are drained in some
order and their items freed. -/
def freeAll : Heap (Item K1 K2 V) → List Entry → Option (Heap (Item K1 K2 V))
  | h, [] => some h
  | h, e :: order => do
      let (_, h) ← h.free e.item
      freeAll h order

/-- The allocator gives an address where no box is. -/
def FreshAddress (s : State K1 K2 V) : Op K1 K2 V → Prop
  | .insert _ _ _ address => s.heap.read address = none
  | _ => True

def Fresh : State K1 K2 V → List (Op K1 K2 V) → Prop
  | _, [] => True
  | s, op :: ops => FreshAddress s op ∧
      match exec s op with
      | none => True
      | some (_, t) => Fresh t ops

end Operations

/-! ## The map as a set of items -/

/-- Items of which no two have the same first key, or the same second key. -/
@[ext]
structure Table (K1 K2 V : Type) where
  items : List (Item K1 K2 V)
  unique1 : (items.map key1).Nodup
  unique2 : (items.map key2).Nodup

namespace Table

def empty : Table K1 K2 V := ⟨[], List.nodup_nil, List.nodup_nil⟩

/-- Whether an item has one of two keys. -/
def Taken (T : Table K1 K2 V) (k1 : K1) (k2 : K2) : Prop :=
  ∃ x ∈ T.items, key1 x = k1 ∨ key2 x = k2

instance [DecidableEq K1] [DecidableEq K2] (T : Table K1 K2 V) (k1 : K1) (k2 : K2) :
    Decidable (T.Taken k1 k2) :=
  inferInstanceAs (Decidable (∃ x ∈ T.items, key1 x = k1 ∨ key2 x = k2))

def add (T : Table K1 K2 V) (k1 : K1) (k2 : K2) (v : V) (h : ¬T.Taken k1 k2) : Table K1 K2 V where
  items := (k1, k2, v) :: T.items
  unique1 := by
    rw [List.map_cons, List.nodup_cons]
    refine ⟨fun hmem => ?_, T.unique1⟩
    obtain ⟨x, hx, hkey⟩ := List.mem_map.mp hmem
    exact h ⟨x, hx, .inl hkey⟩
  unique2 := by
    rw [List.map_cons, List.nodup_cons]
    refine ⟨fun hmem => ?_, T.unique2⟩
    obtain ⟨x, hx, hkey⟩ := List.mem_map.mp hmem
    exact h ⟨x, hx, .inr hkey⟩

/-- The items without those that `p` selects. -/
def erase (T : Table K1 K2 V) (p : Item K1 K2 V → Bool) : Table K1 K2 V where
  items := T.items.filter fun x => !p x
  unique1 := T.unique1.sublist (List.filter_sublist.map key1)
  unique2 := T.unique2.sublist (List.filter_sublist.map key2)

/-- The items, with the values of those that `p` selects changed. -/
def modify (T : Table K1 K2 V) (p : Item K1 K2 V → Bool) (f : V → V) : Table K1 K2 V where
  items := T.items.map fun x => if p x then withValue f x else x
  unique1 := by
    have hkeys : (key1 ∘ fun x : Item K1 K2 V => if p x then withValue f x else x) = key1 := by
      funext x
      rw [Function.comp_apply]
      split <;> rfl
    rw [List.map_map, hkeys]
    exact T.unique1
  unique2 := by
    have hkeys : (key2 ∘ fun x : Item K1 K2 V => if p x then withValue f x else x) = key2 := by
      funext x
      rw [Function.comp_apply]
      split <;> rfl
    rw [List.map_map, hkeys]
    exact T.unique2

/-- The value of the item that `p` selects. -/
def get (T : Table K1 K2 V) (p : Item K1 K2 V → Bool) : Option V := (T.items.find? p).map value

variable [DecidableEq K1] [DecidableEq K2]

def exec (T : Table K1 K2 V) : Op K1 K2 V → Reply K1 K2 V × Table K1 K2 V
  | .insert k1 k2 v _ =>
      if h : T.Taken k1 k2 then (.refused k1 k2 v, T) else (.inserted, T.add k1 k2 v h)
  | .get1 k1 => (.value (T.get fun x => key1 x = k1), T)
  | .get1Mut k1 f => (.value (T.get fun x => key1 x = k1), T.modify (fun x => key1 x = k1) f)
  | .get2 k2 => (.value (T.get fun x => key2 x = k2), T)
  | .getMut2 k2 f => (.value (T.get fun x => key2 x = k2), T.modify (fun x => key2 x = k2) f)
  | .remove1 k1 => (.value (T.get fun x => key1 x = k1), T.erase fun x => key1 x = k1)
  | .remove2 k2 => (.value (T.get fun x => key2 x = k2), T.erase fun x => key2 x = k2)

def run : Table K1 K2 V → List (Op K1 K2 V) → List (Reply K1 K2 V) × Table K1 K2 V
  | T, [] => ([], T)
  | T, op :: ops =>
      let (reply, T) := T.exec op
      let (replies, T) := T.run ops
      (reply :: replies, T)

end Table

/-! ## What the pointers stand for -/

/-- Each box has one entry, which points into it and to it, and there are no other entries. -/
structure Indexes {ι : Type} (h : Heap ι) (map : List Entry) : Prop where
  nodup : map.Nodup
  mem_iff : ∀ e, e ∈ map ↔ e.key = e.item ∧ (h.read e.item).isSome

/-- No two boxes hold items with the same key. -/
def Unique {ι κ : Type} (key : ι → κ) (h : Heap ι) : Prop :=
  ∀ a b x y, h.read a = some x → h.read b = some y → key x = key y → a = b

/-- Both maps index exactly the boxes on the heap, and these hold the items of the table. -/
structure Represents (s : State K1 K2 V) (T : Table K1 K2 V) : Prop where
  sound : s.heap.Sound
  index1 : Indexes s.heap s.map1
  index2 : Indexes s.heap s.map2
  unique1 : Unique key1 s.heap
  unique2 : Unique key2 s.heap
  items : ∀ x, x ∈ T.items ↔ ∃ a, s.heap.read a = some x

/-! ## Entries and boxes -/

section Entries

variable {ι κ μ : Type} {key : ι → κ} {key' : ι → μ} {h h' : Heap ι} {map map' : List Entry}
  {a : Nat} {x : ι}

theorem eq_of_item {e : Entry} (hkey : e.key = e.item) (hitem : e.item = a) : e = ⟨a, a⟩ := by
  cases e
  cases hitem
  cases hkey
  rfl

theorem mem_of_read (hidx : Indexes h map) (hread : h.read a = some x) : ⟨a, a⟩ ∈ map :=
  (hidx.mem_iff ⟨a, a⟩).mpr ⟨rfl, by rw [hread]; rfl⟩

theorem read_of_mem {e : Entry} (hidx : Indexes h map) (he : e ∈ map) :
    e.key = e.item ∧ ∃ x, h.read e.key = some x := by
  obtain ⟨hkey, hsome⟩ := (hidx.mem_iff e).mp he
  exact ⟨hkey, hkey ▸ Option.isSome_iff_exists.mp hsome⟩

theorem borrow_eq {e : Entry} (hread : h.read e.key = some x) : borrow key h e = some (key x) := by
  rw [borrow, hread, Option.map_some]

theorem indexes_alloc (hidx : Indexes h map) (hdead : h.read a = none)
    (halloc : h.alloc a x = some h') : Indexes h' (⟨a, a⟩ :: map) where
  nodup := by
    refine List.nodup_cons.mpr ⟨fun hmem => ?_, hidx.nodup⟩
    have hsome := ((hidx.mem_iff _).mp hmem).2
    rw [hdead] at hsome
    cases hsome
  mem_iff := by
    intro e
    rw [List.mem_cons, hidx.mem_iff, Heap.read_alloc halloc]
    by_cases hitem : e.item = a
    · rw [if_pos hitem, hitem, hdead]
      constructor
      · rintro (rfl | ⟨hkey, -⟩)
        · exact ⟨rfl, rfl⟩
        · exact ⟨hkey, rfl⟩
      · rintro ⟨hkey, -⟩
        exact .inl (eq_of_item (hkey.trans hitem.symm) hitem)
    · rw [if_neg hitem]
      refine or_iff_right ?_
      rintro rfl
      exact hitem rfl

theorem indexes_write (hidx : Indexes h map) {y : ι} (hread : h.read a = some x)
    (hwrite : h.write a y = some h') : Indexes h' map where
  nodup := hidx.nodup
  mem_iff := by
    intro e
    rw [hidx.mem_iff, Heap.read_write hwrite]
    split
    · rename_i hitem
      rw [hitem, hread]
      exact Iff.rfl
    · exact Iff.rfl

theorem indexes_free (hidx : Indexes h map) (hfree : h.free a = some (x, h')) :
    Indexes h' (map.erase ⟨a, a⟩) where
  nodup := hidx.nodup.erase _
  mem_iff := by
    intro e
    rw [hidx.nodup.mem_erase_iff, hidx.mem_iff, Heap.read_free hfree]
    by_cases hitem : e.item = a
    · rw [if_pos hitem]
      refine iff_of_false ?_ (fun h => by cases h.2)
      rintro ⟨hne, hkey, -⟩
      exact hne (eq_of_item hkey hitem)
    · rw [if_neg hitem]
      refine and_iff_right ?_
      rintro rfl
      exact hitem rfl

theorem unique_alloc (huniq : Unique key h) (hno : ∀ b y, h.read b = some y → key y ≠ key x)
    (halloc : h.alloc a x = some h') : Unique key h' := by
  intro b c u v hb hc hkey
  rw [Heap.read_alloc halloc] at hb hc
  split at hb
  · rename_i hba
    split at hc
    · rename_i hca
      exact hba.trans hca.symm
    · rw [← Option.some.inj hb] at hkey
      exact absurd hkey.symm (hno c v hc)
  · split at hc
    · rw [← Option.some.inj hc] at hkey
      exact absurd hkey (hno b u hb)
    · exact huniq b c u v hb hc hkey

/-- A box keeps its keys when its value is written. -/
theorem unique_write (huniq : Unique key h) {y : ι} (hread : h.read a = some x)
    (hsame : key y = key x) (hwrite : h.write a y = some h') : Unique key h' := by
  have hold : ∀ b u, h'.read b = some u → ∃ w, h.read b = some w ∧ key w = key u := by
    intro b u hb
    rw [Heap.read_write hwrite] at hb
    split at hb
    · rename_i hba
      rw [← Option.some.inj hb]
      exact ⟨x, hba ▸ hread, hsame.symm⟩
    · exact ⟨u, hb, rfl⟩
  intro b c u v hb hc hkey
  obtain ⟨u', hu, hukey⟩ := hold b u hb
  obtain ⟨v', hv, hvkey⟩ := hold c v hc
  exact huniq b c u' v' hu hv (hukey.trans (hkey.trans hvkey.symm))

theorem unique_free (huniq : Unique key h) (hfree : h.free a = some (x, h')) : Unique key h' := by
  intro b c u v hb hc hkey
  rw [Heap.read_free hfree] at hb hc
  split at hb
  · cases hb
  · split at hc
    · cases hc
    · exact huniq b c u v hb hc hkey

/-! ## Lookups -/

variable [DecidableEq κ] [DecidableEq μ]

/-- A key that no entry has is not found. -/
theorem find_eq_none {k : κ} (hmap : ∀ e ∈ map, ∃ x, h.read e.key = some x ∧ key x ≠ k) :
    find key h k map = some none := by
  have hall : ∀ e ∈ map, (borrow key h e).isSome := by
    intro e he
    obtain ⟨x, hread, -⟩ := hmap e he
    rw [borrow_eq hread]
    rfl
  rw [find, if_pos hall, List.find?_eq_none.mpr]
  intro e he
  obtain ⟨x, hread, hne⟩ := hmap e he
  rw [borrow_eq hread]
  simpa using hne

/-- The key of a box finds the entry of that box. -/
theorem find_eq_some (hidx : Indexes h map) (huniq : Unique key h) (hread : h.read a = some x) :
    find key h (key x) map = some (some ⟨a, a⟩) := by
  have hall : ∀ e ∈ map, (borrow key h e).isSome := by
    intro e he
    obtain ⟨-, y, hy⟩ := read_of_mem hidx he
    rw [borrow_eq hy]
    rfl
  rw [find, if_pos hall]
  cases hfind : map.find? fun e => borrow key h e = some (key x) with
  | none =>
      have hno := List.find?_eq_none.mp hfind ⟨a, a⟩ (mem_of_read hidx hread)
      rw [borrow_eq (e := ⟨a, a⟩) hread] at hno
      exact absurd (decide_eq_true rfl) hno
  | some e =>
      obtain ⟨hkey, y, hy⟩ := read_of_mem hidx (List.mem_of_find?_eq_some hfind)
      have hsame : borrow key h e = some (key x) := by simpa using List.find?_some hfind
      rw [borrow_eq hy] at hsame
      have ha : e.key = a := huniq _ _ _ _ hy hread (Option.some.inj hsame)
      rw [eq_of_item hkey (hkey ▸ ha)]

theorem find_eq_none_of_indexes {k : κ} (hidx : Indexes h map)
    (hno : ∀ a x, h.read a = some x → key x ≠ k) : find key h k map = some none := by
  refine find_eq_none fun e he => ?_
  obtain ⟨-, x, hx⟩ := read_of_mem hidx he
  exact ⟨x, hx, hno _ _ hx⟩

theorem removeEntry_eq_some (hidx : Indexes h map) (huniq : Unique key h)
    (hread : h.read a = some x) :
    removeEntry key h (key x) map = some (some ⟨a, a⟩, map.erase ⟨a, a⟩) := by
  rw [removeEntry, find_eq_some hidx huniq hread]
  rfl

/-- Both entries of a box are out of the maps before it is freed. -/
theorem removeItem_eq_some (hidx : Indexes h map) (hidx' : Indexes h map') (huniq : Unique key h)
    (huniq' : Unique key' h) (hread : h.read a = some x) (hfree : h.free a = some (x, h')) :
    removeItem key key' h (key x) map map' =
      some (some x, h', map.erase ⟨a, a⟩, map'.erase ⟨a, a⟩) := by
  rw [removeItem, removeEntry_eq_some hidx huniq hread]
  simp only [Option.bind_eq_bind, Option.bind_some, hread,
    removeEntry_eq_some hidx' huniq' hread, hfree]

theorem removeItem_eq_none {k : κ} (hidx : Indexes h map)
    (hno : ∀ a x, h.read a = some x → key x ≠ k) :
    removeItem key key' h k map map' = some (none, h, map, map') := by
  rw [removeItem, removeEntry, find_eq_none_of_indexes hidx hno]
  rfl

theorem getItem_eq_some (hidx : Indexes h map) (huniq : Unique key h) (hread : h.read a = some x) :
    getItem key h (key x) map = some (some x) := by
  rw [getItem, find_eq_some hidx huniq hread]
  simp only [Option.bind_eq_bind, Option.bind_some, hread]

theorem getItem_eq_none {k : κ} (hidx : Indexes h map)
    (hno : ∀ a x, h.read a = some x → key x ≠ k) : getItem key h k map = some none := by
  rw [getItem, find_eq_none_of_indexes hidx hno]
  rfl

theorem modifyItem_eq_some {f : ι → ι} (hidx : Indexes h map) (huniq : Unique key h)
    (hread : h.read a = some x) (hwrite : h.write a (f x) = some h') :
    modifyItem key h (key x) f map = some (some x, h') := by
  rw [modifyItem, find_eq_some hidx huniq hread]
  simp only [Option.bind_eq_bind, Option.bind_some, hread, hwrite]

theorem modifyItem_eq_none {k : κ} {f : ι → ι} (hidx : Indexes h map)
    (hno : ∀ a x, h.read a = some x → key x ≠ k) :
    modifyItem key h k f map = some (none, h) := by
  rw [modifyItem, find_eq_none_of_indexes hidx hno]
  rfl

/-- A new entry is put in front of the others, which have other keys. -/
theorem insertEntry_eq (hidx : Indexes h map) (hno : ∀ b y, h.read b = some y → key y ≠ key x)
    (hdead : h.read a = none) (halloc : h.alloc a x = some h') :
    insertEntry key h' ⟨a, a⟩ map = some (⟨a, a⟩ :: map) := by
  have hnew : h'.read a = some x := by rw [Heap.read_alloc halloc, if_pos rfl]
  have hfind : find key h' (key x) map = some none := by
    refine find_eq_none fun e he => ?_
    obtain ⟨-, y, hy⟩ := read_of_mem hidx he
    have hne : e.key ≠ a := by
      intro hkey
      rw [hkey, hdead] at hy
      cases hy
    exact ⟨y, by rw [Heap.read_alloc halloc, if_neg hne, hy], hno _ _ hy⟩
  rw [insertEntry, borrow_eq (e := ⟨a, a⟩) hnew]
  simp only [Option.bind_eq_bind, Option.bind_some, hfind]

end Entries

/-! ## Items of the table -/

variable {s : State K1 K2 V} {T : Table K1 K2 V} {heap : Heap (Item K1 K2 V)} {a : Nat}
  {x : Item K1 K2 V} {p : Item K1 K2 V → Bool}

theorem erase_eq_self (hp : ∀ y ∈ T.items, p y = false) : T.erase p = T := by
  refine Table.ext (List.filter_eq_self.mpr fun y hy => ?_)
  rw [hp y hy]
  rfl

theorem modify_eq_self {f : V → V} (hp : ∀ y ∈ T.items, p y = false) : T.modify p f = T := by
  refine Table.ext ((List.map_congr_left fun y hy => ?_).trans (List.map_id _))
  rw [hp y hy]
  rfl

theorem get_eq_some (hx : x ∈ T.items) (hp : ∀ y ∈ T.items, p y = true ↔ y = x) :
    T.get p = some (value x) := by
  unfold Table.get
  cases hfind : T.items.find? p with
  | none => exact absurd ((hp x hx).mpr rfl) (List.find?_eq_none.mp hfind x hx)
  | some y =>
      have hy := (hp y (List.mem_of_find?_eq_some hfind)).mp (List.find?_some hfind)
      rw [hy, Option.map_some]

theorem get_eq_none (hp : ∀ y ∈ T.items, p y = false) : T.get p = none := by
  unfold Table.get
  rw [List.find?_eq_none.mpr fun y hy => by rw [hp y hy]; exact Bool.false_ne_true]
  rfl

/-- The key of a box selects its item and no other. -/
theorem selects {κ : Type} [DecidableEq κ] {key : Item K1 K2 V → κ} (hR : Represents s T)
    (huniq : Unique key s.heap) (hread : s.heap.read a = some x) :
    ∀ y ∈ T.items, decide (key y = key x) = true ↔ y = x := by
  intro y hy
  obtain ⟨b, hb⟩ := (hR.items y).mp hy
  rw [decide_eq_true_eq]
  constructor
  · intro hkey
    rw [huniq b a y x hb hread hkey] at hb
    exact Option.some.inj (hb.symm.trans hread)
  · rintro rfl
    rfl

theorem selects_none {κ : Type} [DecidableEq κ] {key : Item K1 K2 V → κ} {k : κ}
    (hR : Represents s T) (hno : ∀ a x, s.heap.read a = some x → key x ≠ k) :
    ∀ y ∈ T.items, decide (key y = k) = false := by
  intro y hy
  obtain ⟨b, hb⟩ := (hR.items y).mp hy
  exact decide_eq_false (hno b y hb)

theorem taken_iff (hR : Represents s T) {k1 : K1} {k2 : K2} :
    T.Taken k1 k2 ↔ ∃ a x, s.heap.read a = some x ∧ (key1 x = k1 ∨ key2 x = k2) := by
  constructor
  · rintro ⟨x, hx, hkey⟩
    obtain ⟨a, ha⟩ := (hR.items x).mp hx
    exact ⟨a, x, ha, hkey⟩
  · rintro ⟨a, x, ha, hkey⟩
    exact ⟨x, (hR.items x).mpr ⟨a, ha⟩, hkey⟩

/-! ## Changes of the heap and the table -/

/-- Different boxes hold different items. -/
theorem read_injective (hR : Represents s T) {b : Nat} (ha : s.heap.read a = some x)
    (hb : s.heap.read b = some x) : b = a :=
  hR.unique1 b a x x hb ha rfl

theorem represents_add (hR : Represents s T) {k1 : K1} {k2 : K2} {v : V}
    (hdead : s.heap.read a = none) (halloc : s.heap.alloc a (k1, k2, v) = some heap)
    (h : ¬T.Taken k1 k2) :
    Represents ⟨heap, ⟨a, a⟩ :: s.map1, ⟨a, a⟩ :: s.map2⟩ (T.add k1 k2 v h) where
  sound := Heap.sound_alloc hR.sound halloc
  index1 := indexes_alloc hR.index1 hdead halloc
  index2 := indexes_alloc hR.index2 hdead halloc
  unique1 := unique_alloc (x := (k1, k2, v)) hR.unique1
    (fun b y hb hkey => h ((taken_iff hR).mpr ⟨b, y, hb, .inl hkey⟩)) halloc
  unique2 := unique_alloc (x := (k1, k2, v)) hR.unique2
    (fun b y hb hkey => h ((taken_iff hR).mpr ⟨b, y, hb, .inr hkey⟩)) halloc
  items := by
    intro y
    show y ∈ (k1, k2, v) :: T.items ↔ ∃ b, heap.read b = some y
    rw [List.mem_cons, hR.items]
    constructor
    · rintro (rfl | ⟨b, hb⟩)
      · exact ⟨a, by rw [Heap.read_alloc halloc, if_pos rfl]⟩
      · have hne : b ≠ a := by
          rintro rfl
          rw [hdead] at hb
          cases hb
        exact ⟨b, by rw [Heap.read_alloc halloc, if_neg hne, hb]⟩
    · rintro ⟨b, hb⟩
      rw [Heap.read_alloc halloc] at hb
      split at hb
      · exact .inl (Option.some.inj hb).symm
      · exact .inr ⟨b, hb⟩

theorem represents_erase (hR : Represents s T) (hread : s.heap.read a = some x)
    (hfree : s.heap.free a = some (x, heap)) (hp : ∀ y ∈ T.items, p y = true ↔ y = x) :
    Represents ⟨heap, s.map1.erase ⟨a, a⟩, s.map2.erase ⟨a, a⟩⟩ (T.erase p) where
  sound := Heap.sound_free hR.sound hfree
  index1 := indexes_free hR.index1 hfree
  index2 := indexes_free hR.index2 hfree
  unique1 := unique_free hR.unique1 hfree
  unique2 := unique_free hR.unique2 hfree
  items := by
    intro y
    show y ∈ T.items.filter _ ↔ ∃ b, heap.read b = some y
    rw [List.mem_filter]
    constructor
    · rintro ⟨hy, hpy⟩
      obtain ⟨b, hb⟩ := (hR.items y).mp hy
      have hne : b ≠ a := by
        rintro rfl
        have hyx := Option.some.inj (hb.symm.trans hread)
        rw [(hp y hy).mpr hyx] at hpy
        cases hpy
      exact ⟨b, by rw [Heap.read_free hfree, if_neg hne, hb]⟩
    · rintro ⟨b, hb⟩
      rw [Heap.read_free hfree] at hb
      split at hb
      · cases hb
      · rename_i hne
        have hy := (hR.items y).mpr ⟨b, hb⟩
        refine ⟨hy, ?_⟩
        rw [Bool.not_eq_true', Bool.eq_false_iff]
        intro hpy
        have hyx := (hp y hy).mp hpy
        subst hyx
        exact hne (read_injective hR hread hb)

theorem represents_modify (hR : Represents s T) {f : V → V} (hread : s.heap.read a = some x)
    (hwrite : s.heap.write a (withValue f x) = some heap)
    (hp : ∀ y ∈ T.items, p y = true ↔ y = x) :
    Represents { s with heap := heap } (T.modify p f) where
  sound := Heap.sound_write hR.sound hwrite
  index1 := indexes_write hR.index1 hread hwrite
  index2 := indexes_write hR.index2 hread hwrite
  unique1 := unique_write (y := withValue f x) hR.unique1 hread rfl hwrite
  unique2 := unique_write (y := withValue f x) hR.unique2 hread rfl hwrite
  items := by
    intro y
    show y ∈ T.items.map _ ↔ ∃ b, heap.read b = some y
    rw [List.mem_map]
    constructor
    · rintro ⟨z, hz, rfl⟩
      obtain ⟨b, hb⟩ := (hR.items z).mp hz
      by_cases hpz : p z = true
      · have hzx := (hp z hz).mp hpz
        subst hzx
        rw [if_pos hpz]
        exact ⟨a, by rw [Heap.read_write hwrite, if_pos rfl]⟩
      · have hne : b ≠ a := by
          rintro rfl
          exact hpz ((hp z hz).mpr (Option.some.inj (hb.symm.trans hread)))
        rw [if_neg hpz]
        exact ⟨b, by rw [Heap.read_write hwrite, if_neg hne, hb]⟩
    · rintro ⟨b, hb⟩
      rw [Heap.read_write hwrite] at hb
      split at hb
      · have hx := (hR.items x).mpr ⟨a, hread⟩
        exact ⟨x, hx, by rw [if_pos ((hp x hx).mpr rfl), Option.some.inj hb]⟩
      · rename_i hne
        have hy := (hR.items y).mpr ⟨b, hb⟩
        refine ⟨y, hy, if_neg fun hpy => ?_⟩
        have hyx := (hp y hy).mp hpy
        subst hyx
        exact hne (read_injective hR hread hb)

/-! ## Operations -/

/-- A key is that of a box, or of none. -/
theorem read_or_ne {ι κ : Type} (key : ι → κ) (h : Heap ι) (k : κ) :
    (∃ a x, h.read a = some x ∧ key x = k) ∨ ∀ a x, h.read a = some x → key x ≠ k := by
  by_cases hex : ∃ a x, h.read a = some x ∧ key x = k
  · exact .inl hex
  · exact .inr fun a x hread hkey => hex ⟨a, x, hread, hkey⟩

section EitherKey

variable {κ : Type} [DecidableEq κ] {key : Item K1 K2 V → κ} {map : List Entry}

theorem getItem_represents (hR : Represents s T) (hidx : Indexes s.heap map)
    (huniq : Unique key s.heap) (k : κ) :
    ∃ found, getItem key s.heap k map = some found ∧
      found.map value = T.get fun x => key x = k := by
  rcases read_or_ne key s.heap k with ⟨a, x, hread, rfl⟩ | hno
  · refine ⟨some x, getItem_eq_some hidx huniq hread, ?_⟩
    rw [get_eq_some ((hR.items x).mpr ⟨a, hread⟩) (selects hR huniq hread)]
    rfl
  · refine ⟨none, getItem_eq_none hidx hno, ?_⟩
    rw [get_eq_none (selects_none hR hno)]
    rfl

/-- An item is found under its key, and nothing else is. -/
theorem get_eq_some_iff (hR : Represents s T) (huniq : Unique key s.heap) {k : κ} {v : V} :
    (T.get fun x => key x = k) = some v ↔ ∃ x ∈ T.items, key x = k ∧ value x = v := by
  constructor
  · intro hget
    obtain ⟨x, hx, hvalue⟩ := Option.map_eq_some_iff.mp hget
    exact ⟨x, List.mem_of_find?_eq_some hx, by simpa using List.find?_some hx, hvalue⟩
  · rintro ⟨x, hx, rfl, rfl⟩
    obtain ⟨a, hread⟩ := (hR.items x).mp hx
    exact get_eq_some hx (selects hR huniq hread)

theorem modifyItem_represents (hR : Represents s T) (hidx : Indexes s.heap map)
    (huniq : Unique key s.heap) (k : κ) (f : V → V) :
    ∃ found heap, modifyItem key s.heap k (withValue f) map = some (found, heap) ∧
      (found.map value = T.get fun x => key x = k) ∧
      Represents { s with heap := heap } (T.modify (fun x => key x = k) f) := by
  rcases read_or_ne key s.heap k with ⟨a, x, hread, rfl⟩ | hno
  · obtain ⟨heap, hwrite⟩ := Heap.exists_write hread (withValue f x)
    have hp := selects hR huniq hread
    refine ⟨some x, heap, modifyItem_eq_some hidx huniq hread hwrite, ?_,
      represents_modify hR hread hwrite hp⟩
    rw [get_eq_some ((hR.items x).mpr ⟨a, hread⟩) hp]
    rfl
  · have hp := selects_none hR hno
    refine ⟨none, s.heap, modifyItem_eq_none hidx hno, ?_, ?_⟩
    · rw [get_eq_none hp]
      rfl
    · rw [modify_eq_self hp]
      exact hR

end EitherKey

theorem exec_get1 [DecidableEq K1] (hR : Represents s T) (k1 : K1) :
    get1 s k1 = some (.value (T.get fun x => key1 x = k1), s) := by
  obtain ⟨found, hget, hvalue⟩ := getItem_represents hR hR.index1 hR.unique1 k1
  rw [get1, hget, ← hvalue]
  rfl

theorem exec_get2 [DecidableEq K2] (hR : Represents s T) (k2 : K2) :
    get2 s k2 = some (.value (T.get fun x => key2 x = k2), s) := by
  obtain ⟨found, hget, hvalue⟩ := getItem_represents hR hR.index2 hR.unique2 k2
  rw [get2, hget, ← hvalue]
  rfl

theorem exec_get1Mut [DecidableEq K1] (hR : Represents s T) (k1 : K1) (f : V → V) :
    ∃ t, get1Mut s k1 f = some (.value (T.get fun x => key1 x = k1), t) ∧
      Represents t (T.modify (fun x => key1 x = k1) f) := by
  obtain ⟨found, heap, hmodify, hvalue, ht⟩ :=
    modifyItem_represents hR hR.index1 hR.unique1 k1 f
  rw [get1Mut, hmodify, ← hvalue]
  exact ⟨_, rfl, ht⟩

theorem exec_getMut2 [DecidableEq K2] (hR : Represents s T) (k2 : K2) (f : V → V) :
    ∃ t, getMut2 s k2 f = some (.value (T.get fun x => key2 x = k2), t) ∧
      Represents t (T.modify (fun x => key2 x = k2) f) := by
  obtain ⟨found, heap, hmodify, hvalue, ht⟩ :=
    modifyItem_represents hR hR.index2 hR.unique2 k2 f
  rw [getMut2, hmodify, ← hvalue]
  exact ⟨_, rfl, ht⟩

theorem represents_new : Represents (State.new : State K1 K2 V) Table.empty where
  sound := Heap.sound_empty
  index1 := ⟨List.nodup_nil, fun e => iff_of_false List.not_mem_nil fun h => by cases h.2⟩
  index2 := ⟨List.nodup_nil, fun e => iff_of_false List.not_mem_nil fun h => by cases h.2⟩
  unique1 := nofun
  unique2 := nofun
  items := fun x => iff_of_false List.not_mem_nil fun ⟨_, h⟩ => by cases h

/-- Draining the entries frees every box, in any order. -/
theorem freeAll_spec {order : List Entry} (hs : heap.Sound) (hidx : Indexes heap order) :
    ∃ heap', freeAll heap order = some heap' ∧ heap'.Sound ∧ ∀ a, heap'.read a = none := by
  induction order generalizing heap with
  | nil =>
      refine ⟨heap, rfl, hs, fun a => ?_⟩
      have hnone := mt (hidx.mem_iff ⟨a, a⟩).mpr List.not_mem_nil
      simpa using hnone
  | cons e order ih =>
      obtain ⟨hkey, x, hx⟩ := read_of_mem hidx List.mem_cons_self
      rw [hkey] at hx
      obtain ⟨heap₁, hfree⟩ := Heap.exists_free hx
      have hidx₁ := indexes_free hidx hfree
      rw [← eq_of_item hkey rfl, List.erase_cons_head] at hidx₁
      obtain ⟨heap', hall, hs', hnone⟩ := ih (Heap.sound_free hs hfree) hidx₁
      refine ⟨heap', ?_, hs', hnone⟩
      unfold freeAll
      rw [hfree]
      exact hall

section Operations

variable [DecidableEq K1] [DecidableEq K2]

theorem insert_of_taken (hR : Represents s T) {k1 : K1} {k2 : K2} (v : V) (address : Nat)
    (h : T.Taken k1 k2) : insert s k1 k2 v address = some (.refused k1 k2 v, s) := by
  unfold insert
  rcases read_or_ne key1 s.heap k1 with ⟨a, x, hread, rfl⟩ | hno1
  · rw [find_eq_some hR.index1 hR.unique1 hread]
    rfl
  · obtain ⟨a, x, hread, hkey⟩ := (taken_iff hR).mp h
    have hkey2 : key2 x = k2 := hkey.resolve_left (hno1 a x hread)
    rw [find_eq_none_of_indexes hR.index1 hno1, ← hkey2,
      find_eq_some hR.index2 hR.unique2 hread]
    rfl

theorem insert_of_not_taken (hR : Represents s T) {k1 : K1} {k2 : K2} {v : V}
    (h : ¬T.Taken k1 k2) (halloc : s.heap.alloc a (k1, k2, v) = some heap)
    (hdead : s.heap.read a = none) :
    insert s k1 k2 v a = some (.inserted, ⟨heap, ⟨a, a⟩ :: s.map1, ⟨a, a⟩ :: s.map2⟩) := by
  have hno1 : ∀ b y, s.heap.read b = some y → key1 y ≠ k1 :=
    fun b y hb hkey => h ((taken_iff hR).mpr ⟨b, y, hb, .inl hkey⟩)
  have hno2 : ∀ b y, s.heap.read b = some y → key2 y ≠ k2 :=
    fun b y hb hkey => h ((taken_iff hR).mpr ⟨b, y, hb, .inr hkey⟩)
  have hmap1 : insertEntry key1 heap ⟨a, a⟩ s.map1 = some (⟨a, a⟩ :: s.map1) :=
    insertEntry_eq (x := (k1, k2, v)) hR.index1 hno1 hdead halloc
  have hmap2 : insertEntry key2 heap ⟨a, a⟩ s.map2 = some (⟨a, a⟩ :: s.map2) :=
    insertEntry_eq (x := (k1, k2, v)) hR.index2 hno2 hdead halloc
  unfold insert
  rw [find_eq_none_of_indexes hR.index1 hno1, find_eq_none_of_indexes hR.index2 hno2]
  simp only [Option.bind_eq_bind, Option.bind_some, Option.isSome_none, Bool.false_eq_true,
    if_false, halloc, hmap1, hmap2]

theorem exec_insert (hR : Represents s T) (k1 : K1) (k2 : K2) (v : V)
    (hdead : s.heap.read a = none) :
    ∃ t, insert s k1 k2 v a = some ((T.exec (.insert k1 k2 v a)).1, t) ∧
      Represents t (T.exec (.insert k1 k2 v a)).2 := by
  by_cases h : T.Taken k1 k2
  · rw [Table.exec, dif_pos h]
    exact ⟨s, insert_of_taken hR v a h, hR⟩
  · obtain ⟨heap, halloc⟩ := Heap.exists_alloc hdead (k1, k2, v)
    rw [Table.exec, dif_neg h]
    exact ⟨_, insert_of_not_taken hR h halloc hdead, represents_add hR hdead halloc h⟩

theorem exec_remove1 (hR : Represents s T) (k1 : K1) :
    ∃ t, remove1 s k1 = some (.value (T.get fun x => key1 x = k1), t) ∧
      Represents t (T.erase fun x => key1 x = k1) := by
  unfold remove1
  rcases read_or_ne key1 s.heap k1 with ⟨a, x, hread, rfl⟩ | hno
  · obtain ⟨heap, hfree⟩ := Heap.exists_free hread
    have hp := selects hR hR.unique1 hread
    rw [removeItem_eq_some hR.index1 hR.index2 hR.unique1 hR.unique2 hread hfree,
      get_eq_some ((hR.items x).mpr ⟨a, hread⟩) hp]
    exact ⟨_, rfl, represents_erase hR hread hfree hp⟩
  · have hp := selects_none hR hno
    rw [removeItem_eq_none hR.index1 hno, get_eq_none hp, erase_eq_self hp]
    exact ⟨s, rfl, hR⟩

theorem exec_remove2 (hR : Represents s T) (k2 : K2) :
    ∃ t, remove2 s k2 = some (.value (T.get fun x => key2 x = k2), t) ∧
      Represents t (T.erase fun x => key2 x = k2) := by
  unfold remove2
  rcases read_or_ne key2 s.heap k2 with ⟨a, x, hread, rfl⟩ | hno
  · obtain ⟨heap, hfree⟩ := Heap.exists_free hread
    have hp := selects hR hR.unique2 hread
    rw [removeItem_eq_some hR.index2 hR.index1 hR.unique2 hR.unique1 hread hfree,
      get_eq_some ((hR.items x).mpr ⟨a, hread⟩) hp]
    exact ⟨_, rfl, represents_erase hR hread hfree hp⟩
  · have hp := selects_none hR hno
    rw [removeItem_eq_none hR.index2 hno, get_eq_none hp, erase_eq_self hp]
    exact ⟨s, rfl, hR⟩

/-- Each operation is defined, and does and answers what it does on the table. -/
theorem exec_represents (hR : Represents s T) {op : Op K1 K2 V} (hfresh : FreshAddress s op) :
    ∃ t, exec s op = some ((T.exec op).1, t) ∧ Represents t (T.exec op).2 := by
  cases op with
  | insert k1 k2 v address => exact exec_insert hR k1 k2 v hfresh
  | get1 k1 => exact ⟨s, exec_get1 hR k1, hR⟩
  | get1Mut k1 f => exact exec_get1Mut hR k1 f
  | get2 k2 => exact ⟨s, exec_get2 hR k2, hR⟩
  | getMut2 k2 f => exact exec_getMut2 hR k2 f
  | remove1 k1 => exact exec_remove1 hR k1
  | remove2 k2 => exact exec_remove2 hR k2

theorem run_represents {ops : List (Op K1 K2 V)} (hR : Represents s T) (hfresh : Fresh s ops) :
    ∃ t, run s ops = some ((T.run ops).1, t) ∧ Represents t (T.run ops).2 := by
  induction ops generalizing s T with
  | nil => exact ⟨s, rfl, hR⟩
  | cons op ops ih =>
      obtain ⟨t, hexec, ht⟩ := exec_represents hR hfresh.1
      have hrest := hfresh.2
      rw [hexec] at hrest
      obtain ⟨u, hrun, hu⟩ := ih ht hrest
      refine ⟨u, ?_, hu⟩
      unfold run
      simp only [Option.bind_eq_bind, Option.bind_some, hexec, hrun]
      rfl

/-! ## The whole life of a map -/

/-- From the start, whatever is asked of the map and wherever its boxes are: nothing is
read through a dangling pointer, the answers are those of a table of items with two unique
keys, both maps index the boxes of exactly these items and find them under both keys, an
insert that is refused leaves the map as it is, and when the map is dropped every box has
been freed once. -/
theorem multiMap_refines (ops : List (Op K1 K2 V)) (h : Fresh State.new ops) :
    ∃ s, run State.new ops = some ((Table.empty.run ops).1, s) ∧
      Represents s (Table.empty.run ops).2 ∧
      (∀ k1 v, exec s (.get1 k1) = some (.value (some v), s) ↔
        ∃ x ∈ (Table.empty.run ops).2.items, key1 x = k1 ∧ value x = v) ∧
      (∀ k2 v, exec s (.get2 k2) = some (.value (some v), s) ↔
        ∃ x ∈ (Table.empty.run ops).2.items, key2 x = k2 ∧ value x = v) ∧
      (∀ k1 k2 v address, (Table.empty.run ops).2.Taken k1 k2 →
        exec s (.insert k1 k2 v address) = some (.refused k1 k2 v, s)) ∧
      ∀ order, order.Perm s.map2 → ∃ heap, freeAll s.heap order = some heap ∧
        ∀ i, heap.freed.count i = if i < heap.allocated then 1 else 0 := by
  obtain ⟨s, hrun, hR⟩ := run_represents represents_new h
  refine ⟨s, hrun, hR, fun k1 v => ?_, fun k2 v => ?_,
    fun k1 k2 v address htaken => insert_of_taken hR v address htaken, fun order horder => ?_⟩
  · show get1 s k1 = _ ↔ _
    rw [exec_get1 hR, ← get_eq_some_iff hR hR.unique1]
    simp only [Option.some.injEq, Prod.mk.injEq, Reply.value.injEq, and_true]
  · show get2 s k2 = _ ↔ _
    rw [exec_get2 hR, ← get_eq_some_iff hR hR.unique2]
    simp only [Option.some.injEq, Prod.mk.injEq, Reply.value.injEq, and_true]
  have hidx : Indexes s.heap order :=
    ⟨horder.nodup_iff.mpr hR.index2.nodup, fun e => horder.mem_iff.trans (hR.index2.mem_iff e)⟩
  obtain ⟨heap, hfree, hs, hnone⟩ := freeAll_spec hR.sound hidx
  exact ⟨heap, hfree, Heap.count_freed hs hnone⟩

end Operations

/-- An insert, one that is refused, and a removal behind which the address is used again. -/
def sampleOps : List (Op Nat Nat Nat) :=
  [.insert 1 10 100 0, .insert 2 10 200 1, .remove2 10, .insert 2 10 200 0, .get1 2]

theorem multiMap_refines_sampleOps :
    Fresh State.new sampleOps ∧ ∃ s,
      run State.new sampleOps = some ((Table.empty.run sampleOps).1, s) ∧
        Represents s (Table.empty.run sampleOps).2 ∧
        (∀ k1 v, exec s (.get1 k1) = some (.value (some v), s) ↔
          ∃ x ∈ (Table.empty.run sampleOps).2.items, key1 x = k1 ∧ value x = v) ∧
        (∀ k2 v, exec s (.get2 k2) = some (.value (some v), s) ↔
          ∃ x ∈ (Table.empty.run sampleOps).2.items, key2 x = k2 ∧ value x = v) ∧
        (∀ k1 k2 v address, (Table.empty.run sampleOps).2.Taken k1 k2 →
          exec s (.insert k1 k2 v address) = some (.refused k1 k2 v, s)) ∧
        ∀ order, order.Perm s.map2 → ∃ heap, freeAll s.heap order = some heap ∧
          ∀ i, heap.freed.count i = if i < heap.allocated then 1 else 0 := by
  have hfresh : Fresh State.new sampleOps := ⟨rfl, rfl, trivial, rfl, trivial, trivial⟩
  exact ⟨hfresh, multiMap_refines sampleOps hfresh⟩

end Kdct.MultiMap
