-- Datum objects as places of a forest: what each of them holds, whose memory it uses and how
-- the tables of deformed rows hang together. Deforming a row keeps all of it.
import Pllua.Datums

open pllua.catalog pllua.records

namespace pllua.datums

section
variable {α : Type}

/-- Where the datum objects stand, those that the program can still reach. -/
abbrev Places := Id → Option Place

def Heap.slot (h : Heap α) (x : Id) (i : Nat) : Option Slot := (h.datum x).deformed.bind (·[i]?)

variable (types : Types)

def Heap.type (h : Heap α) (x : Id) : Typeinfo := types.typeinfo (h.datum x).typeinfo

/-- The entry of a column in the table of the row at the place. -/
def SlotOk (h : Heap α) (s : Forest α) (loc : Places) (P : Place) (i : Nat) (att : Attribute) :
    Slot → Prop
  | .datum c => att.attisdropped = false ∧ loc c = some (P.child i) ∧
      (h.datum c).typeinfo = att.atttypid
  | .null => att.attisdropped = false ∧ s.at (P.child i) = none
  | .dropped => att.attisdropped = true
  | .absent => att.attisdropped = false ∧ s.at (P.child i) = none

/-- What holds of the heap at any time, also while a row is exploded. -/
structure Inv (h : Heap α) (s : Forest α) (loc : Places) : Prop where
  calm : h.fault = false
  unused : ∀ c, h.next_chunk ≤ c → h.freed c = false
  alive : ∀ x P, loc x = some P →
    x < h.next ∧ (h.datum x).finalised = false ∧ (h.datum x).metatable = true
  planted : ∀ x P, loc x = some P → P.root < s.next
  inj : ∀ x y P, loc x = some P → loc y = some P → x = y
  flat : ∀ x P ptr, loc x = some P → (h.datum x).value = some ptr →
    s.at P = some ptr.content ∧ Wellformed types (h.datum x).typeinfo ptr.content ∧
      (h.datum x).modified = false
  row : ∀ x P, loc x = some P → (h.datum x).value = none →
    (h.datum x).modified = true ∧ (h.datum x).need_gc = false ∧ (h.datum x).deformed.isSome = true ∧
      ∃ attrs cols, h.type types x = .row attrs ∧ s.at P = some (.row cols) ∧
        cols.length = attrs.length ∧
        ∀ (i : Nat) (att : Attribute) (v : Value α), attrs[i]? = some att →
          cols[i]? = some (some v) → att.attisdropped = false
  slots : ∀ x P slots, loc x = some P → (h.datum x).deformed = some slots →
    ∃ attrs, h.type types x = .row attrs ∧ slots.length = attrs.length ∧
      ∀ i att slot, attrs[i]? = some att → slots[i]? = some slot → SlotOk h s loc P i att slot
  /-- what stands below a row is found through its table -/
  lined : ∀ b y P Q i, loc b = some P → loc y = some Q → (P.child i).Above Q →
    ∃ c, h.slot b i = some (.datum c)
  refs : ∀ x P y, loc x = some P → (h.datum x).datumref = some y →
    y < x ∧ (h.datum y).modified = false ∧ ∃ Q i, loc y = some Q ∧ h.slot y i = some (.datum x)
  /-- memory in use is the datum's own or that of the row which it references -/
  bytes : ∀ x P ptr c, loc x = some P → (h.datum x).value = some ptr → ptr.chunk = some c →
    c < h.next_chunk ∧ h.freed c = false ∧ ((h.datum x).need_gc = true ∨
      ∃ y ptr', (h.datum x).datumref = some y ∧ (h.datum y).value = some ptr' ∧
        ptr'.chunk = some c)
  /-- also where the collector has found the datum and its finalizer has not run yet -/
  owned : ∀ x, (h.datum x).need_gc = true → x < h.next ∧ ∃ ptr c, (h.datum x).value = some ptr ∧
    ptr.chunk = some c ∧ c < h.next_chunk ∧ h.freed c = false
  owners : ∀ x y ptr ptr', (h.datum x).need_gc = true → (h.datum y).need_gc = true →
    (h.datum x).value = some ptr → (h.datum y).value = some ptr' → ptr.chunk = ptr'.chunk → x = y
  byval : ∀ x P ptr, loc x = some P → (h.datum x).value = some ptr →
    (h.type types x).typbyval = true → ptr.chunk = none

/-- How a column came by what it holds: with the tuple, by an assignment, which does not apply
the typmod of the column, or by the assignment of a null. -/
inductive Mark
  | plain
  | raw
  | cleared
deriving DecidableEq, Repr

abbrev Marks := Place → Mark

/-- The entry of a column goes with its mark. -/
def MarkOk (h : Heap α) (att : Attribute) (m : Mark) : Slot → Prop
  | .datum c => m ≠ .cleared ∧ (h.datum c).typmod = if m = .raw then -1 else att.atttypmod
  | .null | .dropped => m = .plain
  | .absent => m = .cleared

/-- The columns that were assigned to are known. -/
structure Marked (h : Heap α) (s : Forest α) (loc : Places) (marks : Marks) : Prop where
  slots : ∀ x P i attrs att slot, loc x = some P → h.type types x = .row attrs →
    attrs[i]? = some att → h.slot x i = some slot → MarkOk h att (marks (P.child i)) slot
  whole : ∀ x P i Q, loc x = some P → (h.datum x).modified = false → (P.child i).Above Q →
    marks Q = .plain
  unused : ∀ Q, s.next ≤ Q.root → marks Q = .plain

variable {types} {pg : Backend α types}

/-! ## What the invariant says of one datum -/

/-- The parts of a datum that the marks are about are those of the old one. -/
def Unmarked (d d' : Datum α) : Prop :=
  d'.typeinfo = d.typeinfo ∧ d'.typmod = d.typmod ∧ d'.deformed = d.deformed ∧
    (d'.modified = false → d.modified = false)

theorem Marked.of_unmarked {h h' : Heap α} {s : Forest α} {loc : Places} {marks : Marks}
    (hm : Marked types h s loc marks) (hsame : ∀ y, Unmarked (h.datum y) (h'.datum y)) :
    Marked types h' s loc marks := by
  refine ⟨?_, ?_, hm.unused⟩
  · intro x P i attrs att slot hx ht hatt hs
    obtain ⟨htype, -, hdeformed, -⟩ := hsame x
    unfold Heap.type at ht
    unfold Heap.slot at hs
    rw [htype] at ht
    rw [hdeformed] at hs
    have hok := hm.slots x P i attrs att slot hx ht hatt hs
    cases slot with
    | null | dropped | absent => exact hok
    | datum c => exact ⟨hok.1, (hsame c).2.1.trans hok.2⟩
  · exact fun x P i Q hx hxm hab => hm.whole x P i Q hx ((hsame x).2.2.2 hxm) hab

/-- The children of a row that is not exploded depend on it. -/
def Rested (h : Heap α) (x : Id) : Prop :=
  (h.datum x).modified = false → ∀ i c, h.slot x i = some (.datum c) →
    (h.datum c).datumref = some x ∧ (h.datum c).modified = false

theorem Inv.value_of_unmodified {h : Heap α} {s : Forest α} {loc : Places} {x : Id} {P : Place}
    (hi : Inv types h s loc) (hx : loc x = some P) (hm : (h.datum x).modified = false) :
    ∃ ptr, (h.datum x).value = some ptr := by
  cases hv : (h.datum x).value with
  | none =>
    obtain ⟨hmod, -⟩ := hi.row x P hx hv
    rw [hm] at hmod
    cases hmod
  | some ptr => exact ⟨ptr, rfl⟩

theorem Inv.value_of_modified {h : Heap α} {s : Forest α} {loc : Places} {x : Id} {P : Place}
    (hi : Inv types h s loc) (hx : loc x = some P) (hm : (h.datum x).modified = true) :
    (h.datum x).value = none := by
  cases hv : (h.datum x).value with
  | none => rfl
  | some ptr =>
    obtain ⟨-, -, hmod⟩ := hi.flat x P ptr hx hv
    rw [hm] at hmod
    cases hmod

/-- The memory of a datum in use has not been freed. -/
theorem Inv.unfreed {h : Heap α} {s : Forest α} {loc : Places} {x : Id} {P : Place} {ptr : Ptr α}
    (hi : Inv types h s loc) (hx : loc x = some P) (hv : (h.datum x).value = some ptr) :
    ptr.chunk.any h.freed = false := by
  cases hc : ptr.chunk with
  | none => rfl
  | some c => exact (hi.bytes x P ptr c hx hv hc).2.1

theorem Inv.use_eq {h : Heap α} {s : Forest α} {loc : Places} {x : Id} {P : Place} {ptr : Ptr α}
    (hi : Inv types h s loc) (hx : loc x = some P) (hv : (h.datum x).value = some ptr) :
    h.use ptr = h := by
  unfold Heap.use
  rw [hi.unfreed hx hv]
  rfl

theorem Inv.content_eq {h : Heap α} {s : Forest α} {loc : Places} {x : Id} {P : Place}
    {ptr : Ptr α} (hi : Inv types h s loc) (hx : loc x = some P)
    (hv : (h.datum x).value = some ptr) : h.content x = .ok ptr.content := by
  unfold Heap.content
  rw [hv]
  simp only [hi.unfreed hx hv, Bool.false_eq_true, if_false]

/-- New memory is that of no datum. -/
theorem Inv.owned_old {h : Heap α} {s : Forest α} {loc : Places} {x : Id} {ptr : Ptr α}
    (hi : Inv types h s loc) (hneed : (h.datum x).need_gc = true)
    (hv : (h.datum x).value = some ptr) : ptr.chunk ≠ some h.next_chunk := by
  intro hc
  obtain ⟨-, p, c, hp, hpc, hlt, -⟩ := hi.owned x hneed
  rw [hv] at hp
  cases hp
  rw [hc] at hpc
  cases hpc
  exact Nat.lt_irrefl _ hlt

/-- The entry of a column that holds a datum. -/
theorem Inv.slot_datum {h : Heap α} {s : Forest α} {loc : Places} {x c : Id} {P : Place} {i : Nat}
    (hi : Inv types h s loc) (hx : loc x = some P) (hs : h.slot x i = some (.datum c)) :
    ∃ attrs att, h.type types x = .row attrs ∧ attrs[i]? = some att ∧ att.attisdropped = false ∧
      loc c = some (P.child i) ∧ (h.datum c).typeinfo = att.atttypid := by
  unfold Heap.slot at hs
  cases hd : (h.datum x).deformed with
  | none =>
    rw [hd] at hs
    cases hs
  | some slots =>
    rw [hd] at hs
    obtain ⟨attrs, htype, hlen, hok⟩ := hi.slots x P slots hx hd
    have hlt : i < attrs.length := by
      rw [← hlen]
      exact (List.getElem?_eq_some_iff.mp hs).1
    have hatt : attrs[i]? = some attrs[i] := List.getElem?_eq_getElem hlt
    exact ⟨attrs, attrs[i], htype, hatt, hok i attrs[i] _ hatt hs⟩

/-- Only a row type has a table. -/
theorem Inv.row_of_deformed {h : Heap α} {s : Forest α} {loc : Places} {x : Id} {P : Place}
    (hi : Inv types h s loc) (hx : loc x = some P) (hd : (h.datum x).deformed ≠ none) :
    ∃ attrs, h.type types x = .row attrs := by
  obtain ⟨slots, hslots⟩ := Option.ne_none_iff_exists'.mp hd
  obtain ⟨attrs, htype, -⟩ := hi.slots x P slots hx hslots
  exact ⟨attrs, htype⟩

/-! ## Deforming -/

/-- The type of a datum and the typmod that its value has. -/
def Datum.typed (d : Datum α) : Oid × Int := (d.typeinfo, d.typmod)

theorem typeinfo_of_typed {d d' : Datum α} (h : d.typed = d'.typed) : d.typeinfo = d'.typeinfo :=
  congrArg Prod.fst h

/-- Places are given to new datums only. -/
structure Numbered (h h' : Heap α) (loc loc' : Places) : Prop where
  next : h.next ≤ h'.next
  old : ∀ y, y < h.next → loc' y = loc y

theorem Numbered.refl (h : Heap α) (loc : Places) : Numbered h h loc loc :=
  ⟨Nat.le_refl _, fun _ _ => rfl⟩

theorem Numbered.trans {h h' h'' : Heap α} {loc loc' loc'' : Places}
    (hn : Numbered h h' loc loc') (hn' : Numbered h' h'' loc' loc'') :
    Numbered h h'' loc loc'' where
  next := Nat.le_trans hn.next hn'.next
  old := fun y hy => (hn'.old y (Nat.lt_of_lt_of_le hy hn.next)).trans (hn.old y hy)

/-- Where the children of a deformed row stand. -/
def child_places (h : Heap α) (loc : Places) (P : Place) (v : Value α) : Places := fun y =>
  if y < h.next then loc y
  else if (v.col (y - h.next)).isSome then some (P.child (y - h.next)) else none

theorem child_places_old {h : Heap α} {loc : Places} {P : Place} {v : Value α} {y : Id}
    (hy : y < h.next) : child_places h loc P v y = loc y := if_pos hy

theorem child_places_cases {h : Heap α} {loc : Places} {P Q : Place} {v : Value α} {y : Id}
    (hy : child_places h loc P v y = some Q) :
    (y < h.next ∧ loc y = some Q) ∨
      ∃ i u, y = h.next + i ∧ Q = P.child i ∧ v.col i = some u := by
  unfold child_places at hy
  split at hy
  · rename_i hlt
    exact Or.inl ⟨hlt, hy⟩
  · rename_i hge
    split at hy
    · rename_i hsome
      obtain ⟨u, hu⟩ := Option.isSome_iff_exists.mp hsome
      cases hy
      exact Or.inr ⟨y - h.next, u, (Nat.add_sub_cancel' (Nat.le_of_not_lt hge)).symm, rfl, hu⟩
    · cases hy

theorem deform_eq {h : Heap α} {x : Id} {ptr : Ptr α} {attrs : List Attribute}
    (hd : (h.datum x).deformed = none) (hv : (h.datum x).value = some ptr)
    (ht : h.type types x = .row attrs) (huse : h.use ptr = h) :
    pllua_datum_deform_tuple types pg x h = deform_columns types pg x ptr attrs h := by
  unfold Heap.type at ht
  unfold pllua_datum_deform_tuple
  simp only [hd, hv, ht, huse]

/-- A row that is deformed stays as it is. -/
theorem deform_id {h : Heap α} {x : Id} (hd : (h.datum x).deformed ≠ none) :
    pllua_datum_deform_tuple types pg x h = h := by
  unfold pllua_datum_deform_tuple
  split
  · rename_i hnone _ _
    exact absurd hnone hd
  · rfl

/-- The columns of a wellformed row that hold a value. -/
theorem Wellformed.column {oid : Oid} {attrs : List Attribute} {v u : Value α} {i : Nat}
    (hw : Wellformed types oid v) (ht : types.typeinfo oid = .row attrs) (hu : v.col i = some u) :
    ∃ att, attrs[i]? = some att ∧ att.attisdropped = false ∧ Wellformed types att.atttypid u := by
  cases hw with
  | flat hflat => cases hu
  | row ht' hlen hdropped hcols =>
    rename_i attrs' cols
    rw [ht] at ht'
    cases ht'
    simp only [Value.col, Option.join_eq_some_iff] at hu
    have hlt : i < attrs.length := by
      rw [← hlen]
      exact (List.getElem?_eq_some_iff.mp hu).1
    have hatt : attrs[i]? = some attrs[i] := List.getElem?_eq_getElem hlt
    exact ⟨attrs[i], hatt, hdropped i _ u hatt hu, hcols i _ u hatt hu⟩

/-- A row in use that has not been deformed. -/
structure Undeformed (types : Types) (h : Heap α) (s : Forest α) (loc : Places) (x : Id)
    (P : Place) (ptr : Ptr α) (attrs : List Attribute) : Prop where
  inv : Inv types h s loc
  place : loc x = some P
  deformed : (h.datum x).deformed = none
  value : (h.datum x).value = some ptr
  type : h.type types x = .row attrs

section
variable {h : Heap α} {s : Forest α} {loc : Places} {x : Id} {P : Place} {ptr : Ptr α}
  {attrs : List Attribute}

theorem Undeformed.lt (hu : Undeformed types h s loc x P ptr attrs) : x < h.next :=
  (hu.inv.alive x P hu.place).1

variable (pg)

theorem columns_self : (deform_columns types pg x ptr attrs h).datum x =
    { h.datum x with deformed := some (attrs.mapIdx (child_slot h.next ptr.content)) } :=
  if_pos rfl

theorem columns_old {y : Id} (hy : y < h.next) (hne : y ≠ x) :
    (deform_columns types pg x ptr attrs h).datum y = h.datum y := by
  unfold deform_columns
  simp only [if_neg hne, if_pos hy]

theorem columns_new (hu : Undeformed types h s loc x P ptr attrs) {i : Nat} {att : Attribute}
    {v : Value α} (hatt : attrs[i]? = some att) (hv : ptr.content.col i = some v) :
    (deform_columns types pg x ptr attrs h).datum (h.next + i) =
      child_datum types pg x ptr h.next_chunk i att v := by
  have hne : h.next + i ≠ x := Nat.ne_of_gt (Nat.lt_of_lt_of_le hu.lt (Nat.le_add_right _ _))
  have hge : ¬ h.next + i < h.next := Nat.not_lt_of_le (Nat.le_add_right _ _)
  unfold deform_columns
  simp only [if_neg hne, if_neg hge, Nat.add_sub_cancel_left, hatt, hv]

variable {pg} in
/-- Nothing stands below a row that has not been deformed. -/
theorem Undeformed.bare (hu : Undeformed types h s loc x P ptr attrs) {y : Id} {Q : Place}
    {i : Nat} (hy : loc y = some Q) : ¬ (P.child i).Above Q := by
  intro hab
  obtain ⟨c, hc⟩ := hu.inv.lined x y P Q i hu.place hy hab
  unfold Heap.slot at hc
  rw [hu.deformed] at hc
  cases hc

/-- A datum of the new heap is an old one or a child. -/
theorem Undeformed.cases (hu : Undeformed types h s loc x P ptr attrs) {y : Id} {Q : Place}
    (hy : child_places h loc P ptr.content y = some Q) :
    (y < h.next ∧ loc y = some Q) ∨ ∃ i att u, y = h.next + i ∧ Q = P.child i ∧
      attrs[i]? = some att ∧ att.attisdropped = false ∧ ptr.content.col i = some u ∧
      Wellformed types att.atttypid u ∧
      (deform_columns types pg x ptr attrs h).datum y =
        child_datum types pg x ptr h.next_chunk i att u := by
  rcases child_places_cases hy with hold | ⟨i, u, rfl, hQ, hcol⟩
  · exact Or.inl hold
  · obtain ⟨-, hw, -⟩ := hu.inv.flat x P ptr hu.place hu.value
    obtain ⟨att, hatt, hdropped, hwu⟩ := hw.column hu.type hcol
    exact Or.inr ⟨i, att, u, rfl, hQ, hatt, hdropped, hcol, hwu, columns_new pg hu hatt hcol⟩

theorem Undeformed.child_lt {i : Nat} {att : Attribute} (hatt : attrs[i]? = some att) :
    i < attrs.length := (List.getElem?_eq_some_iff.mp hatt).1

theorem Undeformed.slot_self (i : Nat) :
    (deform_columns types pg x ptr attrs h).slot x i =
      attrs[i]?.map fun att => child_slot h.next ptr.content i att := by
  unfold Heap.slot
  rw [columns_self pg]
  exact List.getElem?_mapIdx

theorem Undeformed.slot_old {y : Id} (hy : y < h.next) (hne : y ≠ x) (i : Nat) :
    (deform_columns types pg x ptr attrs h).slot y i = h.slot y i := by
  unfold Heap.slot
  rw [columns_old pg hy hne]

variable {pg} in
/-- A row whose table is read is not the one that is deformed. -/
theorem Undeformed.ne_of_slot (hu : Undeformed types h s loc x P ptr attrs) {y : Id} {i : Nat}
    {slot : Slot} (hs : h.slot y i = some slot) : y ≠ x := by
  rintro rfl
  unfold Heap.slot at hs
  rw [hu.deformed] at hs
  cases hs

/-- The table changes at the row that is deformed only; the other parts of the old datums
stay. -/
theorem columns_keep (hu : Undeformed types h s loc x P ptr attrs) {y : Id} (hy : y < h.next) :
    ∃ deformed, (deform_columns types pg x ptr attrs h).datum y =
      { h.datum y with deformed } := by
  by_cases hne : y = x
  · subst hne
    exact ⟨_, columns_self pg⟩
  · exact ⟨_, columns_old pg hy hne⟩

/-- A datum of the new heap, in use or not. -/
theorem columns_cases (hu : Undeformed types h s loc x P ptr attrs) (y : Id) :
    (∃ deformed, (deform_columns types pg x ptr attrs h).datum y = { h.datum y with deformed }) ∨
      ∃ i att u, y = h.next + i ∧ attrs[i]? = some att ∧
        (deform_columns types pg x ptr attrs h).datum y =
          child_datum types pg x ptr h.next_chunk i att u := by
  by_cases hlt : y < h.next
  · exact Or.inl (columns_keep pg hu hlt)
  · have hne : y ≠ x := fun heq => hlt (heq ▸ hu.lt)
    have heq : h.next + (y - h.next) = y := Nat.add_sub_cancel' (Nat.le_of_not_lt hlt)
    cases hatt : attrs[y - h.next]? with
    | none =>
      left
      unfold deform_columns
      simp only [if_neg hne, if_neg hlt, hatt]
      exact ⟨_, rfl⟩
    | some att =>
      cases hcol : ptr.content.col (y - h.next) with
      | none =>
        left
        unfold deform_columns
        simp only [if_neg hne, if_neg hlt, hatt, hcol]
        exact ⟨_, rfl⟩
      | some u =>
        have hnew := columns_new pg hu hatt hcol
        rw [heq] at hnew
        exact Or.inr ⟨_, att, u, heq.symm, hatt, hnew⟩

/-- The table of the new heap. -/
theorem Undeformed.slots (hu : Undeformed types h s loc x P ptr attrs) {y : Id} {Q : Place}
    {slots : List Slot} (hy : child_places h loc P ptr.content y = some Q)
    (hs : ((deform_columns types pg x ptr attrs h).datum y).deformed = some slots) :
    ∃ attrs', (deform_columns types pg x ptr attrs h).type types y = .row attrs' ∧
      slots.length = attrs'.length ∧ ∀ i att slot, attrs'[i]? = some att →
        slots[i]? = some slot →
        SlotOk (deform_columns types pg x ptr attrs h) s
          (child_places h loc P ptr.content) Q i att slot := by
  rcases hu.cases pg hy with ⟨hlt, hold⟩ | ⟨i, att, u, -, -, -, -, -, -, hdatum⟩
  · obtain ⟨deformed, hkeep⟩ := columns_keep pg hu hlt
    unfold Heap.type
    by_cases hne : y = x
    · subst hne
      rw [hu.place] at hold
      cases hold
      rw [columns_self pg] at hs ⊢
      cases hs
      refine ⟨attrs, hu.type, by simp, ?_⟩
      intro i att slot hatt hslot
      rw [List.getElem?_mapIdx, hatt] at hslot
      cases hslot
      obtain ⟨hat, -, -⟩ := hu.inv.flat y P ptr hu.place hu.value
      unfold child_slot
      split
      · rename_i hdropped
        exact hdropped
      · rename_i hlive
        have hlive' : att.attisdropped = false := by simpa using hlive
        cases hcol : ptr.content.col i with
        | none =>
          refine ⟨hlive', ?_⟩
          rw [at_child, hat]
          exact hcol
        | some u =>
          refine ⟨hlive', ?_, ?_⟩
          · unfold child_places
            rw [if_neg (Nat.not_lt_of_le (Nat.le_add_right _ _)), Nat.add_sub_cancel_left, hcol]
            rfl
          · rw [columns_new pg hu hatt hcol]
            rfl
    · rw [columns_old pg hlt hne] at hs ⊢
      obtain ⟨attrs', htype, hlen, hok⟩ := hu.inv.slots y Q slots hold hs
      refine ⟨attrs', htype, hlen, ?_⟩
      intro i att slot hatt hslot
      have hslotok := hok i att slot hatt hslot
      cases slot with
      | null => exact hslotok
      | dropped => exact hslotok
      | absent => exact hslotok
      | datum c =>
        obtain ⟨h1, h2, h3⟩ := hslotok
        have hc := (hu.inv.alive c _ h2).1
        refine ⟨h1, (child_places_old hc).trans h2, ?_⟩
        obtain ⟨_, hc'⟩ := columns_keep pg hu hc
        rw [hc']
        exact h3
  · rw [hdatum] at hs
    cases hs

theorem Undeformed.lined (hu : Undeformed types h s loc x P ptr attrs) {b y : Id} {Q R : Place}
    {i : Nat} (hb : child_places h loc P ptr.content b = some Q)
    (hy : child_places h loc P ptr.content y = some R) (hab : (Q.child i).Above R) :
    ∃ c, (deform_columns types pg x ptr attrs h).slot b i = some (.datum c) := by
  rcases hu.cases pg hb with ⟨hblt, hbold⟩ | ⟨k, _, _, -, rfl, -⟩
  · rcases hu.cases pg hy with ⟨hylt, hyold⟩ | ⟨k, att, u, rfl, rfl, hatt, hdropped, hcol, -⟩
    · obtain ⟨c, hc⟩ := hu.inv.lined b y Q R i hbold hyold hab
      exact ⟨c, (Undeformed.slot_old pg hblt (hu.ne_of_slot hc) i).trans hc⟩
    · by_cases hne : b = x
      · subst hne
        rw [hu.place] at hbold
        cases hbold
        rcases Place.above_of_child hab with heq | habove
        · obtain ⟨-, rfl⟩ := Place.child_inj heq
          refine ⟨h.next + i, ?_⟩
          rw [Undeformed.slot_self pg, hatt]
          simp [child_slot, hdropped, hcol]
        · exact absurd habove (Place.not_child_above _ i)
      · have habove : (Q.child i).Above P := by
          rcases Place.above_of_child hab with heq | habove
          · obtain ⟨rfl, -⟩ := Place.child_inj heq
            exact absurd (hu.inv.inj b x Q hbold hu.place) hne
          · exact habove
        obtain ⟨c, hc⟩ := hu.inv.lined b x Q P i hbold hu.place habove
        exact ⟨c, (Undeformed.slot_old pg hblt hne i).trans hc⟩
  · -- nothing stands below a child that has just been made
    exfalso
    have hk := (P.child k).above_child i
    rcases hu.cases pg hy with ⟨-, hyold⟩ | ⟨m, _, _, -, rfl, -⟩
    · exact hu.bare hyold (hk.trans hab)
    · rcases Place.above_of_child hab with heq | habove
      · obtain ⟨heq, -⟩ := Place.child_inj heq
        have := P.not_child_above k
        rw [heq] at this
        exact this P.above_refl
      · exact P.not_child_above k (hk.trans habove)

theorem Undeformed.bytes (hu : Undeformed types h s loc x P ptr attrs) {y : Id} {Q : Place}
    {ptr' : Ptr α} {c : Chunk} (hy : child_places h loc P ptr.content y = some Q)
    (hv : ((deform_columns types pg x ptr attrs h).datum y).value = some ptr')
    (hc : ptr'.chunk = some c) :
    c < h.next_chunk + attrs.length ∧ h.freed c = false ∧
      (((deform_columns types pg x ptr attrs h).datum y).need_gc = true ∨ ∃ z ptr'',
        ((deform_columns types pg x ptr attrs h).datum y).datumref = some z ∧
        ((deform_columns types pg x ptr attrs h).datum z).value = some ptr'' ∧
        ptr''.chunk = some c) := by
  rcases hu.cases pg hy with ⟨hlt, hold⟩ | ⟨i, att, u, rfl, -, hatt, -, -, -, hdatum⟩
  · obtain ⟨_, hkeep⟩ := columns_keep pg hu hlt
    rw [hkeep] at hv ⊢
    obtain ⟨h1, h2, h3⟩ := hu.inv.bytes y Q ptr' c hold hv hc
    refine ⟨Nat.lt_of_lt_of_le h1 (Nat.le_add_right _ _), h2, ?_⟩
    rcases h3 with hown | ⟨z, ptr'', hz, hzv, hzc⟩
    · exact Or.inl hown
    · obtain ⟨hzlt, -⟩ := hu.inv.refs y Q z hold hz
      obtain ⟨_, hz'⟩ := columns_keep pg hu (Nat.lt_trans hzlt hlt)
      refine Or.inr ⟨z, ptr'', hz, ?_, hzc⟩
      rw [hz']
      exact hzv
  · rw [hdatum] at hv ⊢
    cases hv
    simp only [child_datum] at hc ⊢
    split at hc
    · cases hc
    · split at hc
      · rename_i hsave
        cases hc
        refine ⟨Nat.add_lt_add_left (Undeformed.child_lt hatt) _, ?_, Or.inl hsave⟩
        exact hu.inv.unused _ (Nat.le_add_right _ _)
      · obtain ⟨h1, h2, -⟩ := hu.inv.bytes x P ptr c hu.place hu.value hc
        refine ⟨Nat.lt_of_lt_of_le h1 (Nat.le_add_right _ _), h2, Or.inr ⟨x, ptr, rfl, ?_, hc⟩⟩
        rw [columns_self pg]
        exact hu.value

theorem child_chunk {i : Nat} {att : Attribute} {u : Value α}
    (hneed : (child_datum types pg x ptr h.next_chunk i att u).need_gc = true) :
    ∃ ptr', (child_datum types pg x ptr h.next_chunk i att u).value = some ptr' ∧
      ptr'.chunk = some (h.next_chunk + i) := by
  simp only [child_datum, Bool.and_eq_true] at hneed
  have hbyval : (types.typeinfo att.atttypid).typbyval = false := by
    have hdetoasted := hneed.1
    cases ht : types.typeinfo att.atttypid with
    | scalar typbyval tolua =>
      rw [ht] at hdetoasted
      cases hdetoasted
    | range => rfl
    | array elemtype => rfl
    | row attrs => rfl
  refine ⟨_, rfl, ?_⟩
  simp [hbyval, hneed.1, hneed.2]

/-- Deforming a row keeps the invariant, and its children get their places. -/
theorem Undeformed.deform (hu : Undeformed types h s loc x P ptr attrs) :
    Inv types (deform_columns types pg x ptr attrs h) s (child_places h loc P ptr.content) := by
  have hi := hu.inv
  obtain ⟨hat, hw, -⟩ := hi.flat x P ptr hu.place hu.value
  constructor
  case calm => exact hi.calm
  case unused => exact fun c hc => hi.unused c (Nat.le_of_add_right_le hc)
  case alive =>
    intro y Q hy
    rcases hu.cases pg hy with ⟨hlt, hold⟩ | ⟨i, att, u, rfl, -, hatt, -, -, -, hdatum⟩
    · obtain ⟨_, hkeep⟩ := columns_keep pg hu hlt
      rw [hkeep]
      obtain ⟨-, h2⟩ := hi.alive y Q hold
      exact ⟨Nat.lt_of_lt_of_le hlt (Nat.le_add_right _ _), h2⟩
    · rw [hdatum]
      exact ⟨Nat.add_lt_add_left (Undeformed.child_lt hatt) _, rfl, rfl⟩
  case planted =>
    intro y Q hy
    rcases child_places_cases hy with ⟨-, hold⟩ | ⟨i, u, -, rfl, -⟩
    · exact hi.planted y Q hold
    · exact hi.planted x P hu.place
  case inj =>
    intro y z Q hy hz
    rcases child_places_cases hy with ⟨-, hyold⟩ | ⟨i, u, rfl, rfl, -⟩
    · rcases child_places_cases hz with ⟨-, hzold⟩ | ⟨k, u, rfl, rfl, -⟩
      · exact hi.inj y z Q hyold hzold
      · exact absurd (Place.above_refl _) (hu.bare hyold)
    · rcases child_places_cases hz with ⟨-, hzold⟩ | ⟨k, u, rfl, hk, -⟩
      · exact absurd (Place.above_refl _) (hu.bare hzold)
      · obtain ⟨-, rfl⟩ := Place.child_inj hk
        rfl
  case flat =>
    intro y Q ptr' hy hv
    rcases hu.cases pg hy with ⟨hlt, hold⟩ | ⟨i, att, u, -, rfl, -, -, hcol, hwu, hdatum⟩
    · obtain ⟨_, hkeep⟩ := columns_keep pg hu hlt
      rw [hkeep] at hv ⊢
      exact hi.flat y Q ptr' hold hv
    · rw [hdatum] at hv ⊢
      cases hv
      refine ⟨?_, hwu, rfl⟩
      rw [at_child, hat]
      exact hcol
  case row =>
    intro y Q hy hv
    rcases hu.cases pg hy with ⟨hlt, hold⟩ | ⟨i, att, u, -, -, -, -, -, -, hdatum⟩
    · have hne : y ≠ x := by
        rintro rfl
        rw [columns_self pg, hu.value] at hv
        cases hv
      unfold Heap.type
      rw [columns_old pg hlt hne] at hv ⊢
      exact hi.row y Q hold hv
    · rw [hdatum] at hv
      cases hv
  case slots => exact fun y Q slots hy hs => hu.slots pg hy hs
  case lined => exact fun b y Q R i hb hy hab => hu.lined pg hb hy hab
  case refs =>
    intro y Q z hy hz
    rcases hu.cases pg hy with ⟨hlt, hold⟩ | ⟨i, att, u, rfl, rfl, hatt, hdropped, hcol, -, hdatum⟩
    · obtain ⟨_, hkeep⟩ := columns_keep pg hu hlt
      rw [hkeep] at hz
      obtain ⟨h1, h2, R, i, h3, h4⟩ := hi.refs y Q z hold hz
      have hzlt := Nat.lt_trans h1 hlt
      have hne := hu.ne_of_slot h4
      refine ⟨h1, ?_, R, i, (child_places_old hzlt).trans h3, ?_⟩
      · rw [columns_old pg hzlt hne]
        exact h2
      · exact (Undeformed.slot_old pg hzlt hne i).trans h4
    · rw [hdatum] at hz
      cases hz
      obtain ⟨-, -, hm⟩ := hi.flat x P ptr hu.place hu.value
      refine ⟨Nat.lt_of_lt_of_le hu.lt (Nat.le_add_right _ _), ?_, P, i,
        (child_places_old hu.lt).trans hu.place, ?_⟩
      · rw [columns_self pg]
        exact hm
      · rw [Undeformed.slot_self pg, hatt]
        simp [child_slot, hdropped, hcol]
  case bytes => exact fun y Q ptr' c hy hv hc => hu.bytes pg hy hv hc
  case owned =>
    intro y hneed
    rcases columns_cases pg hu y with ⟨_, hkeep⟩ | ⟨i, att, u, rfl, hatt, hdatum⟩
    · rw [hkeep] at hneed ⊢
      obtain ⟨hlt, p, c, hv, hc, hnext, hfree⟩ := hi.owned y hneed
      exact ⟨Nat.lt_of_lt_of_le hlt (Nat.le_add_right _ _), p, c, hv, hc,
        Nat.lt_of_lt_of_le hnext (Nat.le_add_right _ _), hfree⟩
    · rw [hdatum] at hneed ⊢
      obtain ⟨p, hv, hc⟩ := child_chunk pg hneed
      have hlt := Undeformed.child_lt hatt
      exact ⟨Nat.add_lt_add_left hlt _, p, _, hv, hc, Nat.add_lt_add_left hlt _,
        hi.unused _ (Nat.le_add_right _ _)⟩
  case owners =>
    intro y z ptr₁ ptr₂ hny hnz hvy hvz hc
    -- the chunk of a child is a new one
    have hfresh : ∀ {w k : Nat} {p : Ptr α}, (h.datum w).need_gc = true →
        (h.datum w).value = some p → p.chunk ≠ some (h.next_chunk + k) := by
      intro w k p hneed hv heq
      obtain ⟨-, q, c, hq, hqc, hlt, -⟩ := hi.owned w hneed
      rw [hv] at hq
      cases hq
      rw [heq] at hqc
      cases hqc
      exact absurd hlt (Nat.not_lt_of_le (Nat.le_add_right _ _))
    rcases columns_cases pg hu y with ⟨_, hyk⟩ | ⟨i, att, u, rfl, -, hyd⟩
    · rw [hyk] at hny hvy
      rcases columns_cases pg hu z with ⟨_, hzk⟩ | ⟨k, att, u, rfl, -, hzd⟩
      · rw [hzk] at hnz hvz
        exact hi.owners y z ptr₁ ptr₂ hny hnz hvy hvz hc
      · rw [hzd] at hnz hvz
        obtain ⟨p, hp, hpk⟩ := child_chunk pg hnz
        rw [hvz] at hp
        cases hp
        exact absurd (hc.trans hpk) (hfresh hny hvy)
    · rw [hyd] at hny hvy
      obtain ⟨p, hp, hpi⟩ := child_chunk pg hny
      rw [hvy] at hp
      cases hp
      rcases columns_cases pg hu z with ⟨_, hzk⟩ | ⟨k, att, u, rfl, -, hzd⟩
      · rw [hzk] at hnz hvz
        exact absurd (hc.symm.trans hpi) (hfresh hnz hvz)
      · rw [hzd] at hnz hvz
        obtain ⟨p, hp, hpk⟩ := child_chunk pg hnz
        rw [hvz] at hp
        cases hp
        rw [hpi, hpk, Option.some.injEq] at hc
        rw [Nat.add_left_cancel hc]
  case byval =>
    intro y Q ptr' hy hv hbyval
    rcases hu.cases pg hy with ⟨hlt, hold⟩ | ⟨i, att, u, -, -, -, -, -, -, hdatum⟩
    · obtain ⟨_, hkeep⟩ := columns_keep pg hu hlt
      unfold Heap.type at hbyval
      rw [hkeep] at hv hbyval
      exact hi.byval y Q ptr' hold hv hbyval
    · unfold Heap.type at hbyval
      rw [hdatum] at hv hbyval
      cases hv
      have ht : (types.typeinfo att.atttypid).typbyval = true := hbyval
      simp [ht]

/-- The new columns were part of the tuple. -/
theorem Undeformed.marked (hu : Undeformed types h s loc x P ptr attrs) {marks : Marks}
    (hm : Marked types h s loc marks) :
    Marked types (deform_columns types pg x ptr attrs h) s (child_places h loc P ptr.content)
      marks := by
  have hi := hu.inv
  obtain ⟨-, -, hxm⟩ := hi.flat x P ptr hu.place hu.value
  have hplain := fun i Q hab => hm.whole x P i Q hu.place hxm hab
  refine ⟨?_, ?_, hm.unused⟩
  · intro y Q i attrs' att slot hy ht hatt hs
    rcases hu.cases pg hy with ⟨hlt, hold⟩ | ⟨k, _, _, -, -, -, -, -, -, hdatum⟩
    · by_cases hne : y = x
      · subst hne
        rw [hu.place] at hold
        cases hold
        rw [Undeformed.slot_self pg] at hs
        obtain ⟨att', hatt', rfl⟩ := Option.map_eq_some_iff.mp hs
        unfold Heap.type at ht
        rw [columns_self pg] at ht
        have ht' := hu.type
        unfold Heap.type at ht'
        rw [ht'] at ht
        cases ht
        rw [hatt] at hatt'
        cases hatt'
        have hmark := hplain i _ (Place.above_refl _)
        unfold child_slot
        split
        · exact hmark
        · split
          · exact hmark
          · rename_i u hcol
            refine ⟨by rw [hmark]; nofun, ?_⟩
            rw [columns_new pg hu hatt hcol, hmark]
            rfl
      · rw [Undeformed.slot_old pg hlt hne] at hs
        unfold Heap.type at ht
        rw [columns_old pg hlt hne] at ht
        have hok := hm.slots y Q i attrs' att slot hold ht hatt hs
        cases slot with
        | null | dropped | absent => exact hok
        | datum c =>
          obtain ⟨-, -, -, -, -, hcloc, -⟩ := hi.slot_datum hold hs
          obtain ⟨_, hkeep⟩ := columns_keep pg hu (hi.alive c _ hcloc).1
          refine ⟨hok.1, ?_⟩
          rw [hkeep]
          exact hok.2
    · unfold Heap.slot at hs
      rw [hdatum] at hs
      cases hs
  · intro y Q i R hy hym hab
    rcases hu.cases pg hy with ⟨hlt, hold⟩ | ⟨k, _, _, -, rfl, -, -, -, -, hdatum⟩
    · obtain ⟨_, hkeep⟩ := columns_keep pg hu hlt
      rw [hkeep] at hym
      exact hm.whole y Q i R hold hym hab
    · exact hplain k R (((P.child k).above_child i).trans hab)

/-- What deforming a row does. -/
structure Deformed (types : Types) (h h' : Heap α) (s : Forest α) (loc loc' : Places) (x : Id)
    (P : Place) : Prop where
  inv : Inv types h' s loc'
  grown : ∀ y Q, loc y = some Q → loc' y = some Q
  inside : ∀ y Q, loc' y = some Q → loc y = some Q ∨
    (∃ i, Q = P.child i) ∧ (h'.datum y).deformed = none
  frame : ∀ y Q, loc y = some Q → y ≠ x → h'.datum y = h.datum y
  table : ∃ deformed, h'.datum x = { h.datum x with deformed := some deformed }
  rested : Rested h x → Rested h' x
  marked : ∀ marks, Marked types h s loc marks → Marked types h' s loc' marks
  numbered : Numbered h h' loc loc'

theorem deform_row {h : Heap α} {s : Forest α} {loc : Places} {x : Id} {P : Place}
    {attrs : List Attribute} (hi : Inv types h s loc) (hx : loc x = some P)
    (ht : h.type types x = .row attrs) :
    ∃ loc', Deformed types h (pllua_datum_deform_tuple types pg x h) s loc loc' x P := by
  cases hd : (h.datum x).deformed with
  | some slots =>
    refine ⟨loc, ?_⟩
    rw [deform_id (by rw [hd]; exact Option.some_ne_none _)]
    refine ⟨hi, fun _ _ hy => hy, fun _ _ hy => Or.inl hy, fun _ _ _ _ => rfl, ⟨slots, ?_⟩, id,
      fun _ => id, .refl _ _⟩
    rw [← hd]
  | none =>
    have hm : (h.datum x).modified = false := by
      by_contra hm
      have hv := hi.value_of_modified hx (by simpa using hm)
      have hsome := (hi.row x P hx hv).2.2.1
      rw [hd] at hsome
      cases hsome
    obtain ⟨ptr, hv⟩ := hi.value_of_unmodified hx hm
    have hu : Undeformed types h s loc x P ptr attrs := ⟨hi, hx, hd, hv, ht⟩
    refine ⟨child_places h loc P ptr.content, ?_⟩
    rw [deform_eq hd hv ht (hi.use_eq hx hv)]
    refine ⟨hu.deform pg, ?_, ?_, ?_, ⟨_, columns_self pg⟩, ?_, fun _ => hu.marked pg,
      ⟨Nat.le_add_right _ _, fun y hy => child_places_old hy⟩⟩
    · exact fun y Q hy => (child_places_old (hi.alive y Q hy).1).trans hy
    · intro y Q hy
      rcases hu.cases pg hy with ⟨-, hold⟩ | ⟨i, att, u, -, hQ, -, -, -, -, hdatum⟩
      · exact Or.inl hold
      · rw [hdatum]
        exact Or.inr ⟨⟨i, hQ⟩, rfl⟩
    · exact fun y Q hy hne => columns_old pg (hi.alive y Q hy).1 hne
    · intro _ _ i c hc
      rw [Undeformed.slot_self pg] at hc
      obtain ⟨att, hatt, hslot⟩ := Option.map_eq_some_iff.mp hc
      unfold child_slot at hslot
      split at hslot
      · cases hslot
      · split at hslot
        · cases hslot
        · rename_i u hcol
          cases hslot
          rw [columns_new pg hu hatt hcol]
          exact ⟨rfl, rfl⟩

end

end

end pllua.datums
