-- Iteration over the columns of a row (datum.c). The closure of `pairs` reads the deformed table
-- that the row has when the loop begins. The row keeps that table for good, so the loop sees what
-- is written to the row while it runs.
import Pllua.DatumAliasing

open pllua.catalog pllua.records pllua.runs

namespace pllua.datums

/-! ## Iterators -/

/-- The closure `pllua_datum_row_next`: its datum, as a reference that the closure has of its own,
and its index. Its table is the one of the datum. -/
structure RowNext where
  datum : Nat
  index : Nat
deriving DecidableEq, Repr

inductive RowOp (α : Type) (types : Types)
  | op (op : Op α types)
  | pairs (r : Nat)
  /-- the iterator is called -/
  | next (k : Nat)
  /-- `pllua_datum_row_map` without a function -/
  | map (r : Nat)
  | len (r : Nat)

inductive RowReply (α : Type)
  | reply (r : Reply α)
  /-- an iterator, which comes after those that the program has -/
  | iterator
  | column (attname : String) (r : Reply α) (attno : Nat)
  /-- a table by the names of columns -/
  | columns (cols : List (String × Reply α))
  | len (n : Nat)
  | done
  | error

structure RowState (α : Type) where
  st : State α
  nexts : List RowNext

section
variable {α : Type} (types : Types) (pg : Backend α types)

/-- The loops over the columns that skip the dropped ones: the first column from `i` on, of `n`
that are left. -/
def skip_dropped (slots : List Slot) : Nat → Nat → Option Nat
  | 0, _ => none
  | n + 1, i => if slots[i]? = some .dropped then skip_dropped slots n (i + 1) else some i

/-- `pllua_datum_row_pairs`, as far as the datum goes. -/
def pllua_datum_row_pairs (x : Id) (h : Heap α) : Heap α × Bool :=
  match types.typeinfo (h.datum x).typeinfo with
  | .row _ => (pllua_datum_deform_tuple types pg x h, true)
  | _ => (h, false)

/-- The datum of a reference, as `pllua_checkdatum` takes it. -/
def State.datum? (st : State α) (r : Nat) : Option Id :=
  st.refs[r]?.filter fun x => (st.heap.datum x).metatable

def attname (attrs : List Attribute) (i : Nat) : String := (attrs[i]?.map (·.attname)).getD ""

/-- `pllua_datum_row_next`. -/
def pllua_datum_row_next (s : RowState α) (k : Nat) : RowState α × RowReply α :=
  match s.nexts[k]? with
  | none => (s, .error)
  | some it =>
    match s.st.datum? it.datum with
    | none => (s, .error)
    | some x =>
      let d := s.st.heap.datum x
      match types.typeinfo d.typeinfo with
      | .row attrs =>
        let slots := d.deformed.getD []
        match skip_dropped slots (attrs.length - it.index) it.index with
        | none =>
          let index := max it.index attrs.length + 1
          ({ s with nexts := s.nexts.set k { it with index } }, .done)
        | some i =>
          match s.st.reply (pllua_datum_column types slots[i]? s.st.heap) with
          | (st, .error) => ({ s with st }, .error)
          | (st, r) =>
            (⟨st, s.nexts.set k { it with index := i + 1 }⟩, .column (attname attrs i) r (i + 1))
      | _ => (s, .error)

/-- The loop of `pllua_datum_row_map`, from the column `i` on, with none after an error. -/
def row_map_loop (attrs : List Attribute) (slots : List Slot) :
    Nat → Nat → Heap α → Heap α × Option (List (String × Result α))
  | 0, _, h => (h, some [])
  | n + 1, i, h =>
    if slots[i]? = some .dropped then row_map_loop attrs slots n (i + 1) h
    else
      match pllua_datum_column types slots[i]? h with
      | (h, .error) => (h, none)
      | (h, out) =>
        let (h, cols) := row_map_loop attrs slots n (i + 1) h
        (h, cols.map ((attname attrs i, out) :: ·))

/-- `pllua_datum_row_map`. -/
def pllua_datum_row_map (x : Id) (h : Heap α) : Heap α × Option (List (String × Result α)) :=
  match types.typeinfo (h.datum x).typeinfo with
  | .row attrs =>
    let h := pllua_datum_deform_tuple types pg x h
    row_map_loop types attrs ((h.datum x).deformed.getD []) attrs.length 0 h
  | _ => (h, none)

/-- `pllua_datum_row_len`. -/
def pllua_datum_row_len (x : Id) (h : Heap α) : Option Nat :=
  match types.typeinfo (h.datum x).typeinfo with
  | .row attrs => some (arity attrs)
  | _ => none

def row_step (s : RowState α) : RowOp α types → RowState α × RowReply α
  | .op op =>
    let (st, r) := step types pg s.st op
    ({ s with st }, .reply r)
  | .pairs r =>
    match s.st.datum? r with
    | none => (s, .error)
    | some x =>
      match pllua_datum_row_pairs types pg x s.st.heap with
      | (heap, false) => ({ s with st := { s.st with heap } }, .error)
      | (heap, true) =>
        (⟨{ s.st with heap, refs := s.st.refs ++ [x] }, s.nexts ++ [⟨s.st.refs.length, 0⟩]⟩,
          .iterator)
  | .next k => pllua_datum_row_next types s k
  | .map r =>
    match s.st.datum? r with
    | none => (s, .error)
    | some x =>
      match pllua_datum_row_map types pg x s.st.heap with
      | (heap, none) => ({ s with st := { s.st with heap } }, .error)
      | (heap, some cols) =>
        ({ s with st := { s.st with heap, refs := s.st.refs ++ cols.flatMap (·.2.refs) } },
          .columns (cols.map fun c => (c.1, c.2.reply)))
  | .len r =>
    (s, (((s.st.datum? r).bind fun x => pllua_datum_row_len types x s.st.heap).map
      RowReply.len).getD .error)

/-- The references that a step uses. An iterator uses its own one. -/
def RowOp.refs (s : RowState α) {types : Types} : RowOp α types → List Nat
  | .op _ => []
  | .pairs r | .map r | .len r => [r]
  | .next k => (s.nexts[k]?.map (·.datum)).toList

/-- What Lua's collector keeps to: as long as there is an iterator, its datum is not dead. -/
def RowCollectable (s : RowState α) (op : RowOp α types) : Prop :=
  (∀ r ∈ op.refs s, ∀ x ∈ s.st.dead, s.st.refs[r]? ≠ some x) ∧
    match op with
    | .op op => Collectable types s.st op
    | _ => True

instance (s : RowState α) : ∀ op, Decidable (RowCollectable types s op)
  | .op _ | .pairs _ | .next _ | .map _ | .len _ => inferInstanceAs (Decidable (_ ∧ _))

/-! ## Columns of a tree -/

/-- The columns from the number `i` on that are not dropped. Numbers begin with 0 here. -/
def live_columns (attrs : List Attribute) (i : Nat) : List (Attribute × Nat) :=
  ((attrs.drop i).zipIdx i).filter fun c => !c.1.attisdropped

/-- An iterator of a tree: a reference, and the columns that are still to come. -/
structure Walk where
  ref : Nat
  left : List (Attribute × Nat)

structure WalkState (α : Type) where
  tree : Tree α
  walks : List Walk

variable {types}

variable (types) in
/-- The next column is read now, whatever was written to the row before. -/
def WalkState.next (s : WalkState α) (k : Nat) : WalkState α × RowReply α :=
  match s.walks[k]? with
  | none => (s, .error)
  | some w =>
    match w.left with
    | [] => (s, .done)
    | (att, i) :: left =>
      match s.tree.through w.ref (s.tree.index types i) with
      | (_, .error) => (s, .error)
      | (tree, r) =>
        (⟨tree, s.walks.set k { w with left }⟩, .column att.attname r (i + 1))

variable (types) in
/-- Columns one after the other, or none for an error. -/
def Tree.map (ref : Ref) :
    List (Attribute × Nat) → Tree α → Option (Tree α × List (String × Reply α))
  | [], t => some (t, [])
  | (att, i) :: cols, t =>
    match t.index types i ref with
    | (_, .error) => none
    | (t, r) => (Tree.map ref cols t).map fun (t, rs) => (t, (att.attname, r) :: rs)

def WalkState.step (s : WalkState α) : RowOp α types → WalkState α × RowReply α
  | .op op =>
    let (tree, r) := s.tree.step pg op
    ({ s with tree }, .reply r)
  | .pairs r =>
    match s.tree.refs[r]? with
    | none => (s, .error)
    | some ref =>
      match types.typeinfo ref.typeoid with
      | .row attrs =>
        (⟨{ s.tree with refs := s.tree.refs ++ [ref] },
          s.walks ++ [⟨s.tree.refs.length, live_columns attrs 0⟩]⟩, .iterator)
      | _ => (s, .error)
  | .next k => s.next types k
  | .map r =>
    match s.tree.refs[r]? with
    | none => (s, .error)
    | some ref =>
      match types.typeinfo ref.typeoid with
      | .row attrs =>
        match Tree.map types ref (live_columns attrs 0) s.tree with
        | none => (s, .error)
        | some (tree, cols) => ({ s with tree }, .columns cols)
      | _ => (s, .error)
  | .len r =>
    match s.tree.refs[r]?.map fun ref => types.typeinfo ref.typeoid with
    | some (.row attrs) => (s, .len (live_columns attrs 0).length)
    | _ => (s, .error)

end

/-! ## The table of a row stays -/

/-- The row has been deformed. -/
def Tabled (x : Id) (h : Heap α) : Prop := x < h.next ∧ (h.datum x).deformed ≠ none

section
variable {α : Type} {types : Types} {pg : Backend α types} {x : Id} {h h' : Heap α}

theorem Tabled.same (ht : Tabled x h) (hdatum : h'.datum x = h.datum x) (hnext : h.next ≤ h'.next) :
    Tabled x h' :=
  ⟨Nat.lt_of_lt_of_le ht.1 hnext, by rw [hdatum]; exact ht.2⟩

theorem Tabled.set (ht : Tabled x h) {y : Id} {d : Datum α}
    (hd : (h.datum y).deformed ≠ none → d.deformed ≠ none) : Tabled x (h.set y d) := by
  refine ⟨ht.1, ?_⟩
  unfold Heap.set
  by_cases hxy : x = y
  · subst hxy
    simp only [Function.update_self]
    exact hd ht.2
  · simp only [Function.update_of_ne hxy]
    exact ht.2

theorem use_datum (h : Heap α) (ptr : Ptr α) : (h.use ptr).datum = h.datum := by
  unfold Heap.use
  split <;> rfl

theorem use_next (h : Heap α) (ptr : Ptr α) : (h.use ptr).next = h.next := by
  unfold Heap.use
  split <;> rfl

theorem Tabled.use (ht : Tabled x h) (ptr : Ptr α) : Tabled x (h.use ptr) :=
  ht.same (by rw [use_datum]) (Nat.le_of_eq (use_next h ptr).symm)

theorem Tabled.pfree (ht : Tabled x h) (ptr : Ptr α) : Tabled x (h.pfree ptr) := by
  unfold Heap.pfree
  split
  · exact ht
  · exact ht.use ptr

theorem Tabled.newdatum (ht : Tabled x h) (oid : Oid) (v : Value α) :
    Tabled x (pllua_newdatum types oid v h) := by
  refine ht.same ?_ (Nat.le_succ _)
  simp only [pllua_newdatum, Function.update_of_ne (Nat.ne_of_lt ht.1)]

theorem Tabled.savedatum (ht : Tabled x h) (y : Id) : Tabled x (pllua_savedatum types y h) := by
  unfold pllua_savedatum
  simp only
  split
  · exact ht
  · split
    · exact ht
    · refine Tabled.same (h := (h.use _).set y _) (.set (ht.use _) fun hd => ?_) rfl (Nat.le_refl _)
      rwa [use_datum] at hd

theorem Tabled.deform (ht : Tabled x h) (y : Id) :
    Tabled x (pllua_datum_deform_tuple types pg y h) := by
  unfold pllua_datum_deform_tuple
  split
  · rename_i ptr _ _ _ _
    have hu := ht.use ptr
    refine ⟨Nat.lt_of_lt_of_le hu.1 (Nat.le_add_right _ _), ?_⟩
    unfold deform_columns
    simp only
    by_cases hxy : x = y
    · simp [hxy]
    · rw [if_neg hxy, if_pos hu.1]
      exact hu.2
  · exact ht

theorem Tabled.each_datum {f : Id → Heap α → Heap α} (hf : ∀ c h, Tabled x h → Tabled x (f c h))
    (slots : List Slot) (ht : Tabled x h) : Tabled x (each_datum f slots h) := by
  induction slots generalizing h with
  | nil => exact ht
  | cons slot slots ih =>
    cases slot with
    | datum c => exact ih (hf c h ht)
    | null | dropped | absent => exact ih ht

theorem Tabled.drop_tuple (ht : Tabled x h) (y : Id) (slots : List Slot) :
    Tabled x (drop_tuple y slots h) := by
  have hx := ht.2
  unfold datums.drop_tuple
  simp only
  refine ⟨?_, ?_⟩
  · split
    · exact (ht.pfree _).1
    · exact ht.1
  · simp only
    split
    · rename_i hxy
      subst hxy
      exact hx
    · split
      · exact hx
      · exact hx

theorem Tabled.explode_inner (n : Nat) (y : Id) (ht : Tabled x h) :
    Tabled x (pllua_datum_explode_tuple_inner types pg n y h) := by
  induction n generalizing y h with
  | zero => exact ht
  | succ n ih =>
    unfold pllua_datum_explode_tuple_inner
    split
    · refine Tabled.drop_tuple (.each_datum ?_ _ (.each_datum ?_ _ ht)) _ _
      · intro c h ht
        unfold save_child
        dsimp only
        split
        · exact ht.savedatum c
        · exact ht
      · intro c h ht
        split
        · exact ih c (ht.deform c)
        · exact ht
    · exact ht

variable (pg) in
theorem Tabled.explode (ht : Tabled x h) (y : Id) :
    Tabled x (pllua_datum_explode_tuple types pg y h) := by
  unfold pllua_datum_explode_tuple
  simp only
  split
  · exact ht.deform y
  · exact Tabled.explode_inner _ _ ((ht.deform y).deform _)

theorem Tabled.row_call {β : Type} {f : Attribute → β → Heap α → Heap α × Except Failure (Value α)}
    (hf : ∀ att arg h, Tabled x h → Tabled x (f att arg h).1) (attrs : List Attribute)
    (args : List (Option β)) (ht : Tabled x h) : Tabled x (row_call f attrs args h).1 := by
  induction attrs generalizing args h with
  | nil => exact ht
  | cons att attrs ih =>
    unfold datums.row_call
    split
    · exact ih args ht
    · split
      · exact ih args.tail ht
      · rename_i arg _
        have harg := hf att arg h ht
        split
        · rename_i h' e heq
          rw [heq] at harg
          exact harg
        · rename_i h' v heq
          rw [heq] at harg
          exact ih args.tail harg

theorem Tabled.column_value
    {construct : Oid → Id → Heap α → Heap α × Except Failure (Option (Value α))}
    (hc : ∀ oid c h, Tabled x h → Tabled x (construct oid c h).1) (att : Attribute) (c : Id)
    (ht : Tabled x h) : Tabled x (column_value types pg construct att c h).1 := by
  have hmade : Tabled x (if (h.datum c).typeinfo = att.atttypid ∧ (h.datum c).modified = false
      then (h, (h.content c).map some) else construct att.atttypid c h).1 := by
    split
    · exact ht
    · exact hc _ c h ht
  unfold datums.column_value
  simp only
  split
  · rename_i heq
    rw [heq] at hmade
    exact hmade
  · rename_i heq
    rw [heq] at hmade
    exact hmade
  · rename_i heq
    rw [heq] at hmade
    split
    · exact hmade
    · exact hmade

theorem Tabled.in_turn {β γ : Type} {f : β → Heap α → Heap α × Except Failure γ}
    (hf : ∀ b h, Tabled x h → Tabled x (f b h).1) (bs : List β) (ht : Tabled x h) :
    Tabled x (in_turn f bs h).1 := by
  induction bs generalizing h with
  | nil => exact ht
  | cons b bs ih =>
    have hb := hf b h ht
    unfold datums.in_turn
    split
    · rename_i h' e heq
      rw [heq] at hb
      exact hb
    · rename_i h' v heq
      rw [heq] at hb
      exact ih hb

theorem Tabled.failed (ht : Tabled x h) (e : Failure) : Tabled x (failed h e).1 := by
  cases e with
  | freed => exact ht
  | error => exact ht

theorem Tabled.column (ht : Tabled x h) (slot : Option Slot) :
    Tabled x (pllua_datum_column types slot h).1 := by
  unfold pllua_datum_column
  split
  · split
    · split
      · exact ht
      · exact ht.failed _
    · exact ht
  · exact ht
  · exact ht
  · exact ht
  · exact ht

variable (pg) in
theorem Tabled.row_index (ht : Tabled x h) (y : Id) (i : Nat) :
    Tabled x (pllua_datum_row_index types pg y i h).1 := by
  unfold pllua_datum_row_index
  split
  · exact ht
  · exact (ht.deform y).column _

theorem Tabled.array_call
    {construct : Oid → Id → Heap α → Heap α × Except Failure (Option (Value α))}
    (hc : ∀ oid c h, Tabled x h → Tabled x (construct oid c h).1) (elemtype : Oid) (y : Id)
    (ht : Tabled x h) : Tabled x (pllua_typeinfo_array_call types pg construct elemtype y h).1 := by
  have hread : ∀ i (h : Heap α), Tabled x h → Tabled x (read_column types y i h).1 := by
    intro i h ht
    have hcol : Tabled x
        (pllua_datum_column types ((h.datum y).deformed.bind (·[i]?)) h).1 := ht.column _
    unfold read_column
    split
    · rename_i heq
      rw [heq] at hcol
      exact hcol
    · rename_i heq
      rw [heq] at hcol
      exact hcol
  have helement : ∀ i h, Tabled x h →
      Tabled x (element_value types pg construct elemtype y i h).1 := by
    intro i h ht
    have hindex := ht.row_index pg y i
    unfold element_value
    split
    · rename_i heq
      rw [heq] at hindex
      split <;> exact hindex
    · rename_i heq
      rw [heq] at hindex
      exact hc _ _ _ hindex
    · rename_i heq
      rw [heq] at hindex
      exact hindex
    · rename_i heq _
      rw [heq] at hindex
      exact hindex
  unfold pllua_typeinfo_array_call
  split
  · split
    · exact ht
    · exact hc _ y h ht
  · rename_i attrs _
    have hdeform : Tabled x (pllua_datum_deform_tuple types pg y h) := ht.deform y
    have hreads := Tabled.in_turn hread (List.range attrs.length) hdeform
    split
    · rename_i heq
      rw [heq] at hreads
      exact hreads
    · rename_i heq
      rw [heq] at hreads
      exact Tabled.in_turn helement _ hreads

theorem Tabled.call_datum (n : Nat) (oid : Oid) (y : Id) (ht : Tabled x h) :
    Tabled x (pllua_typeinfo_call_datum types pg n oid y h).1 := by
  induction n generalizing oid y h with
  | zero => exact ht
  | succ n ih =>
    have hcol : ∀ att c h, Tabled x h →
        Tabled x (datums.column_value types pg (pllua_typeinfo_call_datum types pg n) att c h).1 :=
      fun att c _ ht => .column_value (fun oid y _ ht => ih oid y ht) att c ht
    unfold pllua_typeinfo_call_datum
    simp only
    split
    · split
      · split
        · exact Tabled.row_call hcol _ _ ht
        · exact ht
      · exact Tabled.array_call (fun oid c _ ht => ih oid c ht) _ y ht
      · exact ht
    · split
      · split
        · exact ht
        · split
          · exact ht.deform y
          · exact Tabled.row_call hcol _ _ (ht.deform y)
      · exact ht
      · exact ht
      · split
        · exact ht
        · split
          · exact ht
          · exact ht

variable (pg) in
theorem Tabled.call (ht : Tabled x h) (oid : Oid) (arg : Arg α types) :
    Tabled x (pllua_typeinfo_call types pg oid arg h).1 := by
  cases arg with
  | nil | value | bad => exact ht
  | datum y => exact Tabled.call_datum _ oid y ht

theorem Tabled.array_value (ht : Tabled x h) (y : Id) : Tabled x (pllua_datum_array_value y h) := by
  unfold pllua_datum_array_value
  dsimp only
  split
  · exact ht
  · split
    · exact ht
    · refine Tabled.same (h := (h.use _).set y _) (.set (ht.use _) fun hd => ?_) rfl (Nat.le_refl _)
      rwa [use_datum] at hd

theorem Tabled.row_newindex (ht : Tabled x h) (y : Id) (i : Nat) (arg : Arg α types) :
    Tabled x (pllua_datum_row_newindex types pg y i arg h).1 := by
  have hslot : ∀ (d : Datum α) (slot : Slot), d.deformed ≠ none →
      (d.set_slot i slot).deformed ≠ none := by
    intro d slot hd
    simpa [Datum.set_slot] using hd
  unfold pllua_datum_row_newindex
  split
  · exact ht
  · rename_i att _
    have hcall := (ht.explode pg y).call pg att.atttypid arg
    dsimp only
    split
    · rename_i heq
      rw [heq] at hcall
      exact hcall.failed _
    · rename_i heq
      rw [heq] at hcall
      exact hcall.set fun hd => hslot _ _ hd
    · rename_i heq
      rw [heq] at hcall
      exact (hcall.newdatum _ _).set fun hd => hslot _ _ hd

theorem Tabled.array_index (ht : Tabled x h) (y : Id) (key : Key Id) :
    Tabled x (pllua_datum_array_index types pg y key h).1 := by
  have hvalue := ht.array_value y
  have helement : ∀ elemtype bytes idx, Tabled x
      (array_element types pg elemtype bytes idx (pllua_datum_array_value y h)).1 := by
    intro elemtype bytes idx
    unfold array_element
    split
    · exact hvalue
    · split
      · exact hvalue
      · exact hvalue.newdatum _ _
  unfold pllua_datum_array_index
  split
  · dsimp only
    split
    · split
      · split
        · exact hvalue
        · exact helement _ _ _
      · split
        · exact helement _ _ _
        · exact hvalue
    · exact hvalue
    · exact hvalue.failed _
  · exact ht

theorem Tabled.idxlist_index (ht : Tabled x h) (y : Id) (l : Idxlist) (i : Int) :
    Tabled x (pllua_datum_idxlist_index types pg y l i h).1 := by
  unfold pllua_datum_idxlist_index
  dsimp only
  split
  · exact ht.array_index y _
  · exact ht

theorem Tabled.set_element (ht : Tabled x h) (elemtype : Oid) (y : Id) (idx : List Int)
    (v : Option (Value α)) : Tabled x (set_element types pg elemtype y idx v h).1 := by
  unfold datums.set_element
  split
  · split
    · exact ht
    · exact ht.set fun hd => hd
  · exact ht.failed _
  · exact ht

theorem Tabled.array_newindex (ht : Tabled x h) (y : Id) (key : Key Id) (arg : Arg α types) :
    Tabled x (pllua_datum_array_newindex types pg y key arg h).1 := by
  cases hty : types.typeinfo (h.datum y).typeinfo with
  | array elemtype =>
    have hexplode :
        Tabled x ((h.datum y).datumref.elim h (pllua_datum_explode_tuple types pg · h)) := by
      cases (h.datum y).datumref with
      | none => exact ht
      | some z => exact ht.explode pg z
    have hopened : Tabled x (array_opened types pg y h) := hexplode.array_value y
    have hcall := hopened.call pg elemtype arg
    rw [array_newindex_eq hty]
    split
    · split
      · exact hopened
      · split
        · rename_i heq
          rw [heq] at hcall
          exact hcall.failed _
        · rename_i heq
          rw [heq] at hcall
          exact hcall.set_element _ _ _ _
    · exact hopened
    · exact hopened.failed _
  | scalar | range | row =>
    unfold pllua_datum_array_newindex
    rw [hty]
    exact ht

theorem Tabled.call_result (ht : Tabled x h) (oid : Oid) (y : Id) :
    Tabled x (pllua_typeinfo_call_result types pg oid y h).1 := by
  have hcall := ht.call pg oid (.datum y)
  unfold pllua_typeinfo_call_result
  split
  · rename_i heq
    rw [heq] at hcall
    exact hcall.failed _
  · rename_i heq
    rw [heq] at hcall
    exact hcall
  · rename_i heq
    rw [heq] at hcall
    exact hcall.newdatum _ _

variable (types pg) in
theorem Tabled.tolstring (n : Nat) (ht : Tabled x h) (y : Id) :
    Tabled x (luaL_tolstring types pg n y h).1 := by
  induction n generalizing y h with
  | zero => exact ht
  | succ n ih =>
    unfold luaL_tolstring
    split
    · have hcol : ∀ i h, Tabled x h →
          Tabled x (column_text (luaL_tolstring types pg n) y i h).1 := by
        intro i h ht
        unfold column_text
        split
        · exact ih ht _
        · exact ht
        · exact ht
        · exact ht
        · exact ht
      exact Tabled.in_turn hcol _ (ht.deform y)
    · have hcall := ht.call pg (h.datum y).typeinfo (.datum y)
      unfold pllua_datum_tostring
      split
      · split
        · rename_i heq
          rw [heq] at hcall
          exact hcall
        · rename_i heq
          rw [heq] at hcall
          exact hcall
        · rename_i heq
          rw [heq] at hcall
          exact hcall
      · exact ht

theorem Tabled.tostring (ht : Tabled x h) (y : Id) :
    Tabled x (tostring_result types pg y h).1 := by
  have htext := Tabled.tolstring types pg (types.nesting (h.datum y).typeinfo + 1) ht y
  unfold tostring_result
  split
  · rename_i heq
    rw [heq] at htext
    exact htext.failed _
  · rename_i heq
    rw [heq] at htext
    exact htext

theorem Tabled.gc (ht : Tabled x h) (y : Id) : Tabled x (pllua_datum_gc y h) := by
  unfold pllua_datum_gc
  dsimp only
  split
  · refine (ht.pfree _).set fun hd => ?_
    unfold Heap.pfree at hd
    split at hd
    · exact hd
    · rwa [use_datum] at hd
  · exact ht.set fun hd => hd

theorem Tabled.through {st : State α} (ht : Tabled x st.heap) (r : Nat)
    {method : Id → Heap α × Result α} (hm : ∀ y, Tabled x (method y).1) :
    Tabled x (st.through r method).1.heap := by
  unfold State.through
  split
  · exact ht
  · split
    · exact hm _
    · exact ht

/-- No operation takes the table of a row away. -/
theorem Tabled.step {st : State α} (ht : Tabled x st.heap) (op : Op α types) :
    Tabled x (step types pg st op).1.heap := by
  cases op with
  | create v => exact ht.newdatum _ _
  | index r i => exact ht.through r fun y => ht.row_index pg y i
  | newindex r i arg => exact ht.through r fun y => ht.row_newindex y i _
  | element r key =>
    dsimp only [datums.step]
    split
    · exact ht
    · exact ht.through r fun y => ht.array_index y _
  | set_element r key arg =>
    dsimp only [datums.step]
    split
    · exact ht
    · exact ht.through r fun y => ht.array_newindex y _ _
  | idxlist_index r l i => exact ht.through r fun y => ht.idxlist_index y l i
  | idxlist_newindex r l i arg => exact ht.through r fun _ => ht
  | construct oid r => exact ht.through r fun y => ht.call_result oid y
  | tostring r => exact ht.through r fun y => ht.tostring y
  | lose xs => exact ht
  | finalize y => exact ht.gc y

end

/-! ## Columns -/

/-- The entries of dropped columns are those that a loop skips. -/
def Marks_dropped (attrs : List Attribute) (slots : List Slot) : Prop :=
  ∀ (i : Nat) (att : Attribute), attrs[i]? = some att →
    (slots[i]? = some .dropped ↔ att.attisdropped = true)

theorem live_columns_cons {attrs : List Attribute} {i : Nat} {att : Attribute}
    (h : attrs[i]? = some att) :
    live_columns attrs i =
      if att.attisdropped then live_columns attrs (i + 1)
      else (att, i) :: live_columns attrs (i + 1) := by
  obtain ⟨hlt, rfl⟩ := List.getElem?_eq_some_iff.mp h
  unfold live_columns
  rw [List.drop_eq_getElem_cons hlt, List.zipIdx_cons, List.filter_cons]
  cases attrs[i].attisdropped <;> simp

theorem live_columns_end {attrs : List Attribute} {i : Nat} (h : attrs.length ≤ i) :
    live_columns attrs i = [] := by
  unfold live_columns
  rw [List.drop_eq_nil_of_le h]
  rfl

theorem live_columns_length (attrs : List Attribute) :
    (live_columns attrs 0).length = arity attrs := by
  unfold live_columns arity
  rw [List.drop_zero, ← List.countP_eq_length_filter]
  conv_rhs => rw [← List.zipIdx_map_fst 0 attrs, List.countP_map]
  rfl

/-- A loop stops at the next column that is not dropped. -/
theorem skip_dropped_cases {attrs : List Attribute} {slots : List Slot}
    (hs : Marks_dropped attrs slots) (i : Nat) :
    (skip_dropped slots (attrs.length - i) i = none ∧ live_columns attrs i = []) ∨
      ∃ j att, skip_dropped slots (attrs.length - i) i = some j ∧ attrs[j]? = some att ∧
        att.attisdropped = false ∧
        live_columns attrs i = (att, j) :: live_columns attrs (j + 1) := by
  generalize hn : attrs.length - i = n
  induction n generalizing i with
  | zero => exact .inl ⟨rfl, live_columns_end (by omega)⟩
  | succ n ih =>
    have hlt : i < attrs.length := by omega
    have hatt : attrs[i]? = some attrs[i] := List.getElem?_eq_getElem hlt
    have hiff := hs i _ hatt
    rw [live_columns_cons hatt]
    unfold skip_dropped
    cases hdropped : attrs[i].attisdropped with
    | true =>
      rw [if_pos (hiff.mpr hdropped), if_pos rfl]
      exact ih (i + 1) (by omega)
    | false =>
      rw [if_neg fun h => Bool.false_ne_true (hdropped.symm.trans (hiff.mp h)),
        if_neg Bool.false_ne_true]
      exact .inr ⟨i, _, rfl, hatt, hdropped, rfl⟩

section
variable {α : Type} {types : Types} {pg : Backend α types} {x : Id} {P : Place} {h : Heap α}
variable {t : Tree α} {loc : Places} {attrs : List Attribute} {slots : List Slot}

theorem Shows.marks_dropped (hs : Shows types h t loc) (hx : loc x = some P)
    (ht : h.type types x = .row attrs) (hd : (h.datum x).deformed = some slots) :
    Marks_dropped attrs slots := by
  intro i att hatt
  obtain ⟨slot, hslot, hentry, -⟩ := hs.settled.entry hx ht hd hatt
  rw [hslot]
  constructor
  · intro hdropped
    cases hdropped
    exact hentry
  · intro hdropped
    cases slot with
    | dropped => rfl
    | datum | null | absent => exact absurd (hentry.1.symm.trans hdropped) Bool.false_ne_true

/-- The loop over the columns from `i` on makes what the tree shows in them. -/
theorem row_map_loop_shows (hs : Shows types h t loc) (hx : loc x = some P)
    (ht : h.type types x = .row attrs) (hd : (h.datum x).deformed = some slots) (i : Nat) :
    ∃ cols, row_map_loop types attrs slots (attrs.length - i) i h = (h, cols) ∧
      ((cols = none ∧ Tree.map types (ref_to h x P) (live_columns attrs i) t = none) ∨
        ∃ rows new, cols = some rows ∧
          List.Forall₂ (Stands h loc) (rows.flatMap (·.2.refs)) new ∧
          Tree.map types (ref_to h x P) (live_columns attrs i) t =
            some ({ t with refs := t.refs ++ new }, rows.map fun c => (c.1, c.2.reply))) := by
  generalize hn : attrs.length - i = n
  induction n generalizing i t with
  | zero =>
    rw [live_columns_end (by omega)]
    exact ⟨_, rfl, .inr ⟨[], [], rfl, .nil, by simp [Tree.map]⟩⟩
  | succ n ih =>
    have hlt : i < attrs.length := by omega
    have hatt : attrs[i]? = some attrs[i] := List.getElem?_eq_getElem hlt
    have hiff := hs.marks_dropped hx ht hd i _ hatt
    rw [live_columns_cons hatt]
    unfold row_map_loop
    cases hdropped : attrs[i].attisdropped with
    | true =>
      rw [if_pos (hiff.mpr hdropped), if_pos rfl]
      exact ih hs (i + 1) (by omega)
    | false =>
      rw [if_neg fun h => Bool.false_ne_true (hdropped.symm.trans (hiff.mp h)),
        if_neg Bool.false_ne_true]
      obtain ⟨out, new, hout, hnew, hindex⟩ := column_shows hs hx ht hd hatt hdropped
      obtain ⟨cols, hcols, hrest⟩ := ih (t := { t with refs := t.refs ++ new })
        ⟨hs.settled, hs.tracked⟩ (i + 1) (by omega)
      have hname : attname attrs i = attrs[i].attname := by
        unfold attname
        rw [hatt]
        rfl
      rw [hout]
      unfold Tree.map
      rw [hindex]
      cases out with
      | error => exact ⟨none, rfl, .inl ⟨rfl, rfl⟩⟩
      | nothing | nil | value | datum | idxlist =>
        simp only [hcols, hname, Result.reply]
        refine ⟨_, rfl, ?_⟩
        obtain ⟨rfl, hnone⟩ | ⟨rows, new', rfl, hnew', hsome⟩ := hrest
        · exact .inl ⟨rfl, by rw [hnone]; rfl⟩
        · refine .inr ⟨_, new ++ new', rfl, ?_, ?_⟩
          · exact List.rel_append hnew hnew'
          · rw [hsome]
            simp [Result.reply]

/-! ## References keep their types -/

def Tree.typeoids (t : Tree α) : List Oid := t.refs.map (·.typeoid)

theorem typeoids_assign (t : Tree α) (P : Place) (w : Option (Value α)) :
    (t.assign P w).typeoids = t.typeoids := by
  simp [Tree.typeoids, Tree.assign, Ref.moved, Function.comp_def]

theorem typeoids_touch (t : Tree α) (n : Nat) : (t.touch n).typeoids = t.typeoids := by
  unfold Tree.touch
  split <;> rfl

theorem typeoids_plant (t : Tree α) (oid : Oid) (v : Value α) :
    t.typeoids <+: (t.plant oid v).1.typeoids := by
  simp [Tree.typeoids, Tree.plant]

theorem typeoids_through {r : Nat} {method : Ref → Tree α × Reply α}
    (hm : ∀ ref, t.typeoids <+: (method ref).1.typeoids) :
    t.typeoids <+: (t.through r method).1.typeoids := by
  unfold Tree.through
  split
  · exact List.prefix_rfl
  · exact hm _

theorem typeoids_index (t : Tree α) (i : Nat) (ref : Ref) :
    t.typeoids <+: (t.index types i ref).1.typeoids := by
  unfold Tree.index
  split
  · exact List.prefix_rfl
  · dsimp only
    split
    · exact List.prefix_rfl
    · split
      · exact List.prefix_rfl
      · split
        · exact List.prefix_rfl
        · simp [Tree.typeoids]

theorem typeoids_element (t : Tree α) (key : Key Ref) (ref : Ref) :
    t.typeoids <+: (t.element pg key ref).1.typeoids := by
  have helement : ∀ elemtype bytes idx,
      t.typeoids <+: (t.array_element pg elemtype bytes idx).1.typeoids := by
    intro elemtype bytes idx
    unfold Tree.array_element
    split
    · exact List.prefix_rfl
    · split
      · exact List.prefix_rfl
      · exact typeoids_plant t _ _
  unfold Tree.element
  split
  · split
    · split
      · exact List.prefix_rfl
      · exact helement _ _ _
    · split
      · exact helement _ _ _
      · exact List.prefix_rfl
  · exact List.prefix_rfl

theorem typeoids_step (t : Tree α) (op : Op α types) :
    t.typeoids <+: (t.step pg op).1.typeoids := by
  cases op with
  | create v => exact typeoids_plant t _ _
  | index r i => exact typeoids_through fun ref => typeoids_index t i ref
  | newindex r i arg =>
    refine typeoids_through fun ref => ?_
    unfold Tree.newindex
    split
    · exact List.prefix_rfl
    · dsimp only
      split
      · exact (typeoids_touch t _).symm ▸ List.prefix_rfl
      · have hsame : ∀ P w, ((t.touch ref.place.root).assign P w).typeoids = t.typeoids :=
          fun P w => (typeoids_assign _ P w).trans (typeoids_touch t _)
        exact (hsame _ _).symm ▸ List.prefix_rfl
  | element r key =>
    dsimp only [Tree.step]
    split
    · exact List.prefix_rfl
    · exact typeoids_through fun ref => typeoids_element t _ ref
  | set_element r key arg =>
    dsimp only [Tree.step]
    split
    · exact List.prefix_rfl
    refine typeoids_through fun ref => ?_
    unfold Tree.set_element
    split
    · dsimp only
      split
      · exact (typeoids_touch t _).symm ▸ List.prefix_rfl
      · split
        · exact (typeoids_touch t _).symm ▸ List.prefix_rfl
        · split
          · exact (typeoids_touch t _).symm ▸ List.prefix_rfl
          · exact (typeoids_touch t ref.place.root).symm ▸ List.prefix_rfl
    · exact List.prefix_rfl
  | idxlist_index r l i =>
    refine typeoids_through fun ref => ?_
    unfold Tree.idxlist_index
    dsimp only
    split
    · exact typeoids_element t _ ref
    · exact List.prefix_rfl
  | idxlist_newindex r l i arg => exact typeoids_through fun _ => List.prefix_rfl
  | construct oid r =>
    refine typeoids_through fun ref => ?_
    unfold Tree.construct
    split
    · exact List.prefix_rfl
    · exact List.prefix_rfl
    · exact typeoids_plant t _ _
  | tostring r =>
    refine typeoids_through fun ref => ?_
    unfold Tree.tostring
    split
    · exact List.prefix_rfl
    · split <;> exact List.prefix_rfl
  | lose xs => exact List.prefix_rfl
  | finalize x => exact List.prefix_rfl

end

/-! ## Runs -/

section
variable {α : Type} {types : Types} {pg : Backend α types}

/-- The iterator goes on where the walk does. -/
def Goes (types : Types) (t : Tree α) (it : RowNext) (w : Walk) : Prop :=
  it.datum = w.ref ∧ ∃ oid attrs, t.typeoids[w.ref]? = some oid ∧ types.typeinfo oid = .row attrs ∧
    w.left = live_columns attrs it.index

/-- The heap follows the tree, and the iterators the walks. -/
structure RowFollowing (types : Types) (s : RowState α) (s' : WalkState α) : Prop where
  following : ∃ loc, Following types s.st s'.tree loc
  tabled : ∀ it ∈ s.nexts, ∃ x, s.st.refs[it.datum]? = some x ∧ Tabled x s.st.heap
  goes : List.Forall₂ (Goes types s'.tree) s.nexts s'.walks

variable {s : RowState α} {s' : WalkState α} {st : State α} {t : Tree α} {loc : Places}

theorem Goes.grows {t' : Tree α} {it : RowNext} {w : Walk} (hg : Goes types t it w)
    (hp : t.typeoids <+: t'.typeoids) : Goes types t' it w := by
  obtain ⟨hdatum, oid, attrs, hoid, ht, hleft⟩ := hg
  refine ⟨hdatum, oid, attrs, ?_, ht, hleft⟩
  obtain ⟨rest, hrest⟩ := hp
  rw [← hrest, List.getElem?_append_left (List.getElem?_eq_some_iff.mp hoid).1, hoid]

/-- A reference that is not dead is there on both sides, or on neither. -/
theorem Following.datum? (hf : Following types st t loc) {r : Nat}
    (hr : ∀ x ∈ st.dead, st.refs[r]? ≠ some x) :
    (st.datum? r = none ∧ t.refs[r]? = none) ∨
      ∃ x P, st.datum? r = some x ∧ st.refs[r]? = some x ∧ loc x = some P ∧
        t.refs[r]? = some (ref_to st.heap x P) := by
  unfold State.datum?
  rcases refs_rel hf.refs r with ⟨hx, hy⟩ | ⟨x, ref, hx, hy, hstands⟩
  · exact .inl ⟨by rw [hx]; rfl, hy⟩
  · obtain ⟨P, hplace, rfl⟩ := hstands fun hdead => hr x hdead hx
    obtain ⟨-, -, hmeta⟩ := hf.shows.settled.inv.alive x _ hplace
    exact .inr ⟨x, P, by rw [hx]; simp [hmeta], hx, hplace, hy⟩

/-- A step of both machines, after which one follows the other again. -/
def RowFollow (types : Types) (out : RowState α × RowReply α) (out' : WalkState α × RowReply α) :
    Prop :=
  RowFollowing types out.1 out'.1 ∧ out.2 = out'.2

/-- The program goes on with more references, and a heap that still shows the tree. -/
theorem RowFollowing.grows (hs : RowFollowing types s s') {t' : Tree α} {st' : State α}
    (hf : ∃ loc, Following types st' t' loc) (hrefs : s.st.refs <+: st'.refs)
    (hp : s'.tree.typeoids <+: t'.typeoids)
    (htab : ∀ x, Tabled x s.st.heap → Tabled x st'.heap) :
    RowFollowing types { s with st := st' } { s' with tree := t' } where
  following := hf
  tabled := by
    intro it hit
    obtain ⟨x, hx, ht⟩ := hs.tabled it hit
    obtain ⟨rest, hrest⟩ := hrefs
    refine ⟨x, ?_, htab x ht⟩
    rw [← hrest, List.getElem?_append_left (List.getElem?_eq_some_iff.mp hx).1, hx]
  goes := hs.goes.imp fun _ _ hg => hg.grows hp

theorem refs_step (st : State α) (op : Op α types) :
    st.refs <+: (step types pg st op).1.refs := by
  have hthrough : ∀ r method, st.refs <+: (st.through r method).1.refs := by
    intro r method
    unfold State.through
    split
    · exact List.prefix_rfl
    · split
      · exact List.prefix_append _ _
      · exact List.prefix_rfl
  cases op with
  | create v => exact List.prefix_append _ _
  | index | newindex | idxlist_index | idxlist_newindex | construct | tostring =>
    exact hthrough _ _
  | element | set_element =>
    dsimp only [datums.step]
    split
    · exact List.prefix_rfl
    · exact hthrough _ _
  | lose | finalize => exact List.prefix_rfl

theorem RowFollowing.op (hs : RowFollowing types s s') {op : Op α types}
    (hc : Collectable types s.st op) :
    RowFollow types (row_step types pg s (.op op)) (s'.step pg (.op op)) := by
  obtain ⟨loc, hf⟩ := hs.following
  obtain ⟨⟨loc', hf', -⟩, hreply⟩ := hf.step pg hc
  exact ⟨hs.grows ⟨loc', hf'⟩ (refs_step s.st op) (typeoids_step s'.tree op)
    fun x ht => ht.step op, congrArg RowReply.reply hreply⟩

variable (pg) in
theorem Following.deform (hf : Following types st t loc) {x : Id} {P : Place}
    {attrs : List Attribute} (hx : loc x = some P) (ht : st.heap.type types x = .row attrs) :
    ∃ loc' slots, Following types
        { st with heap := pllua_datum_deform_tuple types pg x st.heap } t loc' ∧
      loc' x = some P ∧ (pllua_datum_deform_tuple types pg x st.heap).type types x = .row attrs ∧
      ((pllua_datum_deform_tuple types pg x st.heap).datum x).deformed = some slots ∧
      ref_to (pllua_datum_deform_tuple types pg x st.heap) x P = ref_to st.heap x P := by
  obtain ⟨loc', hr, slots, hslots⟩ := hf.shows.settled.deform pg hx ht
  have ha := hr.after hf.shows
  refine ⟨loc', slots, (hf.after ha (refs_moved _).symm).1, hr.grown x P hx,
    (hr.type hx).trans ht, hslots, ?_⟩
  obtain ⟨htype, htypmod⟩ := Prod.mk.inj (ha.typed x P hx)
  unfold ref_to
  rw [htype, htypmod]

theorem Following.tabled (hf : Following types st t loc) {x : Id} {P : Place} {slots : List Slot}
    (hx : loc x = some P) (hd : (st.heap.datum x).deformed = some slots) : Tabled x st.heap :=
  ⟨(hf.shows.settled.inv.alive x P hx).1, by rw [hd]; exact Option.some_ne_none slots⟩

theorem RowFollowing.pairs (hs : RowFollowing types s s') {r : Nat}
    (hr : ∀ x ∈ s.st.dead, s.st.refs[r]? ≠ some x) :
    RowFollow types (row_step types pg s (.pairs r)) (s'.step pg (.pairs r)) := by
  obtain ⟨loc, hf⟩ := hs.following
  unfold row_step WalkState.step pllua_datum_row_pairs
  rcases hf.datum? hr with ⟨hx, hy⟩ | ⟨x, P, hx, -, hplace, hy⟩
  · simp only [hx, hy]
    exact ⟨hs, rfl⟩
  · simp only [hx, hy]
    have hoid : (ref_to s.st.heap x P).typeoid = (s.st.heap.datum x).typeinfo := rfl
    rw [hoid]
    cases ht : types.typeinfo (s.st.heap.datum x).typeinfo with
    | scalar | range | array => exact ⟨hs, rfl⟩
    | row attrs =>
      obtain ⟨loc', slots, hf', hx', -, hslots, href⟩ := hf.deform pg hplace ht
      have hhand := hf'.hand (.cons ⟨P, hx', href.symm⟩ .nil)
      have hlen : s.st.refs.length = s'.tree.refs.length := hf.refs.length_eq
      have hgrow := hs.grows ⟨loc', hhand⟩ (List.prefix_append _ _)
        (by simp [Tree.typeoids]) fun y hy => hy.deform x
      refine ⟨⟨hgrow.following, ?_, ?_⟩, rfl⟩
      · intro it hit
        rcases List.mem_append.mp hit with hold | hnew
        · exact hgrow.tabled it hold
        · rw [List.mem_singleton] at hnew
          subst hnew
          exact ⟨x, by simp, hf'.tabled hx' hslots⟩
      · refine List.rel_append hgrow.goes (.cons ⟨hlen, _, attrs, ?_, ht, rfl⟩ .nil)
        simp [Tree.typeoids, ref_to]

theorem rel_set {β γ : Type} {R : β → γ → Prop} {xs : List β} {ys : List γ}
    (h : List.Forall₂ R xs ys) {x : β} {y : γ} (hxy : R x y) (k : Nat) :
    List.Forall₂ R (xs.set k x) (ys.set k y) := by
  induction h generalizing k with
  | nil => exact .nil
  | cons hab hrest ih =>
    cases k with
    | zero => exact .cons hxy hrest
    | succ k => exact .cons hab (ih k)

/-- An iterator and its walk move on. -/
theorem RowFollowing.move (hs : RowFollowing types s s') {k : Nat} {it it' : RowNext} {w' : Walk}
    (hit : s.nexts[k]? = some it) (hg : Goes types s'.tree it' w') (hdatum : it'.datum = it.datum) :
    RowFollowing types { s with nexts := s.nexts.set k it' }
      { s' with walks := s'.walks.set k w' } where
  following := hs.following
  tabled := by
    intro i hi
    rcases List.mem_or_eq_of_mem_set hi with hold | rfl
    · exact hs.tabled i hold
    · rw [hdatum]
      exact hs.tabled it (List.mem_of_getElem? hit)
  goes := rel_set hs.goes hg k

theorem RowFollowing.next (hs : RowFollowing types s s') {k : Nat}
    (hr : ∀ r ∈ (RowOp.next k : RowOp α types).refs s, ∀ x ∈ s.st.dead,
      s.st.refs[r]? ≠ some x) :
    RowFollow types (row_step types pg s (.next k)) (s'.step pg (.next k)) := by
  obtain ⟨loc, hf⟩ := hs.following
  unfold row_step WalkState.step pllua_datum_row_next WalkState.next
  rcases refs_rel hs.goes k with ⟨hx, hy⟩ | ⟨it, w, hit, hw, hgoes⟩
  · simp only [hx, hy]
    exact ⟨hs, rfl⟩
  · simp only [hit, hw]
    have hdead : ∀ x ∈ s.st.dead, s.st.refs[it.datum]? ≠ some x :=
      hr it.datum (by simp [RowOp.refs, hit])
    obtain ⟨hdatum, oid, attrs, hoid, htype, hleft⟩ := hgoes
    obtain ⟨x', hx', htab⟩ := hs.tabled it (List.mem_of_getElem? hit)
    rcases hf.datum? hdead with ⟨-, hy⟩ | ⟨x, P, hx, hxr, hplace, hy⟩
    · rw [hdatum] at hy
      simp [Tree.typeoids, hy] at hoid
    · rw [hx'] at hxr
      cases hxr
      rw [hdatum] at hy
      have hoid' : oid = (s.st.heap.datum x').typeinfo := by
        simpa [Tree.typeoids, hy, ref_to] using hoid.symm
      subst hoid'
      obtain ⟨slots, hslots⟩ := Option.ne_none_iff_exists'.mp htab.2
      have hmarks := hf.shows.marks_dropped hplace htype hslots
      simp only [hx, htype, hslots, Option.getD_some]
      rcases skip_dropped_cases hmarks it.index with ⟨hskip, hend⟩ |
        ⟨j, att, hskip, hatt, hlive, hcols⟩
      · -- a call at the end moves the index on, and the walk stays where it is
        rw [hleft, hend]
        simp only [hskip]
        have hsame : s'.walks.set k w = s'.walks := by
          obtain ⟨hlt, rfl⟩ := List.getElem?_eq_some_iff.mp hw
          exact List.set_getElem_self hlt
        have hgoes : Goes types s'.tree { it with index := max it.index attrs.length + 1 } w := by
          refine ⟨hdatum, _, attrs, hoid, htype, ?_⟩
          rw [hleft, hend, live_columns_end]
          exact Nat.le_succ_of_le (Nat.le_max_right _ _)
        have hmove := hs.move hit hgoes rfl
        rw [hsame] at hmove
        exact ⟨hmove, rfl⟩
      · obtain ⟨out, new, hout, hnew, hindex⟩ :=
          column_shows hf.shows hplace htype hslots hatt hlive
        have hname : attname attrs j = att.attname := by
          unfold attname
          rw [hatt]
          rfl
        have hprefix : s'.tree.typeoids <+:
            Tree.typeoids { s'.tree with refs := s'.tree.refs ++ new } := by simp [Tree.typeoids]
        have hgrow := hs.grows ⟨loc, hf.hand hnew⟩ (List.prefix_append _ _) hprefix fun y hy => hy
        have hgoes : Goes types s'.tree { it with index := j + 1 }
            { w with left := live_columns attrs (j + 1) } :=
          ⟨hdatum, _, attrs, hoid, htype, rfl⟩
        have hmove := hgrow.move hit (hgoes.grows hprefix) rfl
        rw [hleft, hcols]
        unfold Tree.through
        simp only [hskip, hout, hy, hindex, State.reply, hname]
        cases out with
        | error =>
          simp only [Result.refs, Result.reply, List.append_nil]
          exact ⟨hs, rfl⟩
        | nothing | nil | value | datum | idxlist => exact ⟨hmove, rfl⟩

theorem RowFollowing.map (hs : RowFollowing types s s') {r : Nat}
    (hr : ∀ x ∈ s.st.dead, s.st.refs[r]? ≠ some x) :
    RowFollow types (row_step types pg s (.map r)) (s'.step pg (.map r)) := by
  obtain ⟨loc, hf⟩ := hs.following
  unfold row_step WalkState.step pllua_datum_row_map
  rcases hf.datum? hr with ⟨hx, hy⟩ | ⟨x, P, hx, -, hplace, hy⟩
  · simp only [hx, hy]
    exact ⟨hs, rfl⟩
  · simp only [hx, hy]
    have hoid : (ref_to s.st.heap x P).typeoid = (s.st.heap.datum x).typeinfo := rfl
    rw [hoid]
    cases ht : types.typeinfo (s.st.heap.datum x).typeinfo with
    | scalar | range | array => exact ⟨hs, rfl⟩
    | row attrs =>
      obtain ⟨loc', slots, hf', hx', ht', hslots, href⟩ := hf.deform pg hplace ht
      obtain ⟨cols, hloop, hcases⟩ := row_map_loop_shows hf'.shows hx' ht' hslots 0
      rw [Nat.sub_zero, href] at *
      simp only [hslots, Option.getD_some, hloop]
      obtain ⟨rfl, hnone⟩ | ⟨rows, new, rfl, hnew, hsome⟩ := hcases
      · rw [hnone]
        exact ⟨hs.grows ⟨loc', hf'⟩ List.prefix_rfl List.prefix_rfl fun y hy => hy.deform x, rfl⟩
      · rw [hsome]
        exact ⟨hs.grows ⟨loc', hf'.hand hnew⟩ (List.prefix_append _ _) (by simp [Tree.typeoids])
          fun y hy => hy.deform x, rfl⟩

theorem RowFollowing.len (hs : RowFollowing types s s') {r : Nat}
    (hr : ∀ x ∈ s.st.dead, s.st.refs[r]? ≠ some x) :
    RowFollow types (row_step types pg s (.len r)) (s'.step pg (.len r)) := by
  obtain ⟨loc, hf⟩ := hs.following
  unfold row_step WalkState.step pllua_datum_row_len
  rcases hf.datum? hr with ⟨hx, hy⟩ | ⟨x, P, hx, -, -, hy⟩
  · simp only [hx, hy]
    exact ⟨hs, rfl⟩
  · have hoid : (ref_to s.st.heap x P).typeoid = (s.st.heap.datum x).typeinfo := rfl
    simp only [hx, hy, Option.bind_some, Option.map_some, hoid]
    cases types.typeinfo (s.st.heap.datum x).typeinfo with
    | scalar | range | array => exact ⟨hs, rfl⟩
    | row attrs => exact ⟨hs, congrArg RowReply.len (live_columns_length attrs).symm⟩

theorem RowFollowing.step (hs : RowFollowing types s s') {op : RowOp α types}
    (hc : RowCollectable types s op) :
    RowFollow types (row_step types pg s op) (s'.step pg op) := by
  obtain ⟨hrefs, hop⟩ := hc
  cases op with
  | op op => exact hs.op hop
  | pairs r => exact hs.pairs (hrefs r (List.mem_singleton_self r))
  | next k => exact hs.next hrefs
  | map r => exact hs.map (hrefs r (List.mem_singleton_self r))
  | len r => exact hs.len (hrefs r (List.mem_singleton_self r))

def RowState.start : RowState α := ⟨.start, []⟩

def WalkState.start : WalkState α := ⟨.start, []⟩

theorem RowFollowing.start : RowFollowing types (.start : RowState α) .start :=
  ⟨⟨_, Following.start⟩, nofun, .nil⟩

end

end pllua.datums
