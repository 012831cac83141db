-- Programs over datums: what a program does with its references to them, on the heap of datum
-- objects and on trees of values, where a reference is a place in one of the trees.
import Pllua.DatumFinalizers
import Pllua.DatumTexts
import Pllua.Runs

open pllua.catalog pllua.records pllua.runs

namespace pllua.datums

/-! ## Programs -/

/-- What a program hands to a type: a value, one of its references, nil, or something that no
type takes. -/
inductive Given (α : Type) (types : Types)
  | value (v : Typed α types)
  | ref (r : Nat)
  | nil
  | bad

/-- A step of the program or of the garbage collector. References go by the order in which they
were obtained. A list of subscripts goes with the reference to its array, which it keeps alive. -/
inductive Op (α : Type) (types : Types)
  | create (v : Typed α types)
  | index (r i : Nat)
  | newindex (r i : Nat) (arg : Given α types)
  | element (r : Nat) (key : Key Nat)
  | set_element (r : Nat) (key : Key Nat) (arg : Given α types)
  | idxlist_index (r : Nat) (l : Idxlist) (i : Int)
  | idxlist_newindex (r : Nat) (l : Idxlist) (i : Int) (arg : Given α types)
  | construct (oid : Oid) (r : Nat)
  | tostring (r : Nat)
  /-- the collector finds the datums dead -/
  | lose (xs : List Id)
  /-- the finalizer of a dead datum -/
  | finalize (x : Id)

inductive Reply (α : Type)
  | nothing
  | nil
  | value (v : Value α)
  /-- a reference, which comes after those that the program has -/
  | ref
  | idxlist (l : Idxlist)
  | error

/-- The heap, the references that were obtained, and the datums that the collector gave up. -/
structure State (α : Type) where
  heap : Heap α
  refs : List Id
  dead : List Id

section
variable {α : Type} (types : Types) (pg : Backend α types)

def Result.reply : Result α → Reply α
  | .nothing => .nothing
  | .nil => .nil
  | .value v => .value v
  | .datum _ => .ref
  | .idxlist l => .idxlist l
  | .error => .error

/-- The datum that a result hands out. -/
def Result.refs : Result α → List Id
  | .datum x => [x]
  | _ => []

def State.reply (st : State α) (out : Heap α × Result α) : State α × Reply α :=
  ({ st with heap := out.1, refs := st.refs ++ out.2.refs }, out.2.reply)

/-- Before the first step. -/
def Heap.empty : Heap α where
  datum := fun _ =>
    { typeinfo := 0, value := none, typmod := -1, need_gc := false, modified := false
      datumref := none, deformed := none, metatable := false, finalised := false }
  next := 0
  freed := fun _ => false
  next_chunk := 0
  fault := false

def State.start : State α := ⟨.empty, [], []⟩

/-- A metamethod of a datum, which it has as long as it has its metatable. -/
def State.through (st : State α) (r : Nat) (method : Id → Heap α × Result α) :
    State α × Reply α :=
  match st.refs[r]? with
  | none => (st, .error)
  | some x => if (st.heap.datum x).metatable then st.reply (method x) else (st, .error)

/-- A userdata without its metatable is no datum. -/
def Given.arg (st : State α) : Given α types → Arg α types
  | .value v => .value v
  | .nil => .nil
  | .bad => .bad
  | .ref r =>
    match st.refs[r]? with
    | none => .bad
    | some x => if (st.heap.datum x).metatable then .datum x else .bad

/-- What a key is, by the references that the program has. -/
def Key.of {β : Type} (refs : List β) : Key Nat → Option (Key β)
  | .int i => some (.int i)
  | .idxlist r l => refs[r]?.map (.idxlist · l)

def step (st : State α) : Op α types → State α × Reply α
  | .create v =>
    st.reply (pllua_newdatum types v.typeoid v.value st.heap, .datum st.heap.next)
  | .index r i => st.through r fun x => pllua_datum_row_index types pg x i st.heap
  | .newindex r i arg =>
    st.through r fun x => pllua_datum_row_newindex types pg x i (arg.arg types st) st.heap
  | .element r key =>
    match key.of st.refs with
    | none => (st, .error)
    | some key => st.through r fun x => pllua_datum_array_index types pg x key st.heap
  | .set_element r key arg =>
    match key.of st.refs with
    | none => (st, .error)
    | some key =>
      st.through r fun x => pllua_datum_array_newindex types pg x key (arg.arg types st) st.heap
  | .idxlist_index r l i =>
    st.through r fun x => pllua_datum_idxlist_index types pg x l i st.heap
  | .idxlist_newindex r _ _ _ => st.through r fun _ => pllua_datum_idxlist_newindex st.heap
  | .construct oid r => st.through r fun x => pllua_typeinfo_call_result types pg oid x st.heap
  | .tostring r => st.through r fun x => tostring_result types pg x st.heap
  | .lose xs => ({ st with dead := st.dead ++ xs }, .nothing)
  | .finalize x => ({ st with heap := pllua_datum_gc x st.heap }, .nothing)

/-- The references that an argument uses. -/
def Given.refs {types : Types} : Given α types → List Nat
  | .ref r => [r]
  | _ => []

def Key.refs : Key Nat → List Nat
  | .int _ => []
  | .idxlist r _ => [r]

/-- The references that a step uses. -/
def Op.refs {types : Types} : Op α types → List Nat
  | .create _ | .lose _ | .finalize _ => []
  | .index r _ | .idxlist_index r _ _ | .construct _ r | .tostring r => [r]
  | .element r key => r :: key.refs
  | .newindex r _ arg | .idxlist_newindex r _ _ arg => r :: arg.refs
  | .set_element r key arg => r :: (key.refs ++ arg.refs)

/-- What Lua's collector keeps to: the program uses no reference to what is dead, datums die
that no other one refers to, and the finalizers run are those of dead datums. (A table with weak
keys holds on to a dead key for a while; the program has no reference from one.) -/
def Collectable (st : State α) (op : Op α types) : Prop :=
  (∀ r ∈ op.refs, ∀ x ∈ st.dead, st.refs[r]? ≠ some x) ∧
    match op with
    | .lose xs => (∀ x ∈ xs, x < st.heap.next) ∧ Unreferenced st.heap (st.dead ++ xs)
    | .finalize x => x ∈ st.dead
    | _ => True

instance (st : State α) : ∀ op, Decidable (Collectable types st op)
  | .create _ | .index _ _ | .newindex _ _ _ | .element _ _ | .set_element _ _ _
  | .idxlist_index _ _ _ | .idxlist_newindex _ _ _ _ | .construct _ _ | .tostring _
  | .finalize _ | .lose _ => inferInstanceAs (Decidable (_ ∧ _))

/-! ## Trees of values -/

/-- A reference to what stands at a place, with its type and the typmod that it has. -/
structure Ref where
  place : Place
  typeoid : Oid
  typmod : Int

/-- What became of a tree: it was made and not written to, it was written to, or it was part of
another one before. -/
inductive Origin
  | planted
  | written
  | detached
deriving DecidableEq, Repr

/-- The values with the marks of their columns, and the references. -/
structure Tree (α : Type) where
  forest : Forest α
  marks : Marks
  origins : Nat → Origin
  refs : List Ref

def Tree.start : Tree α := ⟨⟨fun _ => none, 0⟩, fun _ => .plain, fun _ => .detached, []⟩

variable {types}

def Tree.fail (t : Tree α) : Tree α × Reply α := (t, .error)

/-- A value of its own, with a reference to it. -/
def Tree.plant (t : Tree α) (oid : Oid) (v : Value α) : Tree α × Reply α :=
  ({ t with
      forest := t.forest.plant v
      origins := Function.update t.origins t.forest.next .planted
      refs := t.refs ++ [⟨⟨t.forest.next, []⟩, oid, -1⟩] }, .ref)

/-- A write begins. -/
def Tree.touch (t : Tree α) (n : Nat) : Tree α :=
  if t.origins n = .planted then { t with origins := Function.update t.origins n .written } else t

/-- The reference to what stands at the place now. -/
def Ref.moved (f : Place → Place) (ref : Ref) : Ref := { ref with place := f ref.place }

/-- A write to a column. What stood there is a value of its own from now on, with the references
to it. -/
def Tree.assign (t : Tree α) (P : Place) (w : Option (Value α)) : Tree α where
  forest := t.forest.assign P w
  marks := t.marks.assign P t.forest.next (written_mark w)
  origins := Function.update t.origins t.forest.next .detached
  refs := t.refs.map (Ref.moved (P.detach t.forest.next))

/-- What a type makes of what a reference refers to. -/
def Tree.cast (t : Tree α) (ref : Ref) (oid : Oid) : Except Failure (Option (Value α)) :=
  match t.forest.at ref.place with
  | none => .error .error
  | some v =>
    value_cast types pg (types.nesting oid + 1) oid
      ⟨ref.typeoid, ref.typmod, t.marks.below ref.place, v⟩

/-- What a type makes of what it is given. -/
def Tree.made (t : Tree α) (oid : Oid) : Given α types → Except Failure (Option (Value α))
  | .value v => if v.typeoid = oid then .ok (some v.value) else .error .error
  | .nil => made_of_nil types pg (types.nesting oid + 1) oid
  | .bad => .error .error
  | .ref r =>
    match t.refs[r]? with
    | none => .error .error
    | some ref => t.cast pg ref oid

variable (types) in
/-- A column that nil was assigned to cannot be read. -/
def Tree.index (t : Tree α) (i : Nat) (ref : Ref) : Tree α × Reply α :=
  match types.column ref.typeoid i with
  | none => t.fail
  | some att =>
    let P := ref.place.child i
    if t.marks P = .cleared then t.fail
    else
      match t.forest.at P with
      | none => (t, .nil)
      | some v =>
        if (types.typeinfo att.atttypid).tolua then (t, .value v)
        else
          let typmod := if t.marks P = .raw then -1 else att.atttypmod
          ({ t with refs := t.refs ++ [⟨P, att.atttypid, typmod⟩] }, .ref)

def Tree.newindex (t : Tree α) (i : Nat) (arg : Given α types) (ref : Ref) : Tree α × Reply α :=
  match types.column ref.typeoid i with
  | none => t.fail
  | some att =>
    let t := t.touch ref.place.root
    match t.made pg att.atttypid arg with
    | .error _ => t.fail
    | .ok w => (t.assign (ref.place.child i) w, .nothing)

def Tree.array_element (t : Tree α) (elemtype : Oid) (bytes : α) (idx : List Int) :
    Tree α × Reply α :=
  match pg.array_get_element elemtype bytes idx with
  | none => (t, .nil)
  | some v => if (types.typeinfo elemtype).tolua then (t, .value v) else t.plant elemtype v

/-- An array is read with the list of all its own subscripts, or with an integer, which gives a
list if there are more dimensions. -/
def Tree.element (t : Tree α) (key : Key Ref) (ref : Ref) : Tree α × Reply α :=
  match types.typeinfo ref.typeoid, t.forest.at ref.place with
  | .array elemtype, some (.flat bytes) =>
    match key with
    | .int i =>
      if 1 < pg.ndims bytes then (t, .idxlist ⟨pg.ndims bytes, [i]⟩)
      else t.array_element pg elemtype bytes [i]
    | .idxlist of l =>
      if l.ndim = pg.ndims bytes ∧ l.idx.length = pg.ndims bytes ∧ of.place = ref.place then
        t.array_element pg elemtype bytes l.idx
      else t.fail
  | _, _ => t.fail

def Tree.idxlist_index (t : Tree α) (l : Idxlist) (i : Int) (ref : Ref) : Tree α × Reply α :=
  let l : Idxlist := { l with idx := l.idx ++ [i] }
  if l.ndim ≤ l.idx.length then t.element pg (.idxlist ref l) ref else (t, .idxlist l)

/-- An array that is empty takes any number of subscripts. -/
def Tree.set_element (t : Tree α) (key : Key Ref) (arg : Given α types) (ref : Ref) :
    Tree α × Reply α :=
  match types.typeinfo ref.typeoid, t.forest.at ref.place with
  | .array elemtype, some (.flat bytes) =>
    let t := t.touch ref.place.root
    if key.idx.length < pg.ndims bytes ∨ pg.ndims bytes < key.idx.length ∧ 0 < pg.ndims bytes then
      t.fail
    else
      match t.made pg elemtype arg with
      | .error _ => t.fail
      | .ok v =>
        match pg.array_set_element elemtype bytes key.idx v with
        | none => t.fail
        | some bytes =>
          ({ t with forest := t.forest.write ref.place (some (.flat bytes)) }, .nothing)
  | _, _ => t.fail

def Tree.construct (t : Tree α) (oid : Oid) (ref : Ref) : Tree α × Reply α :=
  match t.cast pg ref oid with
  | .error _ => t.fail
  | .ok none => (t, .nil)
  | .ok (some v) => t.plant oid v

variable (types) in
def Tree.tostring (t : Tree α) (ref : Ref) : Tree α × Reply α :=
  match t.forest.at ref.place with
  | none => t.fail
  | some v =>
    match value_shown types (types.nesting ref.typeoid + 1)
        ⟨ref.typeoid, ref.typmod, t.marks.below ref.place, v⟩ with
    | .error _ => t.fail
    | .ok v => (t, .value v)

def Tree.through (t : Tree α) (r : Nat) (method : Ref → Tree α × Reply α) : Tree α × Reply α :=
  match t.refs[r]? with
  | none => t.fail
  | some ref => method ref

/-- The collector changes nothing that the program can see. -/
def Tree.step (t : Tree α) : Op α types → Tree α × Reply α
  | .create v => t.plant v.typeoid v.value
  | .index r i => t.through r (t.index types i)
  | .newindex r i arg => t.through r (t.newindex pg i arg)
  | .element r key =>
    match key.of t.refs with
    | none => t.fail
    | some key => t.through r (t.element pg key)
  | .set_element r key arg =>
    match key.of t.refs with
    | none => t.fail
    | some key => t.through r (t.set_element pg key arg)
  | .idxlist_index r l i => t.through r (t.idxlist_index pg l i)
  | .idxlist_newindex r _ _ _ => t.through r fun _ => t.fail
  | .construct oid r => t.through r (t.construct pg oid)
  | .tostring r => t.through r (t.tostring types)
  | .lose _ | .finalize _ => (t, .nothing)

end

end pllua.datums
