-- Datums (datum.c): rows that are deformed into child datums, exploded when they are written
-- to and formed again when they are flattened, arrays, and the memory that each points to.
import Pllua.NestedRecords
import Pllua.RowCast

open pllua.catalog pllua.records

namespace pllua.datums

/-! ## Types, and what PostgreSQL does -/

/-- `pllua_typeinfo`, as far as rows and arrays go by it. -/
inductive Typeinfo
  /-- `tolua`: a value of it is handed out as a Lua value, not as a datum -/
  | scalar (typbyval tolua : Bool)
  | range
  | array (elemtype : Oid)
  | row (attrs : List Attribute)
deriving DecidableEq, Repr

def Typeinfo.is_row : Typeinfo → Bool
  | .row _ => true
  | _ => false

def Typeinfo.is_array : Typeinfo → Bool
  | .array _ => true
  | _ => false

def Typeinfo.typbyval : Typeinfo → Bool
  | .scalar typbyval _ => typbyval
  | _ => false

def Typeinfo.tolua : Typeinfo → Bool
  | .scalar _ tolua => tolua
  | _ => false

/-- Values that are detoasted when the row around them is deformed. -/
def Typeinfo.detoasted : Typeinfo → Bool
  | .range => true
  | .row _ => true
  | _ => false

/-- The types of the database, where a domain is like the type that it is over (domains over row
types are left out). PostgreSQL has no row type with itself in a column, nor in the elements of
one. -/
structure Types where
  typeinfo : Oid → Typeinfo
  nesting : Oid → Nat
  nesting_lt : ∀ {oid attrs att}, typeinfo oid = .row attrs → att ∈ attrs →
    nesting att.atttypid < nesting oid
  elem_lt : ∀ {oid elemtype}, typeinfo oid = .array elemtype → nesting elemtype < nesting oid

/-- The column of a row type, unless there is none or it is dropped. -/
def Types.column (types : Types) (oid : Oid) (i : Nat) : Option Attribute :=
  match types.typeinfo oid with
  | .row attrs => attrs[i]?.filter fun att => !att.attisdropped
  | _ => none

/-- The value is one of the type. What a row still stores in a dropped column is never
read, and left out. -/
inductive Wellformed {α : Type} (types : Types) : Oid → Value α → Prop
  | flat {oid : Oid} {bytes : α} : (types.typeinfo oid).is_row = false →
      Wellformed types oid (.flat bytes)
  | row {oid : Oid} {attrs : List Attribute} {cols : List (Option (Value α))} :
      types.typeinfo oid = .row attrs → cols.length = attrs.length →
      (∀ (i : Nat) (att : Attribute) (v : Value α), attrs[i]? = some att →
        cols[i]? = some (some v) → att.attisdropped = false) →
      (∀ (i : Nat) (att : Attribute) (v : Value α), attrs[i]? = some att →
        cols[i]? = some (some v) → Wellformed types att.atttypid v) →
      Wellformed types oid (.row cols)

/-- A value with its type. -/
structure Typed (α : Type) (types : Types) where
  typeoid : Oid
  value : Value α
  wellformed : Wellformed types typeoid value

/-- A datum object. Memory is told apart by its chunk. -/
abbrev Id := Nat

abbrev Chunk := Nat

/-- Code of PostgreSQL that works on the bytes of values, and what Lua makes of them. -/
structure Backend (α : Type) (types : Types) where
  /-- the number of dimensions, which is 0 for an empty array -/
  ndims : α → Nat
  /-- `array_get_element`, with none for a null -/
  array_get_element : (elemtype : Oid) → α → List Int →
    Option { v : Value α // Wellformed types elemtype v }
  /-- `array_set_element`, with none for an error -/
  array_set_element : Oid → α → List Int → Option (Value α) → Option α
  /-- `construct_empty_array`, and `construct_md_array` with one dimension -/
  construct_array : Oid → List (Option (Value α)) → α
  /-- the cast of two types that are no row types, which may be the same, with the check of a
  domain: none for an error. It can return a null. -/
  cast : (src dst : Oid) → Value α → Option (Option { v : Value α // Wellformed types dst v })
  /-- the typmod function of a type, with none for an error. It is strict. -/
  coerce_typmod : Oid → Int → Value α → Option (Value α)
  coerce_wellformed : ∀ {oid : Oid} {typmod : Int} {v w : Value α},
    coerce_typmod oid typmod v = some w → Wellformed types oid v → Wellformed types oid w
  /-- whether a column of a datum is stored compressed or with a short header -/
  extended : Id → Nat → Bool
  /-- `lua_tointegerx` for the name of a column -/
  name_integer : String → Option Int
  /-- what a type makes of the Lua value that a value of another type is handed out as, with none
  for an error. It can be nil. -/
  from_lua : (src dst : Oid) → Value α → Option (Option { v : Value α // Wellformed types dst v })
  /-- what a type that is no row and no array type makes of nil, with none for an error. A domain
  may not take it. -/
  from_nil : (oid : Oid) → Option (Option { v : Value α // Wellformed types oid v })
  /-- `pllua_largest_int_key` for the values of a scalar type that has `__pairs` (jsonb), with none
  for an error -/
  scalar_keys : Oid → Option (Value α → Option Nat)

/-! ## The heap -/

/-- A value of the C type `Datum`: the memory it points to unless it is passed by value,
whether that is an expanded array, and what is there. -/
structure Ptr (α : Type) where
  chunk : Option Chunk
  expanded : Bool
  content : Value α

/-- An entry of a deformed table. A null is true, a dropped column false. -/
inductive Slot
  | datum (d : Id)
  | null
  | dropped
  | absent
deriving DecidableEq, Repr

/-- `pllua_datum`, with the userdata around it. -/
structure Datum (α : Type) where
  typeinfo : Oid
  /-- none for `(Datum) 0` -/
  value : Option (Ptr α)
  typmod : Int
  need_gc : Bool
  modified : Bool
  /-- the user field `.datumref` -/
  datumref : Option Id
  /-- the user field `.deformed` -/
  deformed : Option (List Slot)
  metatable : Bool
  finalised : Bool

structure Heap (α : Type) where
  datum : Id → Datum α
  next : Id
  freed : Chunk → Bool
  next_chunk : Chunk
  /-- freed memory was read or freed again -/
  fault : Bool

/-- Why a value cannot be read. -/
inductive Failure
  | freed
  | error
deriving DecidableEq, Repr

section
variable {α : Type}

def Heap.set (h : Heap α) (x : Id) (d : Datum α) : Heap α :=
  { h with datum := Function.update h.datum x d }

def Heap.crash (h : Heap α) : Heap α := { h with fault := true }

/-- The memory is used. -/
def Heap.use (h : Heap α) (ptr : Ptr α) : Heap α :=
  if ptr.chunk.any h.freed then h.crash else h

/-- `pfree` of what the datum points to. -/
def Heap.pfree (h : Heap α) (ptr : Ptr α) : Heap α :=
  match ptr.chunk with
  | none => h
  | some c => { h.use ptr with freed := Function.update h.freed c true }

/-- What a datum that is not modified points to. -/
def Heap.content (h : Heap α) (x : Id) : Except Failure (Value α) :=
  match (h.datum x).value with
  | none => .error .freed
  | some ptr => if ptr.chunk.any h.freed then .error .freed else .ok ptr.content

variable (types : Types) (pg : Backend α types)

/-- `pllua_newdatum` and `pllua_savedatum`: a datum with a copy of the value. Its number is
the one that was next. -/
def pllua_newdatum (oid : Oid) (v : Value α) (h : Heap α) : Heap α :=
  let t := types.typeinfo oid
  { h with
    datum := Function.update h.datum h.next
      { typeinfo := oid
        value := some ⟨if t.typbyval then none else some h.next_chunk, t.is_array, v⟩
        typmod := -1
        need_gc := !t.typbyval
        modified := false
        datumref := none
        deformed := none
        metatable := true
        finalised := false }
    next := h.next + 1
    next_chunk := h.next_chunk + 1 }

/-- `pllua_savedatum`. -/
def pllua_savedatum (x : Id) (h : Heap α) : Heap α :=
  let d := h.datum x
  let t := types.typeinfo d.typeinfo
  match d.value with
  | none => h
  | some ptr =>
    if t.typbyval then h
    else
      { (h.use ptr).set x
          { d with value := some ⟨some h.next_chunk, t.is_array, ptr.content⟩, need_gc := true } with
        next_chunk := h.next_chunk + 1 }

/-! ## Deforming -/

/-- The child datum of a column. -/
def child_datum (x : Id) (ptr : Ptr α) (chunk : Chunk) (i : Nat) (att : Attribute)
    (v : Value α) : Datum α :=
  let t := types.typeinfo att.atttypid
  let needsave := t.detoasted && pg.extended x i
  { typeinfo := att.atttypid
    value := some
      ⟨if t.typbyval then none else if needsave then some (chunk + i) else ptr.chunk, false, v⟩
    typmod := att.atttypmod
    need_gc := needsave
    modified := false
    datumref := some x
    deformed := none
    metatable := true
    finalised := false }

def child_slot (next : Id) (v : Value α) (i : Nat) (att : Attribute) : Slot :=
  if att.attisdropped then .dropped
  else
    match v.col i with
    | none => .null
    | some _ => .datum (next + i)

/-- The table and the child datums of a row. The child of a column gets the number of the
column. -/
def deform_columns (x : Id) (ptr : Ptr α) (attrs : List Attribute) (h : Heap α) : Heap α :=
  { h with
    datum := fun y =>
      if y = x then
        { h.datum x with deformed := some (attrs.mapIdx (child_slot h.next ptr.content)) }
      else if y < h.next then h.datum y
      else
        match attrs[y - h.next]?, ptr.content.col (y - h.next) with
        | some att, some v => child_datum types pg x ptr h.next_chunk (y - h.next) att v
        | _, _ => h.datum y
    next := h.next + attrs.length
    next_chunk := h.next_chunk + attrs.length }

/-- `pllua_datum_deform_tuple`. -/
def pllua_datum_deform_tuple (x : Id) (h : Heap α) : Heap α :=
  match (h.datum x).deformed, (h.datum x).value, types.typeinfo (h.datum x).typeinfo with
  | none, some ptr, .row attrs => deform_columns types pg x ptr attrs (h.use ptr)
  | _, _, _ => h

/-! ## Exploding -/

/-- A loop over the datums of a deformed table. -/
def each_datum (f : Id → Heap α → Heap α) : List Slot → Heap α → Heap α
  | [], h => h
  | .datum c :: slots, h => each_datum f slots (f c h)
  | _ :: slots, h => each_datum f slots h

/-- A child that depends on the row is saved. -/
def save_child (c : Id) (h : Heap α) : Heap α :=
  let d := h.datum c
  if !d.need_gc && !d.modified then pllua_savedatum types c h else h

/-- The end of `pllua_datum_explode_tuple_inner`: the row gives up its tuple and the
references. -/
def drop_tuple (x : Id) (slots : List Slot) (h : Heap α) : Heap α :=
  let d := h.datum x
  let h' := match d.need_gc, d.value with
    | true, some ptr => h.pfree ptr
    | _, _ => h
  { h' with
    datum := fun y =>
      if y = x then { d with modified := true, need_gc := false, value := none, datumref := none }
      else if .datum y ∈ slots then { h.datum y with datumref := none }
      else h.datum y }

/-- `pllua_datum_explode_tuple_inner`, with `pllua_datum_explode_tuple_recurse` as its first
loop. The number bounds how deep rows nest. -/
def pllua_datum_explode_tuple_inner : Nat → Id → Heap α → Heap α
  | 0, _, h => h
  | n + 1, x, h =>
    match (h.datum x).value, (h.datum x).deformed with
    | some _, some slots =>
      let h := each_datum
        (fun c h =>
          if (types.typeinfo (h.datum c).typeinfo).is_row then
            pllua_datum_explode_tuple_inner n c (pllua_datum_deform_tuple types pg c h)
          else h)
        slots h
      drop_tuple x slots (each_datum (save_child types) slots h)
    | _, _ => h

/-- The loop that finds the ultimate parent. A parent has a smaller number. -/
def ultimate_parent (h : Heap α) : Nat → Id → Id
  | 0, x => x
  | n + 1, x =>
    match (h.datum x).datumref with
    | none => x
    | some y => ultimate_parent h n y

/-- `pllua_datum_explode_tuple`. -/
def pllua_datum_explode_tuple (x : Id) (h : Heap α) : Heap α :=
  let h := pllua_datum_deform_tuple types pg x h
  match (h.datum x).value with
  | none => h
  | some _ =>
    let u := ultimate_parent h x x
    let h := pllua_datum_deform_tuple types pg u h
    pllua_datum_explode_tuple_inner types pg (types.nesting (h.datum u).typeinfo + 1) u h

/-! ## Reading columns -/

/-- `struct idxlist`: the subscripts so far of an array with `ndim` dimensions. -/
structure Idxlist where
  ndim : Nat
  idx : List Int
deriving DecidableEq, Repr

inductive Result (α : Type)
  | nothing
  | nil
  | value (v : Value α)
  | datum (x : Id)
  | idxlist (l : Idxlist)
  | error

/-- An error, or a crash. -/
def failed (h : Heap α) : Failure → Heap α × Result α
  | .freed => (h.crash, .error)
  | .error => (h, .error)

/-- `pllua_datum_column`. -/
def pllua_datum_column (slot : Option Slot) (h : Heap α) : Heap α × Result α :=
  match slot with
  | some (.datum c) =>
    if (types.typeinfo (h.datum c).typeinfo).tolua then
      match h.content c with
      | .ok v => (h, .value v)
      | .error e => failed h e
    else (h, .datum c)
  | some .null | some .dropped => (h, .nil)
  | some .absent | none => (h, .error)

/-- `pllua_datum_row_index` for a column. -/
def pllua_datum_row_index (x : Id) (i : Nat) (h : Heap α) : Heap α × Result α :=
  match types.column (h.datum x).typeinfo i with
  | none => (h, .error)
  | some _ =>
    let h := pllua_datum_deform_tuple types pg x h
    pllua_datum_column types ((h.datum x).deformed.bind (·[i]?)) h

/-! ## Constructors -/

/-- `pllua_typeinfo_coerce_typmod`. A row type has no typmod function. -/
def pllua_typeinfo_coerce_typmod (oid : Oid) (typmod : Int) (v : Value α) :
    Except Failure (Value α) :=
  if (types.typeinfo oid).is_row then .ok v
  else
    match pg.coerce_typmod oid typmod v with
    | none => .error .error
    | some w => .ok w

/-- The datum of an entry, or nil where the entry is a null or missing. -/
def Slot.datum? : Slot → Option Id
  | .datum c => some c
  | _ => none

/-- The loop of `pllua_typeconv_row_coerce`: the live columns of the source are pushed. Its
droplist is empty, since a row type has one version here. -/
def push_columns {β : Type} : List Attribute → List (Option β) → List (Option β)
  | att :: attrs, col :: cols =>
    if att.attisdropped then push_columns attrs cols else col :: push_columns attrs cols
  | _, _ => []

/-- A column of `pllua_typeinfo_row_call`. A datum of the type of the column is taken as it is,
unless it is modified; from another one the type makes a datum. -/
def column_value
    (construct : Oid → Id → Heap α → Heap α × Except Failure (Option (Value α)))
    (att : Attribute) (c : Id) (h : Heap α) : Heap α × Except Failure (Value α) :=
  let d := h.datum c
  let taken := d.typeinfo = att.atttypid ∧ d.modified = false
  let made := if taken then (h, (h.content c).map some) else construct att.atttypid c h
  match made with
  | (h, .error e) => (h, .error e)
  | (h, .ok none) => (h, .error .error)
  | (h, .ok (some v)) =>
    if 0 ≤ att.atttypmod ∧ ¬ (taken ∧ d.typmod = att.atttypmod) then
      (h, pllua_typeinfo_coerce_typmod types pg att.atttypid att.atttypmod v)
    else (h, .ok v)

/-- The loop of `pllua_typeinfo_row_call` over the columns, with nil for missing arguments. -/
def row_call {β σ : Type} (f : Attribute → β → σ → σ × Except Failure (Value α)) :
    List Attribute → List (Option β) → σ → σ × Except Failure (List (Option (Value α)))
  | [], _, s => (s, .ok [])
  | att :: attrs, args, s =>
    if att.attisdropped then
      let (s, vs) := row_call f attrs args s
      (s, vs.map (none :: ·))
    else
      match args.headD none with
      | none =>
        let (s, vs) := row_call f attrs args.tail s
        (s, vs.map (none :: ·))
      | some arg =>
        match f att arg s with
        | (s, .error e) => (s, .error e)
        | (s, .ok v) =>
          let (s, vs) := row_call f attrs args.tail s
          (s, vs.map (some v :: ·))

/-- What a type makes of nil: a row of nulls, an array with one element that is made of nil, or
what a scalar makes of it. -/
def made_of_nil : Nat → Oid → Except Failure (Option (Value α))
  | 0, _ => .error .error
  | n + 1, oid =>
    match types.typeinfo oid with
    | .row attrs => .ok (some (.row (List.replicate attrs.length none)))
    | .array elemtype =>
      (made_of_nil n elemtype).map fun v => some (.flat (pg.construct_array elemtype [v]))
    | _ =>
      match pg.from_nil oid with
      | none => .error .error
      | some w => .ok (w.map (·.val))

/-- A loop over a list that ends at the first error. -/
def in_turn {β γ σ : Type} (f : β → σ → σ × Except Failure γ) :
    List β → σ → σ × Except Failure (List γ)
  | [], s => (s, .ok [])
  | b :: bs, s =>
    match f b s with
    | (s, .error e) => (s, .error e)
    | (s, .ok v) =>
      let (s, vs) := in_turn f bs s
      (s, vs.map (v :: ·))

/-- `pllua_largest_int_key` for the names of the columns. -/
def pllua_largest_int_key (integer : String → Option Int) (attrs : List Attribute) : Nat :=
  attrs.foldl
    (fun n att =>
      if att.attisdropped then n
      else
        match integer att.attname with
        | some k => if 0 < k ∧ k ≤ 2147483647 ∧ n < k then k.toNat else n
        | none => n)
    0

/-- A column that a loop with `pairs` reads. -/
def read_column (x : Id) (i : Nat) (h : Heap α) : Heap α × Except Failure Unit :=
  match pllua_datum_column types ((h.datum x).deformed.bind (·[i]?)) h with
  | (h, .error) => (h, .error .error)
  | (h, _) => (h, .ok ())

/-- An element of an array that is made of a row, which is the column with its number. -/
def element_value
    (construct : Oid → Id → Heap α → Heap α × Except Failure (Option (Value α)))
    (elemtype : Oid) (x : Id) (i : Nat) (h : Heap α) : Heap α × Except Failure (Option (Value α)) :=
  match types.column (h.datum x).typeinfo i, pllua_datum_row_index types pg x i h with
  | some att, (h, .value v) =>
    match pg.from_lua att.atttypid elemtype v with
    | none => (h, .error .error)
    | some w => (h, .ok (w.map (·.val)))
  | _, (h, .datum c) => construct elemtype c h
  | _, (h, .nil) => (h, made_of_nil types pg (types.nesting elemtype + 1) elemtype)
  | _, (h, _) => (h, .error .error)

/-- The columns of a row that an array type takes for a container, as every row is that is no
element. -/
def Types.container (types : Types) (src elemtype : Oid) : Option (List Attribute) :=
  match types.typeinfo src with
  | .row attrs => if src = elemtype then none else some attrs
  | _ => none

/-- The same for a scalar with `__pairs`: how it finds the largest key. -/
def scalar_container (src elemtype : Oid) : Option (Value α → Option Nat) :=
  if src = elemtype then none else pg.scalar_keys src

/-- An array that is made of such a scalar. It is no indexable type, so that reading an element
raises an error. -/
def array_of_scalar (elemtype : Oid) (largest : Option Nat) : Except Failure (Option (Value α)) :=
  if largest = some 0 then .ok (some (.flat (pg.construct_array elemtype []))) else .error .error

/-- `pllua_typeinfo_array_call` for a datum. -/
def pllua_typeinfo_array_call
    (construct : Oid → Id → Heap α → Heap α × Except Failure (Option (Value α)))
    (elemtype : Oid) (x : Id) (h : Heap α) : Heap α × Except Failure (Option (Value α)) :=
  match types.container (h.datum x).typeinfo elemtype with
  | none =>
    match scalar_container types pg (h.datum x).typeinfo elemtype with
    | some largest => (h, (h.content x).bind fun v => array_of_scalar types pg elemtype (largest v))
    | none =>
      let (h, v) := construct elemtype x h
      (h, v.map fun v => some (.flat (pg.construct_array elemtype [v])))
  | some attrs =>
    match in_turn (read_column types x) (List.range attrs.length)
        (pllua_datum_deform_tuple types pg x h) with
    | (h, .error e) => (h, .error e)
    | (h, .ok _) =>
      let (h, vs) := in_turn (element_value types pg construct elemtype x)
        (List.range (pllua_largest_int_key pg.name_integer attrs)) h
      (h, vs.map fun vs => some (.flat (pg.construct_array elemtype vs)))

def arity (attrs : List Attribute) : Nat := attrs.countP fun att => !att.attisdropped

/-- The condition of `pllua_typeinfo_call` for a datum to become the first element of the value
instead of being cast. -/
def Types.as_element (src oid : Oid) : Bool :=
  match types.typeinfo oid with
  | .row attrs => !(types.typeinfo src).is_row || (arity attrs = 1 && oid ≠ src)
  | .array _ => !(types.typeinfo src).is_array
  | _ => false

/-- `pllua_typeinfo_call` for a datum, with the casts of `pllua_typeconv_create`: the value that
the type makes of it, with none for a null. The number bounds how deep types nest. -/
def pllua_typeinfo_call_datum :
    Nat → Oid → Id → Heap α → Heap α × Except Failure (Option (Value α))
  | 0, _, _, h => (h, .error .error)
  | n + 1, oid, x, h =>
    let src := (h.datum x).typeinfo
    if types.as_element src oid then
      match types.typeinfo oid with
      | .row attrs =>
        if arity attrs = 1 then
          let (h, cols) :=
            row_call (column_value types pg (pllua_typeinfo_call_datum n)) attrs [some x] h
          (h, cols.map fun cols => some (.row cols))
        else (h, .error .error)
      | .array elemtype =>
        pllua_typeinfo_array_call types pg (pllua_typeinfo_call_datum n) elemtype x h
      | _ => (h, .error .error)
    else
      match types.typeinfo src, types.typeinfo oid with
      | .row src_attrs, .row attrs =>
        match rowcast.match_columns (src = oid) src_attrs attrs with
        | none => (h, .error .error)
        | some _ =>
          let h := pllua_datum_deform_tuple types pg x h
          let slots := (h.datum x).deformed.getD []
          let args := push_columns src_attrs (slots.map Slot.datum?)
          if arity attrs < args.length then (h, .error .error)
          else
            let (h, cols) :=
              row_call (column_value types pg (pllua_typeinfo_call_datum n)) attrs args h
            (h, cols.map fun cols => some (.row cols))
      | .row _, _ | _, .row _ => (h, .error .error)
      | _, _ =>
        match h.content x with
        | .error e => (h, .error e)
        | .ok v =>
          match pg.cast src oid v with
          | none => (h, .error .error)
          | some w => (h, .ok (w.map (·.val)))

/-- What is handed to a constructor. -/
inductive Arg (α : Type) (types : Types)
  | nil
  /-- a Lua value, and what the constructor makes of it -/
  | value (v : Typed α types)
  | datum (x : Id)
  /-- a value that the constructor does not take -/
  | bad

/-- `pllua_typeinfo_call` with one argument: the value that the type makes, with none for
nil. -/
def pllua_typeinfo_call (oid : Oid) (arg : Arg α types) (h : Heap α) :
    Heap α × Except Failure (Option (Value α)) :=
  match arg with
  | .nil => (h, made_of_nil types pg (types.nesting oid + 1) oid)
  | .value v => (h, if v.typeoid = oid then .ok (some v.value) else .error .error)
  | .datum x => pllua_typeinfo_call_datum types pg (types.nesting oid + 1) oid x h
  | .bad => (h, .error .error)

/-! ## Access to rows and arrays -/

def Datum.set_slot (d : Datum α) (i : Nat) (slot : Slot) : Datum α :=
  { d with deformed := d.deformed.map (·.set i slot) }

/-- `pllua_datum_row_newindex` for a column. -/
def pllua_datum_row_newindex (x : Id) (i : Nat) (arg : Arg α types) (h : Heap α) :
    Heap α × Result α :=
  match types.column (h.datum x).typeinfo i with
  | none => (h, .error)
  | some att =>
    let h := pllua_datum_explode_tuple types pg x h
    match pllua_typeinfo_call types pg att.atttypid arg h with
    | (h, .error e) => failed h e
    | (h, .ok none) => (h.set x ((h.datum x).set_slot i .absent), .nothing)
    | (h, .ok (some v)) =>
      let h' := pllua_newdatum types att.atttypid v h
      (h'.set x ((h'.datum x).set_slot i (.datum h.next)), .nothing)

/-- `pllua_datum_array_value`. -/
def pllua_datum_array_value (x : Id) (h : Heap α) : Heap α :=
  let d := h.datum x
  match d.value with
  | none => h.crash
  | some ptr =>
    if ptr.expanded then h
    else
      { (h.use ptr).set x
          { d with value := some ⟨some h.next_chunk, true, ptr.content⟩, need_gc := true } with
        next_chunk := h.next_chunk + 1 }

/-- What an array is indexed by: an integer, or a list of subscripts with the array it is of. -/
inductive Key (β : Type)
  | int (i : Int)
  | idxlist (of : β) (l : Idxlist)

/-- An element as the program gets it, by `pllua_datum_single`. -/
def array_element (elemtype : Oid) (bytes : α) (idx : List Int) (h : Heap α) :
    Heap α × Result α :=
  match pg.array_get_element elemtype bytes idx with
  | none => (h, .nil)
  | some v =>
    if (types.typeinfo elemtype).tolua then (h, .value v)
    else (pllua_newdatum types elemtype v h, .datum h.next)

/-- `pllua_datum_array_index`. -/
def pllua_datum_array_index (x : Id) (key : Key Id) (h : Heap α) : Heap α × Result α :=
  match types.typeinfo (h.datum x).typeinfo with
  | .array elemtype =>
    let h := pllua_datum_array_value x h
    match h.content x with
    | .ok (.flat bytes) =>
      match key with
      | .int i =>
        if 1 < pg.ndims bytes then (h, .idxlist ⟨pg.ndims bytes, [i]⟩)
        else array_element types pg elemtype bytes [i] h
      | .idxlist y l =>
        if l.ndim = pg.ndims bytes ∧ l.idx.length = pg.ndims bytes ∧ y = x then
          array_element types pg elemtype bytes l.idx h
        else (h, .error)
    | .ok (.row _) => (h, .error)
    | .error e => failed h e
  | _ => (h, .error)

/-- `pllua_datum_idxlist_index` for a list of a datum. -/
def pllua_datum_idxlist_index (x : Id) (l : Idxlist) (i : Int) (h : Heap α) : Heap α × Result α :=
  let l : Idxlist := { l with idx := l.idx ++ [i] }
  if l.ndim ≤ l.idx.length then pllua_datum_array_index types pg x (.idxlist x l) h
  else (h, .idxlist l)

/-- `pllua_datum_idxlist_newindex`. With too few subscripts it raises an error. With all of them
it assigns to the list itself, which takes no list for a subscript. -/
def pllua_datum_idxlist_newindex (h : Heap α) : Heap α × Result α := (h, .error)

/-- The subscripts of an assignment. An array does not look whose list it is. -/
def Key.idx {β : Type} : Key β → List Int
  | .int i => [i]
  | .idxlist _ l => l.idx

/-- The end of `pllua_datum_array_newindex`. -/
def set_element (elemtype : Oid) (x : Id) (idx : List Int) (v : Option (Value α)) (h : Heap α) :
    Heap α × Result α :=
  match h.content x, (h.datum x).value with
  | .ok (.flat bytes), some ptr =>
    match pg.array_set_element elemtype bytes idx v with
    | none => (h, .error)
    | some bytes =>
      (h.set x { h.datum x with value := some { ptr with content := .flat bytes } }, .nothing)
  | .error e, _ => failed h e
  | _, _ => (h, .error)

/-- `pllua_datum_array_newindex`. -/
def pllua_datum_array_newindex (x : Id) (key : Key Id) (arg : Arg α types) (h : Heap α) :
    Heap α × Result α :=
  match types.typeinfo (h.datum x).typeinfo with
  | .array elemtype =>
    let h := match (h.datum x).datumref with
      | some y => pllua_datum_explode_tuple types pg y h
      | none => h
    let h := pllua_datum_array_value x h
    match h.content x with
    | .ok (.flat bytes) =>
      -- not enough subscripts, or too many
      if key.idx.length < pg.ndims bytes ∨ pg.ndims bytes < key.idx.length ∧ 0 < pg.ndims bytes then
        (h, .error)
      else
        match pllua_typeinfo_call types pg elemtype arg h with
        | (h, .error e) => failed h e
        | (h, .ok v) => set_element types pg elemtype x key.idx v h
    | .ok (.row _) => (h, .error)
    | .error e => failed h e
  | _ => (h, .error)

/-- `pllua_typeinfo_call`, as the program calls it with a datum. -/
def pllua_typeinfo_call_result (oid : Oid) (x : Id) (h : Heap α) : Heap α × Result α :=
  match pllua_typeinfo_call types pg oid (.datum x) h with
  | (h, .error e) => failed h e
  | (h, .ok none) => (h, .nil)
  | (h, .ok (some v)) => (pllua_newdatum types oid v h, .datum h.next)

/-! ## Texts -/

/-- `pllua_datum_tostring`, as far as the value that the output function is given. -/
def pllua_datum_tostring (x : Id) (h : Heap α) : Heap α × Except Failure (Value α) :=
  if (h.datum x).modified then
    match pllua_typeinfo_call types pg (h.datum x).typeinfo (.datum x) h with
    | (h, .error e) => (h, .error e)
    | (h, .ok none) => (h, .error .error)
    | (h, .ok (some v)) => (h, .ok v)
  else (h, h.content x)

/-- A column of a text. -/
def column_text (text : Id → Heap α → Heap α × Except Failure (Value α)) (x : Id) (i : Nat)
    (h : Heap α) : Heap α × Except Failure (Option (Value α)) :=
  match (h.datum x).deformed.bind (·[i]?) with
  | some (.datum c) =>
    let (h, v) := text c h
    (h, v.map some)
  | some .null | some .dropped => (h, .ok none)
  | some .absent | none => (h, .error .error)

/-- `pllua_datum_row_tostring`, which every row of a named type has: the columns as they are. -/
def pllua_datum_row_tostring (text : Id → Heap α → Heap α × Except Failure (Value α))
    (attrs : List Attribute) (x : Id) (h : Heap α) : Heap α × Except Failure (Value α) :=
  let (h, cols) := in_turn (column_text text x) (List.range attrs.length)
    (pllua_datum_deform_tuple types pg x h)
  (h, cols.map .row)

/-- `luaL_tolstring` for a datum. The number bounds how deep rows nest. -/
def luaL_tolstring : Nat → Id → Heap α → Heap α × Except Failure (Value α)
  | 0, _, h => (h, .error .error)
  | n + 1, x, h =>
    match types.typeinfo (h.datum x).typeinfo with
    | .row attrs => pllua_datum_row_tostring types pg (luaL_tolstring n) attrs x h
    | _ => pllua_datum_tostring types pg x h

/-- `tostring`, as the program calls it. -/
def tostring_result (x : Id) (h : Heap α) : Heap α × Result α :=
  match luaL_tolstring types pg (types.nesting (h.datum x).typeinfo + 1) x h with
  | (h, .error e) => failed h e
  | (h, .ok v) => (h, .value v)

/-! ## Finalizers -/

/-- `pllua_datum_gc`. -/
def pllua_datum_gc (x : Id) (h : Heap α) : Heap α :=
  let d := h.datum x
  match d.need_gc, d.value with
  | true, some ptr =>
    (h.pfree ptr).set x { d with need_gc := false, metatable := false, finalised := true }
  | _, _ => h.set x { d with finalised := true }

end

end pllua.datums
