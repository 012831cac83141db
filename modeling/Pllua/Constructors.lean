-- The constructors of the types: a typeinfo called with one argument. Scalars go through the
-- input of their base type, arrays and rows through the constructors of their elements and
-- columns, and existing datums through the casts.
import Pllua.RowCast
import Mathlib.Algebra.Group.Nat.Defs

open pllua.catalog pllua.rowcast

namespace pllua.constructors

theorem bind_eq_ok {ε α β : Type} {x : Except ε α} {k : α → Except ε β} {b : β}
    (h : (x >>= k) = .ok b) : ∃ a, x = .ok a ∧ k a = .ok b := by
  cases x with
  | error e => cases h
  | ok a => exact ⟨a, rfl, h⟩

theorem map_eq_ok {ε α β : Type} {x : Except ε α} {f : α → β} {b : β}
    (h : x.map f = .ok b) : ∃ a, x = .ok a ∧ f a = b := by
  cases x with
  | error e => cases h
  | ok a =>
    cases h
    exact ⟨a, rfl, rfl⟩

/-! ## Types and values -/

mutual

/-- A type. Only scalars and arrays have a typmod: that of a column, or of the base type of a
domain. -/
inductive Ty
  /-- a base type, an enum or a range -/
  | scalar (oid : Oid) (typmod : Int)
  | array (oid : Oid) (typmod : Int) (elem : Ty)
  | row (oid : Oid) (columns : Columns)
  | domain (oid : Oid) (base : Ty)

/-- The columns of a row type. -/
inductive Columns
  | nil
  | dropped (rest : Columns)
  | column (attname : String) (type : Ty) (rest : Columns)

end

deriving instance DecidableEq for Ty, Columns

def Ty.oid : Ty → Oid
  | .scalar oid _ => oid
  | .array oid _ _ => oid
  | .row oid _ => oid
  | .domain oid _ => oid

def Ty.typmod : Ty → Int
  | .scalar _ typmod => typmod
  | .array _ typmod _ => typmod
  | _ => -1

/-- The base type of a domain, with the typmod that the domain gives it. -/
def Ty.base : Ty → Ty
  | .domain _ base => base.base
  | t => t

/-- The type as it is interned: without the typmod of a column. -/
def Ty.interned : Ty → Ty
  | .scalar oid _ => .scalar oid (-1)
  | .array oid _ elem => .array oid (-1) elem
  | t => t

def Ty.is_domain : Ty → Bool
  | .domain _ _ => true
  | _ => false

/-- The columns, if the base type is a row type. -/
def Ty.columns : Ty → Option Columns
  | .row _ columns => some columns
  | .domain _ base => base.columns
  | _ => none

def Ty.is_array : Ty → Bool
  | .array _ _ _ => true
  | .domain _ base => base.is_array
  | _ => false

/-- `natts` is not negative. -/
def Ty.is_row (t : Ty) : Bool := t.columns.isSome

def Columns.attrs : Columns → List Attribute
  | .nil => []
  | .dropped rest => ⟨"", InvalidOid, -1, true⟩ :: rest.attrs
  | .column attname type rest => ⟨attname, type.oid, type.typmod, false⟩ :: rest.attrs

def Columns.arity : Columns → Nat
  | .nil => 0
  | .dropped rest => rest.arity
  | .column _ _ rest => rest.arity + 1

def Ty.arity (t : Ty) : Nat := (t.columns.map Columns.arity).getD 1

/-- A value that is not null. -/
inductive Value (S : Type)
  | scalar (v : S)
  /-- the length and the lower bound of each dimension, and the elements in row-major order -/
  | array (bounds : List (Nat × Int)) (elems : List (Option (Value S)))
  | row (cols : List (Option (Value S)))

inductive Key
  | integer (k : Int)
  | string (s : String)
deriving DecidableEq

/-- A value of Lua. -/
inductive Lua (S P : Type)
  | nil
  | integer (k : Int)
  | string (s : String)
  /-- any other value that is neither a table nor a datum -/
  | other (p : P)
  | table (entries : List (Key × Lua S P))
  /-- a datum that was not modified -/
  | datum (type : Ty) (value : Value S)
  /-- a modified row: its columns are nil or datums -/
  | exploded (type : Ty) (cols : List (Lua S P))

section
variable {S P : Type}

def Lua.isnil : Lua S P → Bool
  | .nil => true
  | _ => false

/-- The type in the metatable of a datum. -/
def Lua.typeinfo : Lua S P → Option Ty
  | .datum type _ => some type
  | .exploded type _ => some type
  | _ => none

/-- An entry of a table. -/
def entry (key : Key) : List (Key × Lua S P) → Lua S P
  | [] => .nil
  | (k, v) :: entries => if k = key then v else entry key entries

/-- The datum, if it is one of the type and was not modified: its typmod and its value. -/
def Lua.datum_of (argt : Ty) : Lua S P → Option (Int × Value S)
  | .datum type value => if type.interned = argt.interned then some (type.typmod, value) else none
  | _ => none

/-! ## What the constructors call -/

/-- The constraints of a domain, and those of the domains under it: `domain_check`. -/
def domain_accepts (accepts : Oid → Option (Value S) → Bool) : Ty → Option (Value S) → Bool
  | .domain oid base, v => accepts oid v && domain_accepts accepts base v
  | _, _ => true

/-- Code of PostgreSQL, of the transforms and of metamethods. -/
structure Backend (S P : Type) where
  /-- whether the value is a userdata -/
  isuserdata : P → Bool
  /-- `pllua_is_container` for what is not a table -/
  is_container : Lua S P → Bool
  /-- the integer keys that `pairs` gives for a container that is not a table -/
  integer_keys : Lua S P → List Int
  /-- `lua_tointegerx` of a string -/
  tointegerx : String → Option Int
  /-- `lua_geti` of what is neither nil nor a table -/
  geti : Lua S P → Int → Except String (Lua S P)
  /-- `lua_getfield` of a userdata that is not a datum -/
  getfield : P → String → Except String (Lua S P)
  /-- `pllua_datum_transform_tosql`, if there is a transform and it takes the value -/
  transform_tosql : Ty → Lua S P → Option (Except String (Option (Value S)))
  /-- `pllua_datum_from_value` for a base type, if it takes the value -/
  from_value : Ty → Lua S P → Option (Except String (Option (Value S)))
  /-- the input function of a type -/
  raw_input : Ty → String → Except String (Value S)
  /-- the length coercion of a type -/
  length_coercion : Oid → Int → Option (Value S) → Except String (Option (Value S))
  /-- the cast between two types that are not rows, before the check of a domain -/
  coerce : Ty → Ty → Value S → Except String (Option (Value S))
  /-- the constraints of one domain -/
  accepts : Oid → Option (Value S) → Bool
  /-- `domain_in` checks the domain -/
  input_checks : ∀ t s v, raw_input t s = .ok v → domain_accepts accepts t (some v) = true

variable (lib : Backend S P)

/-- `pllua_typeinfo_check_domain`. -/
def pllua_typeinfo_check_domain (t : Ty) (val : Option (Value S)) :
    Except String (Option (Value S)) := do
  let val ← (if t.base.typmod ≠ -1 then lib.length_coercion t.base.oid t.base.typmod val
    else .ok val : Except String (Option (Value S)))
  if domain_accepts lib.accepts t val then pure val
  else throw "value for domain violates its constraints"

/-! ## Arrays from tables -/

def INT_MAX : Int := 2147483647
def MAXDIM : Nat := 6

/-- `MaxAllocSize / sizeof(Datum)` -/
def maxelem : Nat := 134217727

/-- A Lua integer in a C int. -/
def c_int (k : Int) : Int := Int.bmod k (2 ^ 32)

/-- The number of elements, from that of the dimensions before. -/
def count_elements (tnelems : Nat) : List Nat → Except String Nat
  | [] =>
    if tnelems > INT_MAX.toNat then .error "number of elements in array exceeds limit"
    else .ok tnelems
  | dim :: dims =>
    if dim > maxelem / tnelems then .error "number of elements in array exceeds limit"
    else count_elements (tnelems * dim) dims

/-- An index of what stands on the stack, where nil stands for all that is missing below it. -/
def lua_geti (data : Lua S P) (k : Int) : Except String (Lua S P) :=
  match data with
  | .nil => .ok .nil
  | .table entries => .ok (entry (.integer k) entries)
  | data => lib.geti data k

/-- The data on the stack and the current index of each, the topmost first. -/
abbrev Levels (S P : Type) := List (Lua S P × Nat)

/-- The tables down to the last dimension. -/
def pushlevels : Nat → Levels S P → Except String (Levels S P)
  | 0, levels => .ok levels
  | _ + 1, [] => .ok []
  | n + 1, (data, cur) :: levels => do
    let item ← lua_geti lib data cur
    pushlevels n ((item, 1) :: (data, cur) :: levels)

/-- The next index, in the dimension before where one has ended. -/
def rollover (dims : List Nat) : Levels S P → Levels S P
  | [] => []
  | (data, cur) :: levels =>
    if cur + 1 > dims.getD levels.length 0 then rollover dims levels
    else (data, cur + 1) :: levels

/-- The elements, made by the constructor of the element type. -/
def element_loop (construct : Lua S P → Except String (Option (Value S))) (dims : List Nat) :
    Nat → Levels S P → Except String (List (Option (Value S)))
  | 0, _ => .ok []
  | n + 1, [] => .ok (List.replicate (n + 1) none)
  | n + 1, top :: levels => do
    match ← pushlevels lib (dims.length - (top :: levels).length) (top :: levels) with
    | [] => .ok (List.replicate (n + 1) none)
    | (data, cur) :: levels =>
      let item ← lua_geti lib data cur
      let elem ← construct item
      let elems ← element_loop construct dims n (rollover dims ((data, cur) :: levels))
      return elem :: elems

/-- `pllua_typeinfo_array_fromtable`. -/
def pllua_typeinfo_array_fromtable (construct : Lua S P → Except String (Option (Value S)))
    (data : Lua S P) (dims : List Nat) : Except String (Value S) := do
  let nelems ← match dims with
    | [] => pure 0
    | dim :: dims => count_elements dim dims
  if nelems = 0 then return .array [] []
  let elems ← element_loop lib construct dims nelems [(data, 1)]
  return .array (dims.map fun dim => (dim, 1)) elems

/-- The integer that a key counts as. -/
def key_integer : Key → Option Int
  | .integer k => some k
  | .string s => lib.tointegerx s

/-- `pllua_largest_int_key`. -/
def pllua_largest_int_key (data : Lua S P) : Nat :=
  let keys : List Int := match data with
    | .table entries =>
      entries.filterMap fun (e : Key × Lua S P) => if e.2.isnil then none else key_integer lib e.1
    | data => lib.integer_keys data
  keys.foldl (fun n k => if k > 0 ∧ k ≤ INT_MAX ∧ k > n then k.toNat else n) 0

/-- `lua_type` is that of a userdata. -/
def Lua.isuserdata : Lua S P → Bool
  | .datum _ _ => true
  | .exploded _ _ => true
  | .other p => lib.isuserdata p
  | _ => false

def Lua.istable : Lua S P → Bool
  | .table _ => true
  | _ => false

/-- The dimensions in the arguments: `ndim` is their number, `i` that of the next one. -/
def read_dims (ndim i : Nat) : List (Lua S P) → Except String (List Nat)
  | [] => .ok []
  | arg :: args => do
    let dim := c_int (match arg with
      | .integer k => k
      | .string s => (lib.tointegerx s).getD 0
      | _ => 0)
    if dim < 0 ∨ (dim = 0 ∧ ndim > 1) then
      throw s!"invalid dimension {i} ({dim}) for array"
    return dim.toNat :: (← read_dims ndim (i + 1) args)

/-- The keys from 1 on. -/
def numbered (i : Int) : List (Lua S P) → List (Key × Lua S P)
  | [] => []
  | arg :: args => (.integer i, arg) :: numbered (i + 1) args

/-- `pllua_typeinfo_array_call` of an array type with elements of the type `et`. -/
def pllua_typeinfo_array_call (et : Ty) (construct : Lua S P → Except String (Option (Value S)))
    (args : List (Lua S P)) : Except String (Value S) :=
  let values := pllua_typeinfo_array_fromtable lib construct (.table (numbered 1 args))
    [args.length]
  match args with
  | [data] =>
    if data.istable || (data.isuserdata lib && (data.typeinfo.map Ty.interned) ≠ some et.interned
        && lib.is_container data) then
      pllua_typeinfo_array_fromtable lib construct data [pllua_largest_int_key lib data]
    else values
  | data :: .integer k :: dims =>
    if data.istable || data.isuserdata lib then do
      if dims.length + 1 > MAXDIM then
        throw s!"too many dimensions for array (max {MAXDIM})"
      let dims ← read_dims lib (dims.length + 1) 0 (.integer k :: dims)
      pllua_typeinfo_array_fromtable lib construct data dims
    else values
  | _ => values

/-! ## Rows -/

/-- `pllua_typeinfo_push_from_table`. -/
def pllua_typeinfo_push_from_table (getfield : String → Except String (Lua S P)) :
    Columns → Except String (List (Lua S P))
  | .nil => .ok []
  | .dropped rest => pllua_typeinfo_push_from_table getfield rest
  | .column attname _ rest => do
    let arg ← getfield attname
    return arg :: (← pllua_typeinfo_push_from_table getfield rest)

/-- The arguments without a single nil, and with the fields in place of a single table. -/
def expand_args (columns : Columns) : List (Lua S P) → Except String (List (Lua S P))
  | [.table entries] =>
    pllua_typeinfo_push_from_table (fun name => .ok (entry (.string name) entries)) columns
  | [.other p] =>
    if lib.isuserdata p then pllua_typeinfo_push_from_table (lib.getfield p) columns
    else .ok [.other p]
  | [.nil] => .ok []
  | args => .ok args

/-- One argument for each column that is left. -/
def row_args (columns : Columns) (args : List (Lua S P)) : Except String (List (Lua S P)) := do
  let args ← expand_args lib columns args
  if args.length = 0 then return List.replicate columns.arity .nil
  if args.length ≠ columns.arity then
    throw s!"incorrect number of arguments for type constructor (expected {columns.arity} got {args.length})"
  return args

/-- The coercion to the typmod of the column, unless the datum has it. -/
def column_typmod (argt : Ty) (typmod : Option Int) (val : Option (Value S)) :
    Except String (Option (Value S)) :=
  if 0 ≤ argt.typmod ∧ typmod ≠ some argt.typmod then
    lib.length_coercion argt.base.oid argt.typmod val
  else .ok val

/-- The value of one column, given the constructor of its type. -/
def column_value (argt : Ty) (construct : Lua S P → Except String (Option (Value S)))
    (arg : Lua S P) : Except String (Option (Value S)) :=
  if arg.isnil then column_typmod lib argt none none
  else
    match arg.datum_of argt with
    | some (typmod, value) => column_typmod lib argt (some typmod) (some value)
    | none => do
      match ← construct arg with
      | some value => column_typmod lib argt (some (-1)) (some value)
      | none => throw "inconsistency"

/-- `pllua_typeinfo_row_call`, given the loop over the columns. -/
def pllua_typeinfo_row_call (columns : Columns)
    (column_values : List (Lua S P) → Except String (List (Option (Value S))))
    (args : List (Lua S P)) : Except String (Value S) := do
  let args ← row_args lib columns args
  let values ← column_values args
  return .row values

/-! ## Scalars -/

/-- A value of the base type as one of the type. -/
def scalar_checked (t : Ty) (val : Option (Value S)) : Except String (Option (Value S)) :=
  if t.is_domain then pllua_typeinfo_check_domain lib t val else .ok val

/-- `pllua_typeinfo_scalar_call` with one argument. -/
def pllua_typeinfo_scalar_call (t : Ty) (arg : Lua S P) : Except String (Option (Value S)) :=
  match lib.transform_tosql t arg with
  | some r => do
    let val ← r
    let checked ← scalar_checked lib t val
    if val.isNone && checked.isSome then
      throw "domain check returned non-null for null input"
    return checked
  | none =>
    match lib.from_value t.base arg with
    | some r => do scalar_checked lib t (← r)
    | none =>
      match arg with
      | .string str => (lib.raw_input t str).map some
      | _ => .error "incompatible value type"

/-! ## Casts -/

/-- `pllua_datum_deform_tuple`: a datum or nil for each column. -/
def pllua_datum_deform_tuple : Columns → List (Option (Value S)) → List (Lua S P)
  | .nil, _ => []
  | .dropped rest, vals => .nil :: pllua_datum_deform_tuple rest vals.tail
  | .column _ type rest, vals =>
    ((vals.headD none).map (Lua.datum type)).getD .nil :: pllua_datum_deform_tuple rest vals.tail

/-- The columns of a row datum. -/
def Lua.cells (columns : Columns) : Lua S P → List (Lua S P)
  | .datum _ (.row vals) => pllua_datum_deform_tuple columns vals
  | .exploded _ cells => cells
  | _ => []

/-- The loop of `pllua_typeconv_row_coerce` over the source columns. -/
def push_cells : Columns → List Bool → List (Lua S P) → List (Lua S P)
  | .nil, _, _ => []
  | .dropped rest, drops, cells => push_cells rest drops.tail cells.tail
  | .column _ _ rest, drops, cells =>
    if drops.headD false then push_cells rest drops.tail cells.tail
    else cells.headD .nil :: push_cells rest drops.tail cells.tail

/-- The arguments with which a row is put together anew: none if the source columns do not
fit. -/
def coerce_args (src dst : Ty) (src_columns dst_columns : Columns) (d : Lua S P) :
    Option (List (Lua S P)) :=
  let sametype := src.base.oid ≠ RECORDOID && src.base.oid = dst.base.oid
  (match_columns sametype src_columns.attrs dst_columns.attrs).map fun droplist =>
    let args := push_cells src_columns droplist (d.cells src_columns)
    args ++ List.replicate (dst_columns.arity - args.length) .nil

/-- A cast value, once it is checked. -/
def cast_checked (t : Ty) (val : Option (Value S)) : Except String (Option (Value S)) :=
  if t.is_domain && !domain_accepts lib.accepts t val then
    .error "value for domain violates its constraints"
  else .ok val

/-- `pllua_typeinfo_call_datum`: the cast of a datum of the type `src`. -/
def pllua_typeinfo_call_datum (src t : Ty)
    (column_values : List (Lua S P) → Except String (List (Option (Value S)))) (d : Lua S P) :
    Except String (Option (Value S)) :=
  match src.columns, t.columns with
  | none, none =>
    match d with
    | .datum _ value => do cast_checked lib t (← lib.coerce src t value)
    | _ => .error "cannot cast"
  | some src_columns, some columns =>
    match coerce_args src t src_columns columns d with
    | some args => do
      let row ← pllua_typeinfo_row_call lib columns column_values args
      cast_checked lib t (some row)
    | none => .error "cannot cast"
  | _, _ => .error "cannot cast"

/-! ## The constructor of a type -/

/-- Whether the datum is to be the first element or column instead of being cast. -/
def is_element (t src : Ty) : Bool :=
  (t.is_row && (!src.is_row || (t.arity == 1 && t.oid != src.oid))) ||
    (t.is_array && !src.is_array)

/-- The end of `pllua_typeinfo_call`: the constructor for the kind of the base type. -/
def call_by_kind (t : Ty)
    (column_values : List (Lua S P) → Except String (List (Option (Value S))))
    (elem : Option (Ty × (Lua S P → Except String (Option (Value S))))) (arg : Lua S P) :
    Except String (Option (Value S)) :=
  match elem, t.columns with
  | some (et, construct), _ => (pllua_typeinfo_array_call lib et construct [arg]).map some
  | none, some columns => (pllua_typeinfo_row_call lib columns column_values [arg]).map some
  | none, none => pllua_typeinfo_scalar_call lib t arg

/-- `pllua_typeinfo_call` with one argument, given the loop over the columns of a row type and
the constructor for the elements of an array type. -/
def pllua_typeinfo_call (t : Ty)
    (column_values : List (Lua S P) → Except String (List (Option (Value S))))
    (elem : Option (Ty × (Lua S P → Except String (Option (Value S))))) (arg : Lua S P) :
    Except String (Option (Value S)) :=
  match arg.typeinfo with
  | some src =>
    if is_element t src then call_by_kind lib t column_values elem arg
    else pllua_typeinfo_call_datum lib src t column_values arg
  | none => call_by_kind lib t column_values elem arg

mutual

/-- The loop of `pllua_typeinfo_row_call` over the columns of a row type. -/
def row_values : Ty → List (Lua S P) → Except String (List (Option (Value S)))
  | .row _ columns => column_values columns
  | .domain _ base => row_values base
  | _ => fun _ => .ok []

/-- The element type of an array type, and its constructor. -/
def elemtypeinfo : Ty → Option (Ty × (Lua S P → Except String (Option (Value S))))
  | .array _ _ elem =>
    some (elem, fun arg => pllua_typeinfo_call lib elem (row_values elem) (elemtypeinfo elem) arg)
  | .domain _ base => elemtypeinfo base
  | _ => none

def column_values : Columns → List (Lua S P) → Except String (List (Option (Value S)))
  | .nil => fun _ => .ok []
  | .dropped rest => fun args => do return none :: (← column_values rest args)
  | .column _ argt rest => fun args => do
    let val ← column_value lib argt
      (fun arg => pllua_typeinfo_call lib argt (row_values argt) (elemtypeinfo argt) arg)
      (args.headD .nil)
    return val :: (← column_values rest args.tail)

end

/-- The constructor of a type. -/
def construct (t : Ty) : Lua S P → Except String (Option (Value S)) :=
  pllua_typeinfo_call lib t (row_values lib t) (elemtypeinfo lib t)

/-- The constructor of a row type, with any arguments. -/
def construct_row (columns : Columns) : List (Lua S P) → Except String (Value S) :=
  pllua_typeinfo_row_call lib columns (column_values lib columns)

end

end pllua.constructors
