-- pllua_jsonb_map: a jsonb becomes Lua tables. The tokens of the iterator drive
-- a machine on the Lua stack, which holds each open table over its parent's key.
import Pllua.Jsonb

open pllua.documents pllua.luavalue

namespace pllua.jsonb

/-! ## The call -/

/-- A call of the map function: the key, the value and the path. -/
structure Call (N D : Type) where
  key : LuaValue N D
  value : LuaValue N D
  path : List (LuaValue N D)

/-- A map function, which returns a key and a value. -/
abbrev MapFunc (N D : Type) :=
  LuaValue N D → LuaValue N D → List (LuaValue N D) → LuaValue N D × LuaValue N D

/-- The fields of the config table. -/
structure MapConfig (N D : Type) where
  map : Option (MapFunc N D)
  discard : Bool
  norecurse : Bool
  pg_numeric : Bool
  null : LuaValue N D

/-- The second argument. -/
inductive MapArg (N D : Type)
  | table (config : MapConfig N D)
  | function (f : MapFunc N D)
  /-- anything else is the null value -/
  | value (v : LuaValue N D)

def MapArg.config {N D : Type} : MapArg N D → MapConfig N D
  | .table config => config
  | .function f => ⟨some f, false, false, false, .nil⟩
  | .value v => ⟨none, false, false, false, v⟩

variable {N D J P : Type}

/-- The metatable `array_mt` of the module. -/
def array_mt : Metatable (LuaValue N D) := ⟨some false, none, none⟩

/-- The metatable `object_mt` of the module. -/
def object_mt : Metatable (LuaValue N D) := ⟨some true, none, none⟩

/-- A C int from a Lua integer. -/
def toint (i : Int) : BitVec 32 := BitVec.ofInt 32 i

/-! ## The loop -/

/-- The state of the loop. The stack is top first; `patht` holds the path at 1 to
`patht_len`, and what was left in it above. -/
structure MapState (N D : Type) where
  stack : List (LuaValue N D)
  patht : Int → LuaValue N D
  patht_len : Int
  /-- the first reference not in use -/
  next : Nat
  calls : List (Call N D)

namespace MapState

variable (st : MapState N D)

/-- The value at -2. -/
def below : LuaValue N D := st.stack[1]?.getD .nil

def push (v : LuaValue N D) : MapState N D := { st with stack := v :: st.stack }

/-- `lua_pop` of one value. -/
def pop : MapState N D := { st with stack := st.stack.drop 1 }

/-- A table or an object inside another: its key goes on the path. -/
def pushpath : MapState N D :=
  if (st.stack.head?.getD .nil).isnil then st
  else
    { st with
      patht := Function.update st.patht (st.patht_len + 1) (st.stack.head?.getD .nil)
      patht_len := st.patht_len + 1 }

/-- The values that are pushed for the call, `patht_len` of them. A path is popped only where one
was pushed; with a length below 0 `lua_call` would take another value for the function. -/
def path : List (LuaValue N D) :=
  (List.range st.patht_len.toNat).map fun i => st.patht (i + 1)

/-- `lua_newtable` and `lua_setmetatable`. -/
def newtable (mt : Metatable (LuaValue N D)) : MapState N D :=
  { st with stack := .table st.next (some mt) [] :: st.stack, next := st.next + 1 }

/-- `lua_settable(L, -3)`. -/
def settable : Except String (MapState N D) :=
  match st.stack with
  | val :: key :: t :: rest => do
    let t ← t.settable key val
    .ok { st with stack := t :: rest }
  | _ => .error "stack underflow"

/-- `lua_seti(L, -3, i)`. -/
def seti (i : Int) : Except String (MapState N D) :=
  match st.stack with
  | val :: key :: t :: rest => do
    let t ← t.settable (.integer i) val
    .ok { st with stack := key :: t :: rest }
  | _ => .error "stack underflow"

/-- The call of the map function on the key and the value on top of the stack. -/
def callmap (f : Option (MapFunc N D)) : Except String (MapState N D) :=
  match f, st.stack with
  | none, _ => .ok st
  | some f, val :: key :: rest =>
    let r := f key val st.path
    .ok { st with stack := r.2 :: r.1 :: rest, calls := st.calls ++ [⟨key, val, st.path⟩] }
  | some _, _ => .error "stack underflow"

@[simp] theorem pushpath_stack : st.pushpath.stack = st.stack := by
  rw [pushpath]
  split <;> rfl

@[simp] theorem pushpath_next : st.pushpath.next = st.next := by
  rw [pushpath]
  split <;> rfl

@[simp] theorem pushpath_calls : st.pushpath.calls = st.calls := by
  rw [pushpath]
  split <;> rfl

theorem pushpath_of_nil (h : (st.stack.head?.getD .nil).isnil) : st.pushpath = st := by
  rw [pushpath, if_pos h]

theorem pushpath_len (h : (st.stack.head?.getD .nil).isnil = false) :
    st.pushpath.patht_len = st.patht_len + 1 := by
  rw [pushpath, if_neg (by simp [h])]

theorem settable_ok {val key t t' : LuaValue N D} {rest : List (LuaValue N D)}
    (hs : st.stack = val :: key :: t :: rest) (ht : t.settable key val = .ok t') :
    st.settable = .ok { st with stack := t' :: rest } := by
  simp [settable, hs, ht]

theorem seti_ok {i : Int} {val key t t' : LuaValue N D} {rest : List (LuaValue N D)}
    (hs : st.stack = val :: key :: t :: rest) (ht : t.settable (.integer i) val = .ok t') :
    st.seti i = .ok { st with stack := key :: t' :: rest } := by
  simp [seti, hs, ht]

@[simp] theorem callmap_none : st.callmap none = .ok st := rfl

end MapState

section
variable (lib : LuaLib N D) (b : Backend N D J P) (c : MapConfig N D)

/-- The value of a token goes on the stack; a numeric or a jsonb is a new datum. -/
def pushvalue (st : MapState N D) : JsonbValue N J → MapState N D
  | .jbvNull => st.push c.null
  | .jbvBool boolean => st.push (.boolean boolean)
  | .jbvNumeric numeric =>
    { st with next := st.next + 1 }.push
      (if c.pg_numeric then .numeric st.next numeric else b.tonumber numeric)
  | .jbvString string => st.push (.string string)
  | .jbvBinary binary =>
    { st with next := st.next + 1 }.push (.datum st.next (b.jsonb_datum binary))

/-- The end of a container, which is on top of the stack. -/
def endcontainer (st : MapState N D) : Except String (MapState N D) := do
  let is_toplevel := st.below.isnil
  let st := if is_toplevel then st else { st with patht_len := st.patht_len - 1 }
  if c.discard then .ok st
  else
    let st ← st.callmap c.map
    if is_toplevel then .ok st
    else if st.below.isinteger then
      -- the key of a member of an object is a string
      let idx := toint (lua_tointeger lib st.below)
      let st ← st.seti (idx + 1).toInt
      .ok (st.pop.push (.integer (idx + 1).toInt))
    else st.settable

/-- One token. -/
def maptoken (is_scalar : Bool) (st : MapState N D) :
    JsonbIteratorToken × Option (JsonbValue N J) → Except String (MapState N D)
  | (.WJB_BEGIN_ARRAY, _) =>
    if is_scalar then .ok st
    else
      let st := st.pushpath
      let st := if c.discard then st else st.newtable array_mt
      .ok (st.push (.integer 0))
  | (.WJB_BEGIN_OBJECT, _) =>
    let st := st.pushpath
    .ok (if c.discard then st else st.newtable object_mt)
  | (.WJB_KEY, some (.jbvString k)) => .ok (pushvalue b c st (.jbvString k))
  | (.WJB_KEY, _) => .error "unexpected type for jsonb key"
  | (.WJB_VALUE, some v) => do
    let st ← (pushvalue b c st v).callmap c.map
    if c.discard then .ok st else st.settable
  | (.WJB_ELEM, some v) => do
    let st := pushvalue b c st v
    let idx := toint (lua_tointeger lib st.below)
    let st ← st.callmap c.map
    if is_scalar then .ok st
    else
      let st ← if c.discard then .ok st else st.seti (idx + 1).toInt
      .ok (st.pop.push (.integer (idx + 1).toInt))
  | (.WJB_END_ARRAY, _) => if is_scalar then .ok st else endcontainer lib c st.pop
  | (.WJB_END_OBJECT, _) => endcontainer lib c st
  | (_, none) => .error "unexpected return from jsonb iterator"

/-- `pllua_jsonb_map`: the result, if there is one, and the calls of the map
function. `next` is the first reference not in use. -/
def pllua_jsonb_map (next : Nat) (jb : J) (arg : MapArg N D) :
    Except String (Option (LuaValue N D) × List (Call N D)) :=
  let c := arg.config
  if b.JB_ROOT_COUNT jb = 0 then
    .ok (if c.discard then none else some (.table next none []), [])
  else do
    let is_scalar := b.JB_ROOT_IS_SCALAR jb
    -- the table of the path lies under the nil
    let st : MapState N D := ⟨[.nil, .table next none []], fun _ => .nil, 0, next + 1, []⟩
    let st ← (b.JsonbIteratorNext c.norecurse jb).foldlM (maptoken lib b c is_scalar) st
    .ok (if c.discard then none else st.stack.head?, st.calls)

end

end pllua.jsonb
