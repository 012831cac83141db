-- Lua values as the jsonb module handles them: raw equality, the type of a
-- value, table access, and the conversions of lua_tointegerx and lua_tolstring.
import Mathlib.Algebra.Order.Ring.Unbundled.Rat
import Mathlib.Data.List.Sort

namespace pllua.luavalue

@[simp] theorem ok_bind {ε α β : Type} (a : α) (k : α → Except ε β) :
    (Except.ok a >>= k) = k a := rfl

/-- A Lua string. -/
abbrev Bytes := List UInt8

/-- What the module looks up in a metatable. -/
structure Metatable (V : Type) where
  /-- `__jsonb_object`, if it is a boolean -/
  jsonb_object : Option Bool
  /-- `__pairs`: the keys that its iteration gives, in order -/
  pairs : Option (List V)
  /-- `__tostring`: the string it returns, or none if it returns something else -/
  tostring : Option (Option Bytes)

/-- A Lua value. Tables and userdata are told apart by a reference; what a
reference holds is written beside it. `N` are the values of the type numeric,
`D` the datums of the other types. -/
inductive LuaValue (N D : Type)
  | nil
  | boolean (b : Bool)
  | integer (i : Int)
  /-- a finite float -/
  | float (x : Rat)
  | string (s : Bytes)
  /-- a datum of `pgtype.numeric` -/
  | numeric (ref : Nat) (n : N)
  /-- a datum of another type -/
  | datum (ref : Nat) (d : D)
  | table (ref : Nat) (mt : Option (Metatable (LuaValue N D)))
    (fields : List (LuaValue N D × LuaValue N D))
  /-- a userdata that is no datum; `fields` is what indexing it gives -/
  | userdata (ref : Nat) (mt : Option (Metatable (LuaValue N D)))
    (fields : List (LuaValue N D × LuaValue N D))
  /-- a value that the module only compares and names: a function, a thread -/
  | other (ref : Nat) (typename : String)

variable {N D : Type}

namespace LuaValue

/-- The reference that raw equality of two objects compares. -/
def ref? : LuaValue N D → Option Nat
  | .numeric r _ | .datum r _ | .table r _ _ | .userdata r _ _ | .other r _ => some r
  | _ => none

/-- `lua_rawequal`. -/
def rawequal : LuaValue N D → LuaValue N D → Bool
  | .nil, .nil => true
  | .boolean a, .boolean b => a == b
  | .integer a, .integer b => a == b
  | .integer a, .float b => (a : Rat) == b
  | .float a, .integer b => a == (b : Rat)
  | .float a, .float b => a == b
  | .string a, .string b => a == b
  | a, b =>
    match a.ref?, b.ref? with
    | some r, some r' => r == r'
    | _, _ => false

/-- `luaL_typename`. -/
def typename : LuaValue N D → String
  | .nil => "nil"
  | .boolean _ => "boolean"
  | .integer _ | .float _ => "number"
  | .string _ => "string"
  | .numeric .. | .datum .. | .userdata .. => "userdata"
  | .table .. => "table"
  | .other _ typename => typename

/-- `lua_isnil`. -/
def isnil : LuaValue N D → Bool
  | .nil => true
  | _ => false

/-- `lua_isinteger`. -/
def isinteger : LuaValue N D → Bool
  | .integer _ => true
  | _ => false

/-- The metatable; that of a datum holds none of the three fields. -/
def metatable : LuaValue N D → Option (Metatable (LuaValue N D))
  | .table _ mt _ | .userdata _ mt _ => mt
  | _ => none

def fields : LuaValue N D → List (LuaValue N D × LuaValue N D)
  | .table _ _ fs | .userdata _ _ fs => fs
  | _ => []

/-- `lua_gettable` with the value of the index. -/
def gettable (t key : LuaValue N D) : LuaValue N D :=
  match t.fields.find? fun f => rawequal f.1 key with
  | some f => f.2
  | none => .nil

/-- A field of a table is set; a nil takes it out. -/
def setfield (fs : List (LuaValue N D × LuaValue N D)) (key val : LuaValue N D) :
    List (LuaValue N D × LuaValue N D) :=
  if val.isnil then fs.filter fun f => !rawequal f.1 key
  else if fs.any fun f => rawequal f.1 key then
    fs.map fun f => if rawequal f.1 key then (f.1, val) else f
  else fs ++ [(key, val)]

/-- `lua_settable` on a table without `__newindex`. -/
def settable : LuaValue N D → LuaValue N D → LuaValue N D → Except String (LuaValue N D)
  | .table ref mt fs, key, val =>
    if key.isnil then .error "index is nil" else .ok (.table ref mt (setfield fs key val))
  | t, _, _ => .error s!"attempt to index a {t.typename} value"

/-! ### Laws of the fields -/

@[simp] theorem rawequal_self (v : LuaValue N D) : rawequal v v := by
  cases v <;> simp [rawequal, ref?]

@[simp] theorem rawequal_integer (i j : Int) :
    rawequal (.integer i : LuaValue N D) (.integer j) = (i == j) := rfl

@[simp] theorem rawequal_string (s t : Bytes) :
    rawequal (.string s : LuaValue N D) (.string t) = (s == t) := rfl

/-- Two objects with different references are not raw-equal. -/
theorem rawequal_of_ref_ne {a b : LuaValue N D} {r : Nat} (ha : a.ref? = some r)
    (hb : b.ref? ≠ some r) : rawequal a b = false := by
  have hne : ∀ r', b.ref? = some r' → (r == r') = false := by
    intro r' hr'
    exact beq_eq_false_iff_ne.mpr fun h => hb (h ▸ hr')
  cases a <;> cases ha <;> cases b <;> simp_all [rawequal, ref?]

theorem setfield_fresh {fs : List (LuaValue N D × LuaValue N D)} {key val : LuaValue N D}
    (hval : val.isnil = false) (h : ∀ f ∈ fs, rawequal f.1 key = false) :
    setfield fs key val = fs ++ [(key, val)] := by
  have hany : (fs.any fun f => rawequal f.1 key) = false := by
    rw [List.any_eq_false]
    intro f hf
    rw [h f hf]
    exact Bool.false_ne_true
  simp [setfield, hval, hany]

/-- A field is found by its key, where no two fields have the same key. -/
theorem find_field {fs : List (LuaValue N D × LuaValue N D)}
    (h : fs.Pairwise fun f g => rawequal f.1 g.1 = false) {f : LuaValue N D × LuaValue N D}
    (hf : f ∈ fs) : fs.find? (fun g => rawequal g.1 f.1) = some f := by
  induction fs with
  | nil => cases hf
  | cons g fs ih =>
    obtain ⟨hg, hfs⟩ := List.pairwise_cons.mp h
    rcases List.mem_cons.mp hf with rfl | hmem
    · simp
    · rw [List.find?_cons_of_neg (by simp [hg f hmem])]
      exact ih hfs hmem

theorem gettable_of_mem {t : LuaValue N D}
    (h : t.fields.Pairwise fun f g => rawequal f.1 g.1 = false)
    {f : LuaValue N D × LuaValue N D} (hf : f ∈ t.fields) : t.gettable f.1 = f.2 := by
  rw [gettable, find_field h hf]

end LuaValue

/-! ## Lua's library -/

/-- The parts of Lua's library that are left open: how a string reads as a
number, how a float is written, how strings collate, and the order of `lua_next`. -/
structure LuaLib (N D : Type) where
  /-- the integer that a string converts to, if it does -/
  stringtointeger : Bytes → Option Int
  float_tostring : Rat → Bytes
  l_strcmp_lt : Bytes → Bytes → Bool
  /-- the keys of a table in the order of `lua_next` -/
  lua_next : LuaValue N D → List (LuaValue N D)

/-- `lua_next` visits each key of a table once. -/
def Traverses (lib : LuaLib N D) : Prop :=
  ∀ ref mt fs, (lib.lua_next (.table ref mt fs)).Perm (fs.map Prod.fst)

section
variable (lib : LuaLib N D)

/-- `lua_tointegerx`: floats with an integral value and strings convert too. -/
def lua_tointegerx : LuaValue N D → Option Int
  | .integer i => some i
  | .float x => if x.den = 1 ∧ -2 ^ 63 ≤ x.num ∧ x.num < 2 ^ 63 then some x.num else none
  | .string s => lib.stringtointeger s
  | _ => none

/-- `lua_tointeger`: 0 for a value that does not convert. -/
def lua_tointeger (v : LuaValue N D) : Int := (lua_tointegerx lib v).getD 0

/-- `lua_tolstring`, which converts numbers and leaves strings as they are. -/
def lua_tolstring : LuaValue N D → Option Bytes
  | .integer i => some (toString i).toUTF8.toList
  | .float x => some (lib.float_tostring x)
  | .string s => some s
  | _ => none

/-- The number that a value compares as. -/
def tonumber : LuaValue N D → Option Rat
  | .integer i => some i
  | .float x => some x
  | _ => none

/-- The string that a value compares as. -/
def tostring : LuaValue N D → Option Bytes
  | .string s => some s
  | _ => none

/-- `table.sort` with the operator `<`, which compares two numbers or two strings. -/
def table_sort (ks : List (LuaValue N D)) : Except String (List (LuaValue N D)) :=
  if ks.length ≤ 1 then .ok ks
  else if ks.all fun k => (tonumber k).isSome then
    .ok (ks.insertionSort fun a b => (tonumber a).getD 0 ≤ (tonumber b).getD 0)
  else if ks.all fun k => (tostring k).isSome then
    .ok (ks.insertionSort fun a b => ¬ lib.l_strcmp_lt ((tostring b).getD []) ((tostring a).getD []))
  else .error "attempt to compare two values"

variable {lib}

/-- The order in which `table.sort` puts numbers. -/
def numle (a b : LuaValue N D) : Prop := (tonumber a).getD 0 ≤ (tonumber b).getD 0

instance : DecidableRel (numle (N := N) (D := D)) := fun a b =>
  inferInstanceAs (Decidable ((tonumber a).getD 0 ≤ (tonumber b).getD 0))

instance : Std.Total (numle (N := N) (D := D)) := ⟨fun a b =>
  le_total ((tonumber a).getD 0) ((tonumber b).getD 0)⟩

instance : IsTrans (LuaValue N D) numle := ⟨fun a b c =>
  @le_trans Rat _ ((tonumber a).getD 0) ((tonumber b).getD 0) ((tonumber c).getD 0)⟩

/-- Numbers that differ are sorted into their only increasing order. -/
theorem table_sort_numbers {ks ls : List (LuaValue N D)} (hp : ks.Perm ls)
    (hnum : ∀ k ∈ ls, (tonumber k).isSome) (hs : ls.Pairwise numle)
    (hanti : ∀ a ∈ ls, ∀ c ∈ ls, numle a c → numle c a → a = c) : table_sort lib ks = .ok ls := by
  rw [table_sort]
  split
  · rename_i hlen
    congr 1
    match ks, hlen with
    | [], _ => exact (List.nil_perm.mp hp).symm
    | [k], _ => exact List.singleton_perm.mp hp
  · rw [if_pos]
    · congr 1
      have hsort : (ks.insertionSort numle).Perm ls := (List.perm_insertionSort _ ks).trans hp
      exact hsort.eq_of_pairwise
        (fun a c ha hc => hanti a (hsort.subset ha) c hc)
        (List.pairwise_insertionSort numle ks) hs
    · rw [List.all_eq_true]
      exact fun k hk => hnum k (hp.subset hk)

end

end pllua.luavalue
