-- pllua_jsonb_tosql: Lua values become a jsonb. pllua_jsonb_pushkeys decides
-- whether a collection is an object or an array and lists its keys, and the
-- loop pushes the tokens of the open collections.
import Pllua.JsonbMap

open pllua.documents pllua.luavalue

namespace pllua.jsonb

/-! ## The call -/

/-- The fields of the config table. -/
structure TosqlConfig (N D : Type) where
  map : Option (LuaValue N D → LuaValue N D)
  empty_object : Bool
  /-- `array_thresh` and `array_frac`, where they are integers -/
  array_thresh : Option Int
  array_frac : Option Int
  null : LuaValue N D

variable {N D J P : Type}

section
variable (lib : LuaLib N D) (b : Backend N D J P)

/-! ## Keys of a collection -/

/-- A value with the metamethod `__pairs`. -/
def pairs_of (v : LuaValue N D) : Option (List (LuaValue N D)) :=
  v.metatable.bind Metatable.pairs

/-- `pllua_is_container`, for a value that is not a datum. -/
def pllua_is_container (v : LuaValue N D) : Bool :=
  match v with
  | .table .. => true
  | v => (pairs_of v).isSome

/-- What `__tostring` returns, if the value has that metamethod. -/
def tostring_of : LuaValue N D → Option (Option Bytes)
  | .numeric ref n => some (some (b.datum_tostring (.numeric ref n)))
  | .datum ref d => some (some (b.datum_tostring (.datum ref d)))
  | v => v.metatable.bind Metatable.tostring

/-- The locals of the key loop. -/
structure KeyScan (N D : Type) where
  min_intkey : Int
  max_intkey : Int
  numkeys : Int
  numintkeys : Int
  keytab : List (LuaValue N D)
  numkeytab : List (LuaValue N D)

def LUA_MAXINTEGER : Int := 2 ^ 63 - 1

/-- The key as it goes into the table of the keys. -/
def serialized_key (known_array : Bool) (key : LuaValue N D) : Except String (LuaValue N D) :=
  match key with
  | .string _ | .integer _ | .float _ => .ok key
  | .table .. | .userdata .. | .numeric .. | .datum .. =>
    if known_array then .ok key
    else
      match tostring_of b key with
      | none => .error "cannot serialize userdata or table which lacks __tostring as a key"
      | some none => .error "tostring on table or userdata object did not return a string"
      | some (some s) => .ok (.string s)
  | _ => .error s!"cannot serialize scalar value of type {key.typename} as key"

/-- One key of the collection. -/
def scankey (known_array : Bool) (sc : KeyScan N D) (key : LuaValue N D) :
    Except String (KeyScan N D) := do
  let sc := { sc with numkeys := sc.numkeys + 1 }
  let sc :=
    match lua_tointegerx lib key with
    | some intval =>
      { sc with
        max_intkey := if intval > sc.max_intkey then intval else sc.max_intkey
        min_intkey := if intval < sc.min_intkey then intval else sc.min_intkey
        numintkeys := sc.numintkeys + 1
        numkeytab := sc.numkeytab ++ [key] }
    | none => sc
  let key ← serialized_key b known_array key
  .ok { sc with keytab := sc.keytab ++ [key] }

/-- The loop over the keys. -/
def scankeys (known_array : Bool) (v : LuaValue N D) : Except String (KeyScan N D) :=
  ((pairs_of v).getD (lib.lua_next v)).foldlM (scankey lib b known_array)
    ⟨LUA_MAXINTEGER, 0, 0, 0, [], []⟩

/-- The test that makes a collection an object. The product is one of C ints. -/
def is_object (known_object known_array empty_object : Bool) (array_thresh array_frac : BitVec 32)
    (sc : KeyScan N D) : Bool :=
  known_object || (!known_array &&
    ((empty_object && sc.numkeys == 0)
      || (sc.numkeys != sc.numintkeys)
      || decide (sc.min_intkey < 1)
      || (decide (sc.numintkeys > 0) && decide (sc.min_intkey > array_thresh.toInt))
      || (decide (sc.numintkeys > 0) &&
        decide (sc.max_intkey > (array_frac * toint sc.numkeys).toInt))))

/-- An open collection: the four slots of the stack. -/
structure Frame (N D : Type) where
  container : LuaValue N D
  keylist : List (LuaValue N D)
  /-- nil for an object -/
  prevkey : Option (BitVec 32)
  index : Nat

/-- `pllua_jsonb_pushkeys`: the token that begins the collection, and its frame. -/
def pllua_jsonb_pushkeys (empty_object : Bool) (array_thresh array_frac : BitVec 32)
    (v : LuaValue N D) : Except String (JsonbIteratorToken × Frame N D) := do
  let jsonb_object := v.metatable.bind Metatable.jsonb_object
  let known_object := jsonb_object == some true
  let known_array := jsonb_object == some false
  let sc ← scankeys lib b known_array v
  if is_object known_object known_array empty_object array_thresh array_frac sc then
    .ok (.WJB_BEGIN_OBJECT, ⟨v, sc.keytab, none, 1⟩)
  else do
    let keys ← table_sort lib sc.numkeytab
    .ok (.WJB_BEGIN_ARRAY, ⟨v, keys, some 0, 1⟩)

/-! ## Values -/

/-- `pllua_jsonb_from_datum`. -/
def pllua_jsonb_from_datum (d : D) : Except String (JsonbValue N J) := do
  match ← b.to_jsonb d with
  | none => .ok .jbvNull
  | some jb =>
    if b.JB_ROOT_IS_SCALAR jb then
      match b.JsonbIteratorNext false jb with
      | [(.WJB_BEGIN_ARRAY, _), (.WJB_ELEM, some v), (.WJB_END_ARRAY, _)] => .ok v
      | _ => .error "unexpected return from jsonb iterator"
    else .ok (.jbvBinary jb)

def stringvalue (s : Bytes) : Except String (Option (JsonbValue N J)) :=
  if b.pg_verifymbstr s then .ok (some (.jbvString s)) else .error invalid_encoding

/-- `pllua_jsonb_toscalar`: none for a container. -/
def pllua_jsonb_toscalar (v : LuaValue N D) : Except String (Option (JsonbValue N J)) :=
  match v with
  | .nil => .ok (some .jbvNull)
  | .boolean boolean => .ok (some (.jbvBool boolean))
  | .integer _ | .float _ => do
    let n ← b.numeric v
    .ok (some (.jbvNumeric n))
  | .numeric _ n => .ok (some (.jbvNumeric n))
  | .datum _ d => do
    let v ← pllua_jsonb_from_datum b d
    .ok (some v)
  | .userdata .. =>
    if pllua_is_container v then .ok none
    else
      match tostring_of b v with
      | none => .error "cannot serialize userdata which lacks both __pairs and __tostring"
      | some none => .error "tostring on userdata object did not return a string"
      | some (some s) => stringvalue b s
  | .string s => stringvalue b s
  | .table .. => .ok none
  | .other _ typename => .error s!"cannot serialize scalar value of type {typename}"

/-! ## The loop -/

/-- `while (++prevkey != key)`: a null for each position before the key. -/
def pushholes (key prevkey : BitVec 32) (p : P) : Except String P :=
  if prevkey + 1 = key then .ok p
  else do
    let p ← b.pushJsonbValue p (.WJB_ELEM, some .jbvNull)
    pushholes key (prevkey + 1) p
termination_by (key - (prevkey + 1)).toNat
decreasing_by
  have hne : key - (prevkey + 1) ≠ 0 := by
    intro h0
    have := BitVec.sub_eq_iff_eq_add.mp h0
    simp_all
  bv_omega

/-- The state of the loop: the open collections, the innermost first, and the parse. -/
structure TosqlState (N D P : Type) where
  frames : List (Frame N D)
  pstate : P

/-- What the loop reads of its configuration. -/
structure TosqlParams (N D : Type) where
  funcidx : Option (LuaValue N D → LuaValue N D)
  empty_object : Bool
  array_thresh : BitVec 32
  array_frac : BitVec 32
  nullvalue : LuaValue N D

/-- A nil in place of the null value, and then the map function. -/
def mapped (c : TosqlParams N D) (v : LuaValue N D) : LuaValue N D :=
  let v := if LuaValue.rawequal v c.nullvalue then .nil else v
  match c.funcidx with
  | some f => f v
  | none => v

/-- The key of a member: nulls before an element, or the key token. -/
def pushkey (f : Frame N D) (key : LuaValue N D) (p : P) :
    Except String (JsonbIteratorToken × Frame N D × P) :=
  match f.prevkey with
  | some prevkey => do
    let key := toint (lua_tointeger lib key)
    let p ← pushholes b key prevkey p
    .ok (.WJB_ELEM, { f with prevkey := some key }, p)
  | none => do
    let ptr := (lua_tolstring lib key).getD []
    if b.pg_verifymbstr ptr then
      let p ← b.pushJsonbValue p (.WJB_KEY, some (.jbvString ptr))
      .ok (.WJB_VALUE, f, p)
    else .error invalid_encoding

/-- One turn of the loop. -/
def tosqlstep (c : TosqlParams N D) (st : TosqlState N D P) : Except String (TosqlState N D P) :=
  match st.frames with
  | [] => .ok st
  | f :: fs =>
    match f.keylist[f.index - 1]? with
    | none => do
      let tok := if f.prevkey.isNone then .WJB_END_OBJECT else .WJB_END_ARRAY
      let p ← b.pushJsonbValue st.pstate (tok, none)
      .ok ⟨fs, p⟩
    | some key => do
      let f := { f with index := f.index + 1 }
      let value := f.container.gettable key
      let (tok, f, p) ← pushkey lib b f key st.pstate
      let value := mapped c value
      match ← pllua_jsonb_toscalar b value with
      | some pval => do
        let p ← b.pushJsonbValue p (tok, some pval)
        .ok ⟨f :: fs, p⟩
      | none => do
        let (tok, f') ← pllua_jsonb_pushkeys lib b c.empty_object c.array_thresh c.array_frac value
        let p ← b.pushJsonbValue p (tok, none)
        .ok ⟨f' :: f :: fs, p⟩

/-- `while (depth > 0)`: none when the turns run out. -/
def tosqlloop (c : TosqlParams N D) : Nat → TosqlState N D P → Option (Except String P)
  | 0, _ => none
  | turns + 1, st =>
    if st.frames.isEmpty then some (.ok st.pstate)
    else
      match tosqlstep lib b c st with
      | .error e => some (.error e)
      | .ok st => tosqlloop c turns st

/-- What the config table sets; its fields have their defaults without one. -/
def tosqlparams (config : Option (TosqlConfig N D)) : TosqlParams N D :=
  match config with
  | none => ⟨none, false, 1000, 1000, .nil⟩
  | some c =>
    ⟨c.map, c.empty_object, (c.array_thresh.map toint).getD 1000, (c.array_frac.map toint).getD 1000,
      c.null⟩

/-- Without a second argument only a table or a userdata is taken. -/
def declined (nargs : Nat) (value : LuaValue N D) : Bool :=
  decide (nargs < 2) &&
    match value with
    | .table .. | .userdata .. | .numeric .. | .datum .. => false
    | _ => true

/-- `pllua_jsonb_tosql`: none when the turns run out, and no jsonb when it
declines the value. `nargs` counts the arguments. -/
def pllua_jsonb_tosql (nargs : Nat) (value : LuaValue N D) (config : Option (TosqlConfig N D))
    (turns : Nat) : Option (Except String (Option J)) :=
  if declined nargs value then some (.ok none)
  else
    let c := tosqlparams config
    let value := mapped c value
    match pllua_jsonb_toscalar b value with
    | .error e => some (.error e)
    | .ok (some curval) => some ((b.JsonbValueToJsonb curval).map some)
    | .ok none =>
      match pllua_jsonb_pushkeys lib b c.empty_object c.array_thresh c.array_frac value with
      | .error e => some (.error e)
      | .ok (tok, f) =>
        match b.pushJsonbValue b.pstate (tok, none) with
        | .error e => some (.error e)
        | .ok p =>
          (tosqlloop lib b c turns ⟨[f], p⟩).map fun r => do
            let p ← r
            (b.resultToJsonb p).map some

end

end pllua.jsonb
