-- What jsonb.c calls in PostgreSQL: the tokens of the jsonb iterator, the values
-- they carry, and the functions that take a jsonb apart and build one.
import Pllua.Documents
import Pllua.LuaValues

open pllua.documents pllua.luavalue

namespace pllua.jsonb

/-! ## Values and tokens -/

/-- `JsonbValue`, as far as the module makes or reads one. -/
inductive JsonbValue (N J : Type)
  | jbvNull
  | jbvBool (boolean : Bool)
  | jbvNumeric (numeric : N)
  | jbvString (string : Bytes)
  /-- a container that is a jsonb already -/
  | jbvBinary (binary : J)

/-- `JsonbIteratorToken`. -/
inductive JsonbIteratorToken
  | WJB_KEY
  | WJB_VALUE
  | WJB_ELEM
  | WJB_BEGIN_ARRAY
  | WJB_END_ARRAY
  | WJB_BEGIN_OBJECT
  | WJB_END_OBJECT
  deriving DecidableEq

/-- The scalars of json. -/
inductive Scalar (N : Type)
  | null
  | bool (b : Bool)
  | numeric (n : N)
  | string (s : Bytes)

/-- What a jsonb says: its objects have distinct keys. -/
abbrev Json (N : Type) := Doc Bytes (Scalar N)

variable {N J : Type}

def Scalar.toJsonbValue : Scalar N → JsonbValue N J
  | .null => .jbvNull
  | .bool b => .jbvBool b
  | .numeric n => .jbvNumeric n
  | .string s => .jbvString s

/-- A token of a document, as the iterator gives it and `pushJsonbValue` takes it. -/
def event : Token Bytes (Scalar N) → JsonbIteratorToken × Option (JsonbValue N J)
  | .beginArray => (.WJB_BEGIN_ARRAY, none)
  | .endArray => (.WJB_END_ARRAY, none)
  | .beginObject => (.WJB_BEGIN_OBJECT, none)
  | .endObject => (.WJB_END_OBJECT, none)
  | .elem s => (.WJB_ELEM, some s.toJsonbValue)
  | .key k => (.WJB_KEY, some (.jbvString k))
  | .value s => (.WJB_VALUE, some s.toJsonbValue)

/-! ## PostgreSQL -/

/-- The functions of PostgreSQL that the module calls. `J` are the jsonb values,
`P` the states of a parse, `D` the datums of types other than numeric. -/
structure Backend (N D J P : Type) where
  JB_ROOT_COUNT : J → Nat
  JB_ROOT_IS_SCALAR : J → Bool
  /-- what the calls of `JsonbIteratorNext` give up to `WJB_DONE`; the flag is
  `skipNested`, from the second call on -/
  JsonbIteratorNext : Bool → J → List (JsonbIteratorToken × Option (JsonbValue N J))
  /-- the parse state before the first token -/
  pstate : P
  pushJsonbValue : P → JsonbIteratorToken × Option (JsonbValue N J) → Except String P
  /-- `JsonbValueToJsonb` of the value that the last push returned -/
  resultToJsonb : P → Except String J
  JsonbValueToJsonb : JsonbValue N J → Except String J
  pg_verifymbstr : Bytes → Bool
  /-- a datum of type jsonb -/
  jsonb_datum : J → D
  /-- the call of a datum's `to_jsonb` function: none for a null result -/
  to_jsonb : D → Except String (Option J)
  /-- the constructor of `pgtype.numeric` on a Lua number -/
  numeric : LuaValue N D → Except String N
  /-- the method `tonumber` of a numeric -/
  tonumber : N → LuaValue N D
  /-- the `__tostring` of a datum -/
  datum_tostring : LuaValue N D → Bytes

/-- The text of the error that `pg_verifymbstr` raises. -/
def invalid_encoding : String := "invalid byte sequence for encoding"

variable {D P : Type}

/-- What the iterator gives for a document: it puts a dummy array around a scalar. -/
def iterated : Json N → List (Token Bytes (Scalar N))
  | .scalar s => [.beginArray, .elem s, .endArray]
  | d => d.listed .elem

/-- The count in the header of the root. -/
def root_count : Json N → Nat
  | .scalar _ => 1
  | .array xs => xs.length
  | .object ms => ms.length

def root_is_scalar : Json N → Bool
  | .scalar _ => true
  | _ => false

/-- The count of a container is kept in 28 bits. -/
def JB_CMASK : Nat := 0x0FFFFFFF

def counts_fit : Json N → Bool
  | .array xs => decide (xs.length ≤ JB_CMASK)
  | .object ms => decide (ms.length ≤ JB_CMASK)
  | .scalar _ => true

/-- The strings of one node are valid in the server encoding. -/
def verified (verify : Bytes → Bool) : Json N → Bool
  | .scalar (.string s) => verify s
  | .object ms => ms.all fun m => verify m.1
  | _ => true

/-- What PostgreSQL documents of these functions, where `value` is what a jsonb says. -/
structure Documented (b : Backend N D J P) (keylt : Bytes → Bytes → Bool)
    (value : J → Json N) : Prop where
  order : StrictOrder keylt
  canonical : ∀ j, (value j).Canonical keylt
  counts : ∀ j, (value j).all counts_fit
  encoding : ∀ j, (value j).all (verified b.pg_verifymbstr)
  count : ∀ j, b.JB_ROOT_COUNT j = root_count (value j)
  is_scalar : ∀ j, b.JB_ROOT_IS_SCALAR j = root_is_scalar (value j)
  iterator : ∀ j, b.JsonbIteratorNext false j = (iterated (value j)).map event
  /-- the tokens of a jsonb, in any order of the members, are taken -/
  push : ∀ j w ts, root_is_scalar (value j) = false → Listing w (value j) ts →
    ∃ p j', (ts.map event).foldlM b.pushJsonbValue b.pstate = .ok p ∧ b.resultToJsonb p = .ok j'
  /-- and give a jsonb that says what the tokens list -/
  pushed : ∀ (d : Json N) w ts p j', d.Canonical keylt → root_is_scalar d = false →
    Listing w d ts → (ts.map event).foldlM b.pushJsonbValue b.pstate = .ok p →
    b.resultToJsonb p = .ok j' → value j' = d
  scalar : ∀ j s, value j = .scalar s →
    ∃ j', b.JsonbValueToJsonb s.toJsonbValue = .ok j' ∧ value j' = value j

end pllua.jsonb
