-- Values of simple types as Lua values and back (datum.c). Integers are checked
-- against the width of the type, and strings for text against the encoding.
import Mathlib.Data.List.TakeWhile
import Pllua.NumericOps

open pllua.numeric

namespace pllua.scalars

/-! ## Types and values -/

/-- The types that the two functions tell apart. -/
inductive TypeOid
  | TEXTOID | VARCHAROID | BPCHAROID | XMLOID | JSONOID | BYTEAOID
  | CSTRINGOID | NAMEOID
  | FLOAT4OID | FLOAT8OID
  | BOOLOID | OIDOID | INT2OID | INT4OID | INT8OID
  | REFCURSOROID | NUMERICOID
  | other (typeid : Nat)
deriving DecidableEq, Repr

abbrev Bytes := List UInt8

/-- A datum. The floats of Lua are those of 64 bits. -/
inductive Datum (F : Type)
  /-- the payload of a varlena -/
  | varlena (data : Bytes)
  /-- the bytes before the terminating zero -/
  | cstring (str : Bytes)
  | float4 (f : F)
  | float8 (f : F)
  | bool (b : Bool)
  | oid (v : UInt32)
  | int2 (v : Int16)
  | int4 (v : Int32)
  | int8 (v : Int64)
  | numeric (n : Numeric)
deriving DecidableEq

/-- A Lua value: `C` are the cursor objects. -/
inductive Lua (F C : Type)
  | nil
  | boolean (b : Bool)
  | string (str : Bytes)
  | integer (i : Int64)
  | float (f : F)
  | cursor (c : C)
  | other
deriving DecidableEq

/-- What a conversion to a datum gives. -/
inductive Outcome (F : Type)
  /-- it returns false, and the value goes to the input function -/
  | declined
  | null
  | error (errstr : String)
  | datum (d : Datum F)
deriving DecidableEq

/-- PostgreSQL and Lua. -/
structure Lib (F C : Type) where
  /-- `pg_verifymbstr` -/
  pg_verifymbstr : Bytes → Bool
  parse_bool_with_len : Bytes → Option Bool
  /-- the float as a number -/
  real : F → Option ℚ
  /-- `lua_tointegerx` on a float -/
  tointegerx : F → Option Int64
  tointegerx_iff : ∀ f i, tointegerx f = some i ↔ real f = some (i.toInt : ℚ)
  of_integer : Int64 → F
  /-- the cast to a float of 32 bits -/
  to_float4 : F → F
  float8_numeric : F → Numeric
  /-- `pllua_spi_newcursor` and `pllua_cursor_name` -/
  newcursor : Bytes → C
  cursor_name : C → Option Bytes

variable {F C : Type}

/-- `strlen`. -/
def strlen (str : Bytes) : Nat := (str.takeWhile (· ≠ 0)).length

/-! ## The conversions -/

section
variable (lib : Lib F C)

/-- `pllua_value_from_datum`, with none for `LUA_TNONE`. -/
def pllua_value_from_datum (typeid : TypeOid) (value : Datum F) : Option (Lua F C) :=
  match typeid, value with
  | .TEXTOID, .varlena v | .VARCHAROID, .varlena v | .BPCHAROID, .varlena v
  | .XMLOID, .varlena v | .JSONOID, .varlena v | .BYTEAOID, .varlena v => some (.string v)
  | .CSTRINGOID, .cstring str | .NAMEOID, .cstring str => some (.string (str.take (strlen str)))
  | .FLOAT4OID, .float4 f => some (.float f)
  | .FLOAT8OID, .float8 f => some (.float f)
  | .BOOLOID, .bool b => some (.boolean b)
  | .OIDOID, .oid v => some (.integer v.toUInt64.toInt64)
  | .INT2OID, .int2 v => some (.integer v.toInt64)
  | .INT4OID, .int4 v => some (.integer v.toInt64)
  | .INT8OID, .int8 v => some (.integer v)
  | .REFCURSOROID, .varlena v => some (.cursor (lib.newcursor v))
  | _, _ => none

/-- A string for a text type or a cstring: no zero byte, and the encoding of the server. -/
def checked_text (str : Bytes) (nulls encoding : String) (d : Datum F) : Outcome F :=
  if str.length ≠ strlen str then .error nulls
  else if !lib.pg_verifymbstr (str.take (strlen str)) then .error encoding
  else .datum d

def from_string (typeid : TypeOid) (str : Bytes) : Outcome F :=
  match typeid with
  | .TEXTOID | .VARCHAROID | .REFCURSOROID =>
    checked_text lib str "null characters not allowed in text values"
      "invalid encoding for text value" (.varlena str)
  | .BYTEAOID => .datum (.varlena str)
  | .CSTRINGOID =>
    checked_text lib str "null characters not allowed in cstring values"
      "invalid encoding for cstring value" (.cstring str)
  | .BOOLOID =>
    match lib.parse_bool_with_len str with
    | some v => .datum (.bool v)
    | none => .error "invalid boolean value"
  | _ => .declined

/-- `intval` is the number as an integer, if it is one, and `floatval` the number as a float. -/
def from_number (typeid : TypeOid) (intval : Option Int64) (floatval : F) : Outcome F :=
  match typeid, intval with
  | .FLOAT4OID, _ => .datum (.float4 (lib.to_float4 floatval))
  | .FLOAT8OID, _ => .datum (.float8 floatval)
  | .BOOLOID, some i => .datum (.bool (i ≠ 0))
  | .BOOLOID, none => .error "invalid boolean value"
  | .OIDOID, some i =>
    if i = i.toUInt64.toUInt32.toUInt64.toInt64 then .datum (.oid i.toUInt64.toUInt32)
    else .error "oid value out of range"
  | .OIDOID, none => .error "oid value out of range"
  | .INT2OID, some i =>
    if Int16.minValue.toInt64 ≤ i ∧ i ≤ Int16.maxValue.toInt64 then .datum (.int2 i.toInt16)
    else .error "smallint value out of range"
  | .INT2OID, none => .error "smallint value out of range"
  | .INT4OID, some i =>
    if Int32.minValue.toInt64 ≤ i ∧ i ≤ Int32.maxValue.toInt64 then .datum (.int4 i.toInt32)
    else .error "integer value out of range"
  | .INT4OID, none => .error "integer value out of range"
  | .INT8OID, some i => .datum (.int8 i)
  | .INT8OID, none => .error "bigint out of range"
  | .NUMERICOID, some i => .datum (.numeric (.fin i.toInt))
  | .NUMERICOID, none => .datum (.numeric (lib.float8_numeric floatval))
  | _, _ => .declined

/-- `pllua_datum_from_value`. -/
def pllua_datum_from_value (typeid : TypeOid) : Lua F C → Outcome F
  | .nil => .null
  | .boolean b => if typeid = .BOOLOID then .datum (.bool b) else .declined
  | .string str => from_string lib typeid str
  | .integer i => from_number lib typeid (some i) (lib.of_integer i)
  | .float f => from_number lib typeid (lib.tointegerx f) f
  | .cursor c =>
    if typeid = .REFCURSOROID then
      match lib.cursor_name c with
      | some name => .datum (.varlena name)
      | none => .null
    else .declined
  | .other => .declined

end

/-! ## What they mean -/

/-- The types of the law. -/
inductive Simple : TypeOid → Prop
  | int2 : Simple .INT2OID
  | int4 : Simple .INT4OID
  | int8 : Simple .INT8OID
  | oid : Simple .OIDOID
  | bool : Simple .BOOLOID
  | text : Simple .TEXTOID
  | varchar : Simple .VARCHAROID
  | bytea : Simple .BYTEAOID
  | cstring : Simple .CSTRINGOID

/-- Text as PostgreSQL stores it. -/
def IsText (lib : Lib F C) (str : Bytes) : Prop := 0 ∉ str ∧ lib.pg_verifymbstr str = true

/-- A datum of the type. -/
inductive HasType (lib : Lib F C) : TypeOid → Datum F → Prop
  | int2 (v : Int16) : HasType lib .INT2OID (.int2 v)
  | int4 (v : Int32) : HasType lib .INT4OID (.int4 v)
  | int8 (v : Int64) : HasType lib .INT8OID (.int8 v)
  | oid (v : UInt32) : HasType lib .OIDOID (.oid v)
  | bool (b : Bool) : HasType lib .BOOLOID (.bool b)
  | text {str : Bytes} : IsText lib str → HasType lib .TEXTOID (.varlena str)
  | varchar {str : Bytes} : IsText lib str → HasType lib .VARCHAROID (.varlena str)
  | bytea (data : Bytes) : HasType lib .BYTEAOID (.varlena data)
  | cstring {str : Bytes} : IsText lib str → HasType lib .CSTRINGOID (.cstring str)

/-- The number that a datum of an integer type stands for. -/
def Datum.number : Datum F → Option Int
  | .oid v => some v.toNat
  | .int2 v => some v.toInt
  | .int4 v => some v.toInt
  | .int8 v => some v.toInt
  | _ => none

/-- The string that a datum stands for. -/
def Datum.string : Datum F → Option Bytes
  | .varlena data => some data
  | .cstring str => some str
  | _ => none

/-- The datum stands for exactly the number or the string. -/
def Denotes (lib : Lib F C) (v : Lua F C) (d : Datum F) : Prop :=
  match v with
  | .string str => d.string = some str
  | .integer i => d.number = some i.toInt
  | .float f => ∃ i : Int, d.number = some i ∧ lib.real f = some (i : ℚ)
  | _ => False

/-- A number or a string. -/
def Lua.Offered : Lua F C → Prop
  | .string _ | .integer _ | .float _ => True
  | _ => False

/-- The truth value of a number is whether it is not zero, and that of a string what
PostgreSQL reads from it. -/
def Truth (lib : Lib F C) (v : Lua F C) (b : Bool) : Prop :=
  match v with
  | .string str => lib.parse_bool_with_len str = some b
  | .integer i => b = decide (i ≠ 0)
  | .float f => ∃ i : Int64, lib.real f = some (i.toInt : ℚ) ∧ b = decide (i ≠ 0)
  | _ => False

/-! ## Integers -/

theorem int2_in_range (i : Int64) :
    Int16.minValue.toInt64 ≤ i ∧ i ≤ Int16.maxValue.toInt64 ↔
      -32768 ≤ i.toInt ∧ i.toInt ≤ 32767 := by
  rw [Int64.le_iff_toInt_le, Int64.le_iff_toInt_le]
  exact Iff.rfl

theorem int4_in_range (i : Int64) :
    Int32.minValue.toInt64 ≤ i ∧ i ≤ Int32.maxValue.toInt64 ↔
      -2147483648 ≤ i.toInt ∧ i.toInt ≤ 2147483647 := by
  rw [Int64.le_iff_toInt_le, Int64.le_iff_toInt_le]
  exact Iff.rfl

/-- The check keeps what does not fit away from the narrowing. -/
theorem int2_exact {i : Int64} (h : Int16.minValue.toInt64 ≤ i ∧ i ≤ Int16.maxValue.toInt64) :
    i.toInt16.toInt = i.toInt := by
  rw [int2_in_range] at h
  rw [Int64.toInt_toInt16]
  exact Int.bmod_eq_of_le (by omega) (by omega)

theorem int4_exact {i : Int64} (h : Int32.minValue.toInt64 ≤ i ∧ i ≤ Int32.maxValue.toInt64) :
    i.toInt32.toInt = i.toInt := by
  rw [int4_in_range] at h
  rw [Int64.toInt_toInt32]
  exact Int.bmod_eq_of_le (by omega) (by omega)

theorem oid_as_integer (v : UInt32) : v.toUInt64.toInt64.toInt = v.toNat := by
  have hlt := v.toNat_lt
  have hnat : v.toUInt64.toBitVec.toNat = v.toNat := UInt32.toNat_toUInt64 v
  have hint : v.toUInt64.toBitVec.toInt = v.toUInt64.toBitVec.toNat :=
    BitVec.toInt_eq_toNat_of_lt (by omega)
  rw [hnat] at hint
  exact hint

theorem oid_exact {i : Int64} (h : i = i.toUInt64.toUInt32.toUInt64.toInt64) :
    (i.toUInt64.toUInt32.toNat : Int) = i.toInt := by
  rw [← oid_as_integer, ← h]

theorem oid_back (v : UInt32) : v.toUInt64.toInt64.toUInt64.toUInt32 = v := by
  simp

/-! ## Strings -/

theorem strlen_of_no_zero {str : Bytes} (h : 0 ∉ str) : strlen str = str.length := by
  have hall : ∀ x ∈ str, (decide (x ≠ 0)) = true := by
    intro x hx
    rw [decide_eq_true_eq]
    intro hz
    exact h (hz ▸ hx)
  rw [strlen, List.takeWhile_eq_self_iff.mpr hall]

theorem checked_text_isText {lib : Lib F C} {str : Bytes} (h : IsText lib str)
    (nulls encoding : String) (d : Datum F) : checked_text lib str nulls encoding d = .datum d := by
  have hlen := strlen_of_no_zero h.1
  unfold checked_text
  rw [if_neg (by omega), hlen, List.take_length, h.2]
  rfl

theorem checked_text_cases (lib : Lib F C) (str : Bytes) (nulls encoding : String) (d : Datum F) :
    (∃ e, checked_text lib str nulls encoding d = .error e) ∨
      checked_text lib str nulls encoding d = .datum d := by
  unfold checked_text
  split
  · exact Or.inl ⟨_, rfl⟩
  · split
    · exact Or.inl ⟨_, rfl⟩
    · exact Or.inr rfl

/-! ## The laws -/

theorem bool_from_number (lib : Lib F C) (intval : Option Int64) (floatval : F) :
    (intval = none ∧ from_number lib .BOOLOID intval floatval = .error "invalid boolean value") ∨
      ∃ i, intval = some i ∧
        from_number lib .BOOLOID intval floatval = .datum (.bool (decide (i ≠ 0))) := by
  cases intval with
  | none => exact Or.inl ⟨rfl, rfl⟩
  | some i => exact Or.inr ⟨i, rfl, rfl⟩

/-- A number is refused or stays as it is. -/
theorem number_exact (lib : Lib F C) {t : TypeOid} (ht : Simple t) (hb : t ≠ .BOOLOID)
    (intval : Option Int64) (floatval : F) :
    from_number lib t intval floatval = .declined ∨
      (∃ e, from_number lib t intval floatval = .error e) ∨
      ∃ d i, from_number lib t intval floatval = .datum d ∧ intval = some i ∧
        d.number = some i.toInt := by
  cases ht with
  | bool => exact absurd rfl hb
  | text | varchar | bytea | cstring => exact Or.inl (by cases intval <;> rfl)
  | int2 =>
    cases intval with
    | none => exact Or.inr (Or.inl ⟨_, rfl⟩)
    | some i =>
      unfold from_number
      dsimp only
      split
      case isTrue h =>
        exact Or.inr (Or.inr ⟨_, i, rfl, rfl, congrArg some (int2_exact h)⟩)
      case isFalse => exact Or.inr (Or.inl ⟨_, rfl⟩)
  | int4 =>
    cases intval with
    | none => exact Or.inr (Or.inl ⟨_, rfl⟩)
    | some i =>
      unfold from_number
      dsimp only
      split
      case isTrue h =>
        exact Or.inr (Or.inr ⟨_, i, rfl, rfl, congrArg some (int4_exact h)⟩)
      case isFalse => exact Or.inr (Or.inl ⟨_, rfl⟩)
  | int8 =>
    cases intval with
    | none => exact Or.inr (Or.inl ⟨_, rfl⟩)
    | some i => exact Or.inr (Or.inr ⟨_, i, rfl, rfl, rfl⟩)
  | oid =>
    cases intval with
    | none => exact Or.inr (Or.inl ⟨_, rfl⟩)
    | some i =>
      unfold from_number
      dsimp only
      split
      case isTrue h =>
        exact Or.inr (Or.inr ⟨_, i, rfl, rfl, congrArg some (oid_exact h)⟩)
      case isFalse => exact Or.inr (Or.inl ⟨_, rfl⟩)

/-- A string is refused or stays as it is. -/
theorem string_exact (lib : Lib F C) {t : TypeOid} (ht : Simple t) (hb : t ≠ .BOOLOID)
    (str : Bytes) :
    from_string lib t str = .declined ∨ (∃ e, from_string lib t str = .error e) ∨
      ∃ d, from_string lib t str = .datum d ∧ d.string = some str := by
  cases ht with
  | bool => exact absurd rfl hb
  | int2 | int4 | int8 | oid => exact Or.inl rfl
  | bytea => exact Or.inr (Or.inr ⟨_, rfl, rfl⟩)
  | text | varchar | cstring =>
    refine Or.inr ?_
    unfold from_string
    dsimp only
    rcases checked_text_cases lib str _ _ _ with h | h
    · exact Or.inl h
    · exact Or.inr ⟨_, h, rfl⟩

/-- A value of a narrow type passes the check of its range. -/
theorem narrow_passes {lo hi i : Int64} {x y : Outcome F}
    (h : lo.toInt ≤ i.toInt ∧ i.toInt ≤ hi.toInt) : (if lo ≤ i ∧ i ≤ hi then x else y) = x :=
  if_pos ⟨Int64.le_iff_toInt_le.mpr h.1, Int64.le_iff_toInt_le.mpr h.2⟩

theorem int2_back (lib : Lib F C) (v : Int16) :
    pllua_datum_from_value lib .INT2OID (.integer v.toInt64) = .datum (.int2 v) := by
  refine (narrow_passes ?_).trans (by rw [Int16.toInt16_toInt64])
  rw [Int16.toInt_toInt64 v]
  exact ⟨v.le_toInt, Int.le_of_lt_add_one v.toInt_lt⟩

theorem int4_back (lib : Lib F C) (v : Int32) :
    pllua_datum_from_value lib .INT4OID (.integer v.toInt64) = .datum (.int4 v) := by
  refine (narrow_passes ?_).trans (by rw [Int32.toInt32_toInt64])
  rw [Int32.toInt_toInt64 v]
  exact ⟨v.le_toInt, Int.le_of_lt_add_one v.toInt_lt⟩

theorem oid_value_back (lib : Lib F C) (v : UInt32) :
    pllua_datum_from_value lib .OIDOID (.integer v.toUInt64.toInt64) = .datum (.oid v) := by
  unfold pllua_datum_from_value from_number
  dsimp only
  rw [oid_back, if_pos rfl]

/-- A datum comes back from the Lua value that it gives. -/
theorem datum_round_trip (lib : Lib F C) {t : TypeOid} {d : Datum F} (h : HasType lib t d) :
    ∃ v, pllua_value_from_datum lib t d = some v ∧ pllua_datum_from_value lib t v = .datum d := by
  cases h with
  | int2 v => exact ⟨_, rfl, int2_back lib v⟩
  | int4 v => exact ⟨_, rfl, int4_back lib v⟩
  | int8 v => exact ⟨_, rfl, rfl⟩
  | oid v => exact ⟨_, rfl, oid_value_back lib v⟩
  | bool b => exact ⟨_, rfl, rfl⟩
  | bytea data => exact ⟨_, rfl, rfl⟩
  | text h => exact ⟨_, rfl, checked_text_isText h _ _ _⟩
  | varchar h => exact ⟨_, rfl, checked_text_isText h _ _ _⟩
  | cstring h =>
    refine ⟨_, rfl, ?_⟩
    rw [strlen_of_no_zero h.1, List.take_length]
    exact checked_text_isText h _ _ _

/-- Every datum of a simple type comes back from its Lua value. A number or a string that is
offered is declined, or an error, or a datum that stands for exactly it, and where a truth
value is expected it gives the one that it means. -/
theorem scalar_values_exact (lib : Lib F C) :
    (∀ t d, HasType lib t d → ∃ v, pllua_value_from_datum lib t d = some v ∧
      pllua_datum_from_value lib t v = .datum d) ∧
    (∀ t v, Simple t → t ≠ .BOOLOID → v.Offered →
      pllua_datum_from_value lib t v = .declined ∨
      (∃ e, pllua_datum_from_value lib t v = .error e) ∨
      ∃ d, pllua_datum_from_value lib t v = .datum d ∧ Denotes lib v d) ∧
    (∀ v : Lua F C, v.Offered →
      (∃ e, pllua_datum_from_value lib .BOOLOID v = .error e) ∨
      ∃ b, pllua_datum_from_value lib .BOOLOID v = .datum (.bool b) ∧ Truth lib v b) := by
  refine ⟨fun t d h => datum_round_trip lib h, ?_, ?_⟩
  · intro t v ht hb hv
    cases v with
    | nil | boolean | cursor | other => cases hv
    | string str => exact string_exact lib ht hb str
    | integer i =>
      refine (number_exact lib ht hb (some i) (lib.of_integer i)).imp_right (Or.imp_right ?_)
      rintro ⟨d, j, hd, hj, hnum⟩
      cases hj
      exact ⟨d, hd, hnum⟩
    | float f =>
      refine (number_exact lib ht hb (lib.tointegerx f) f).imp_right (Or.imp_right ?_)
      rintro ⟨d, j, hd, hj, hnum⟩
      exact ⟨d, hd, j.toInt, hnum, (lib.tointegerx_iff f j).mp hj⟩
  · intro v hv
    cases v with
    | nil | boolean | cursor | other => cases hv
    | string str =>
      cases h : lib.parse_bool_with_len str with
      | none =>
        refine Or.inl ⟨"invalid boolean value", ?_⟩
        simp only [pllua_datum_from_value, from_string, h]
      | some b =>
        refine Or.inr ⟨b, ?_, h⟩
        simp only [pllua_datum_from_value, from_string, h]
    | integer i => exact Or.inr ⟨_, rfl, rfl⟩
    | float f =>
      rcases bool_from_number lib (lib.tointegerx f) f with ⟨-, h⟩ | ⟨i, hi, h⟩
      · exact Or.inl ⟨_, h⟩
      · exact Or.inr ⟨_, h, i, (lib.tointegerx_iff f i).mp hi, rfl⟩

/-- A server with one word for true, and a Lua whose floats are no numbers. -/
def trial : Lib Unit Unit where
  pg_verifymbstr := fun _ => true
  parse_bool_with_len := fun str => if str = [116] then some true else none
  real := fun _ => none
  tointegerx := fun _ => none
  tointegerx_iff := fun _ _ => ⟨fun h => (by cases h), fun h => (by cases h)⟩
  of_integer := fun _ => ()
  to_float4 := id
  float8_numeric := fun _ => .nan
  newcursor := fun _ => ()
  cursor_name := fun _ => none

/-- Both ends of the smallest width. -/
theorem scalar_values_int2_limits :
    (∃ v, pllua_value_from_datum trial .INT2OID (.int2 Int16.minValue) = some v ∧
      pllua_datum_from_value trial .INT2OID v = .datum (.int2 Int16.minValue)) ∧
    (∃ e, pllua_datum_from_value trial .INT2OID (.integer 32768) = .error e) := by
  obtain ⟨hback, hexact, -⟩ := scalar_values_exact trial
  refine ⟨hback .INT2OID (.int2 Int16.minValue) (.int2 _), ?_⟩
  have h := hexact .INT2OID (.integer 32768) .int2 (fun h => by cases h) trivial
  have herr : pllua_datum_from_value trial .INT2OID (.integer 32768) =
      .error "smallint value out of range" := by decide
  rcases h with h | h | ⟨d, h, -⟩
  · rw [herr] at h
    cases h
  · exact h
  · rw [herr] at h
    cases h

/-- The numbers 1 and 2 give the same truth value, which stands for neither number. -/
theorem bool_from_two :
    pllua_datum_from_value trial .BOOLOID (.integer 2) = .datum (.bool true) ∧
      pllua_datum_from_value trial .BOOLOID (.integer 1) = .datum (.bool true) ∧
      ¬ Denotes trial (.integer 2) (.bool true) :=
  ⟨by decide, by decide, fun h => by cases h⟩

end pllua.scalars
