-- SQLSTATE codes (error.c, elog.c): five characters packed into 30 bits of an integer, six bits
-- each, and the table that maps the codes and the names of conditions to such integers.
import Mathlib.Data.Int.Basic
import Mathlib.Data.List.TakeWhile
import Mathlib.Tactic.Linarith
import Pllua.Constructors
import Pllua.NumericIntegers
import Pllua.RowText

open pllua.constructors (c_int)
open pllua.rowtext (CString)
open pllua.numeric (Float8)

namespace pllua.sqlstate

/-! ## Packing -/

/-- The characters of a code, as in the calls of `strspn`. -/
def code_chars : List UInt8 :=
  "ABCDEFGHIJKLMNOPQRSTUVWXYZ0123456789".toList.map fun c => c.toNat.toUInt8

/-- `strspn` -/
def strspn (s accept : List UInt8) : Nat := (s.takeWhile fun c => accept.contains c).length

def PGSIXBIT (ch : UInt8) : Int := ((ch.toNat : Int) - 48) % 64

def PGUNSIXBIT (val : Int) : UInt8 := UInt8.ofNat ((val % 64).toNat + 48)

def MAKE_SQLSTATE (ch1 ch2 ch3 ch4 ch5 : UInt8) : Int :=
  PGSIXBIT ch1 + PGSIXBIT ch2 * 2 ^ 6 + PGSIXBIT ch3 * 2 ^ 12 + PGSIXBIT ch4 * 2 ^ 18 +
    PGSIXBIT ch5 * 2 ^ 24

/-- The loop of `pllua_decode_sqlstate`: the buffer, and what is left of the code. -/
def decode_loop : Nat → Int → List UInt8 × Int
  | 0, errcode => ([], errcode)
  | i + 1, errcode =>
    have rest := decode_loop i (errcode >>> (6 : Nat))
    (PGUNSIXBIT errcode :: rest.1, rest.2)

/-- The result and the buffer. -/
def pllua_decode_sqlstate (errcode : Int) : Bool × List UInt8 :=
  have rest := decode_loop 5 errcode
  (rest.2 == 0 && strspn rest.1 code_chars == 5, rest.1)

/-! ## Codes -/

/-- Five characters over A-Z and 0-9. -/
def IsCode (s : List UInt8) : Prop := s.length = 5 ∧ ∀ c ∈ s, c ∈ code_chars

instance (s : List UInt8) : Decidable (IsCode s) :=
  decidable_of_iff (s.length = 5 ∧ s.all (fun c => code_chars.contains c) = true) (by
    simp [IsCode])

structure Code where
  s : List UInt8
  is_code : IsCode s
deriving DecidableEq

/-- `MAKE_SQLSTATE` of the characters of a string. -/
def sqlstate_of (str : List UInt8) : Int :=
  MAKE_SQLSTATE (str.getD 0 0) (str.getD 1 0) (str.getD 2 0) (str.getD 3 0) (str.getD 4 0)

/-- The bits of a string of any length, the first character in the lowest ones. -/
def pack : List UInt8 → Int
  | [] => 0
  | c :: cs => PGSIXBIT c + 64 * pack cs

theorem sqlstate_of_eq_pack {str : List UInt8} (h : str.length = 5) :
    sqlstate_of str = pack str := by
  match str, h with
  | [a, b, c, d, e], _ =>
    simp only [sqlstate_of, MAKE_SQLSTATE, pack, List.getD_cons_zero, List.getD_cons_succ]
    ring

theorem mem_code_chars (c : UInt8) :
    c ∈ code_chars ↔ 48 ≤ c.toNat ∧ c.toNat ≤ 57 ∨ 65 ≤ c.toNat ∧ c.toNat ≤ 90 := by
  have all : ∀ n : Fin 256, UInt8.ofNat n.val ∈ code_chars ↔
      48 ≤ n.val ∧ n.val ≤ 57 ∨ 65 ≤ n.val ∧ n.val ≤ 90 := by decide +kernel
  have h := all ⟨c.toNat, UInt8.toNat_lt c⟩
  simpa using h

theorem sixbit_of_code_char {c : UInt8} (h : c ∈ code_chars) :
    PGSIXBIT c = c.toNat - 48 ∧ 0 ≤ PGSIXBIT c ∧ PGSIXBIT c < 64 := by
  have range := (mem_code_chars c).mp h
  unfold PGSIXBIT
  omega

/-- Six bits are packed and unpacked to themselves. -/
theorem PGSIXBIT_PGUNSIXBIT (val : Int) : PGSIXBIT (PGUNSIXBIT val) = val % 64 := by
  have low : 0 ≤ val % 64 := Int.emod_nonneg _ (by decide)
  have high : val % 64 < 64 := Int.emod_lt_of_pos _ (by decide)
  have small : (UInt8.ofNat ((val % 64).toNat + 48)).toNat = (val % 64).toNat + 48 := by
    rw [UInt8.toNat_ofNat']
    omega
  rw [PGSIXBIT, PGUNSIXBIT, small]
  omega

/-- A character of a code comes back from any integer with its six bits at the bottom. -/
theorem PGUNSIXBIT_add {c : UInt8} (h : c ∈ code_chars) (k : Int) :
    PGUNSIXBIT (PGSIXBIT c + 64 * k) = c := by
  obtain ⟨value, low, high⟩ := sixbit_of_code_char h
  have digit : (PGSIXBIT c + 64 * k) % 64 = c.toNat - 48 := by omega
  have nat : ((c.toNat : Int) - 48).toNat + 48 = c.toNat := by omega
  rw [PGUNSIXBIT, digit, nat, UInt8.ofNat_toNat]

/-! ## Decoding -/

theorem shiftRight_six (k : Int) : k >>> (6 : Nat) = k / 64 := by
  rw [Int.shiftRight_eq_div_pow]
  rfl

theorem decode_loop_length (i : Nat) (errcode : Int) : (decode_loop i errcode).1.length = i := by
  induction i generalizing errcode with
  | zero => rfl
  | succ i ih => simp [decode_loop, ih]

/-- No bit is lost: the buffer holds the low bits and the rest is above them. -/
theorem decode_loop_total (i : Nat) (errcode : Int) :
    pack (decode_loop i errcode).1 + 64 ^ i * (decode_loop i errcode).2 = errcode := by
  induction i generalizing errcode with
  | zero => simp [decode_loop, pack]
  | succ i ih =>
    have inner := ih (errcode >>> (6 : Nat))
    rw [shiftRight_six] at inner
    dsimp only [decode_loop]
    rw [pack, PGSIXBIT_PGUNSIXBIT, shiftRight_six]
    calc _ = errcode % 64 + 64 * (pack (decode_loop i (errcode / 64)).1 +
            64 ^ i * (decode_loop i (errcode / 64)).2) := by ring
      _ = errcode := by rw [inner]; omega

theorem decode_loop_pack (s : List UInt8) (h : ∀ c ∈ s, c ∈ code_chars) :
    decode_loop s.length (pack s) = (s, 0) := by
  induction s with
  | nil => rfl
  | cons c cs ih =>
    have hc := h c List.mem_cons_self
    obtain ⟨-, low, high⟩ := sixbit_of_code_char hc
    have shifted : pack (c :: cs) >>> (6 : Nat) = pack cs := by
      rw [shiftRight_six, pack]
      omega
    dsimp only [decode_loop, List.length_cons]
    rw [shifted, ih fun c hc => h c (List.mem_cons_of_mem _ hc), pack, PGUNSIXBIT_add hc]

theorem strspn_full (s : List UInt8) : strspn s code_chars = s.length ↔
    ∀ c ∈ s, c ∈ code_chars := by
  induction s with
  | nil => simp [strspn]
  | cons c cs ih =>
    unfold strspn at ih ⊢
    by_cases h : c ∈ code_chars
    · simpa [List.takeWhile_cons, h] using ih
    · simp [h]

theorem decode_code (code : Code) :
    pllua_decode_sqlstate (sqlstate_of code.s) = (true, code.s) := by
  obtain ⟨five, chars⟩ := code.is_code
  rw [sqlstate_of_eq_pack five]
  have unpacked := decode_loop_pack code.s chars
  have span := (strspn_full code.s).mpr chars
  rw [five] at unpacked span
  simp [pllua_decode_sqlstate, unpacked, span]

theorem decode_succeeds {errcode : Int} (h : (pllua_decode_sqlstate errcode).1 = true) :
    IsCode (pllua_decode_sqlstate errcode).2 ∧
      errcode = sqlstate_of (pllua_decode_sqlstate errcode).2 := by
  have total := decode_loop_total 5 errcode
  have length := decode_loop_length 5 errcode
  simp only [pllua_decode_sqlstate, Bool.and_eq_true, beq_iff_eq] at h ⊢
  obtain ⟨rest, span⟩ := h
  rw [← length] at span
  rw [rest] at total
  rw [sqlstate_of_eq_pack length]
  exact ⟨⟨length, (strspn_full _).mp span⟩, by omega⟩

/-- Exactly the integers of codes are decoded, and each to its own code. -/
theorem decode_iff (errcode : Int) (s : List UInt8) :
    pllua_decode_sqlstate errcode = (true, s) ↔ IsCode s ∧ errcode = sqlstate_of s := by
  constructor
  · intro h
    have ok : (pllua_decode_sqlstate errcode).1 = true := by rw [h]
    have result := decode_succeeds ok
    rw [h] at result
    exact result
  · rintro ⟨hs, rfl⟩
    exact decode_code ⟨s, hs⟩

/-! ## The table of error codes -/

/-- An entry of `ecodes`, whose integer is the one of a code. The name of a condition is written in
small letters and is no code itself. -/
structure Condition where
  str : CString
  val : Code
  not_code : ¬ IsCode str.val

/-- A key of the table. -/
inductive Key
  | string (s : List UInt8)
  | integer (i : Int64)
  | float (f : Float8)
  | other

inductive Value
  | nil
  | string (s : List UInt8)
  | integer (i : Int)
deriving DecidableEq

/-- The table, with the upvalue of its `__index`: the keys that are strings, and those that are
integers. -/
structure Errcodes where
  inited : Bool
  codes : List (List UInt8 × Int)
  names : List (Int × List UInt8)

variable (ecodes : List Condition)

/-- `lua_rawget`, where what was set last is in front. -/
def rawget {K V : Type} [DecidableEq K] (t : List (K × V)) (k : K) : Option V :=
  (t.find? fun e => e.1 = k).map Prod.snd

/-- `pllua_get_errcodes` -/
def pllua_get_errcodes (t : Errcodes) : Errcodes :=
  ecodes.foldl
    (fun t e =>
      { t with
        codes := (e.str.val, sqlstate_of e.val.s) :: t.codes
        names := (sqlstate_of e.val.s, e.str.val) :: t.names })
    t

/-- `lua_tointegerx` of a float. -/
def float_tointeger : Float8 → Option Int
  | .fin v => if v.den = 1 ∧ -2 ^ 63 ≤ v.num ∧ v.num < 2 ^ 63 then some v.num else none
  | _ => none

/-- What a key is in the table, where a float that is an integer is that integer. -/
def Key.rawget (t : Errcodes) : Key → Option Value
  | .string s => (sqlstate.rawget t.codes s).map .integer
  | .integer i => (sqlstate.rawget t.names i.toInt).map .string
  | .float f => ((float_tointeger f).bind (sqlstate.rawget t.names)).map .string
  | .other => none

/-- The text of a string for C: what comes before its first zero. -/
def c_text (s : List UInt8) : List UInt8 := s.takeWhile (· ≠ 0)

/-- The end of `pllua_errcodes_index`. -/
def index_unknown : Key → Value
  | .string s =>
    have str := c_text s
    if str.length = 5 ∧ strspn str code_chars = 5 then .integer (sqlstate_of str) else .nil
  | .integer i =>
    have decoded := pllua_decode_sqlstate i.toInt
    if decoded.1 then .string decoded.2 else .nil
  | .float f =>
    match float_tointeger f with
    | none => .nil
    | some i =>
      have decoded := pllua_decode_sqlstate i
      if decoded.1 then .string decoded.2 else .nil
  | .other => .nil

/-- `pllua_errcodes_index`, with the table after it. -/
def pllua_errcodes_index (t : Errcodes) (key : Key) : Value × Errcodes :=
  if t.inited then (index_unknown key, t)
  else
    have filled := { pllua_get_errcodes ecodes t with inited := true }
    ((key.rawget filled).getD (index_unknown key), filled)

/-- A key looked up in the table: `__index` is for the keys that are not there. -/
def gettable (t : Errcodes) (key : Key) : Value × Errcodes :=
  match key.rawget t with
  | some v => (v, t)
  | none => pllua_errcodes_index ecodes t key

/-- `lua_tointeger` of what the key of a string has, which is an integer or nil. -/
def Value.tointeger : Value → Int
  | .integer i => i
  | _ => 0

/-- `pllua_get_sqlstate` -/
def pllua_get_sqlstate (t : Errcodes) (str : CString) : Int × Errcodes :=
  if str.val.length = 5 ∧ strspn str.val code_chars = 5 then (sqlstate_of str.val, t)
  else
    have field := gettable ecodes t (.string str.val)
    (c_int field.1.tointeger, field.2)

/-- The table as `pllua_open_error` makes it. -/
def Errcodes.new : Errcodes := { inited := false, codes := [], names := [] }

/-- What uses the table: a lookup, or an error with an SQLSTATE. -/
inductive Use
  | get (key : Key)
  | error (str : CString)

def Use.run (t : Errcodes) : Use → Errcodes
  | .get key => (gettable ecodes t key).2
  | .error str => (pllua_get_sqlstate ecodes t str).2

/-- The table after any uses of it. -/
def after (uses : List Use) : Errcodes := uses.foldl (Use.run ecodes) .new

/-! ## What the table holds -/

/-- The code of the condition of a name: of two of one name, the one that is written last. -/
def named (s : List UInt8) : Option Code :=
  (ecodes.reverse.find? fun e => e.str.val = s).map Condition.val

/-- The table after its first use. -/
def Errcodes.full : Errcodes := { pllua_get_errcodes ecodes .new with inited := true }

theorem get_errcodes_tables (t : Errcodes) :
    (pllua_get_errcodes ecodes t).codes =
        (ecodes.map fun e => (e.str.val, sqlstate_of e.val.s)).reverse ++ t.codes ∧
      (pllua_get_errcodes ecodes t).names =
        (ecodes.map fun e => (sqlstate_of e.val.s, e.str.val)).reverse ++ t.names := by
  induction ecodes generalizing t with
  | nil => exact ⟨rfl, rfl⟩
  | cons e rest ih =>
    have inner := ih { t with
      codes := (e.str.val, sqlstate_of e.val.s) :: t.codes
      names := (sqlstate_of e.val.s, e.str.val) :: t.names }
    simpa [pllua_get_errcodes] using inner

theorem full_codes (s : List UInt8) :
    rawget (Errcodes.full ecodes).codes s = (named ecodes s).map fun c => sqlstate_of c.s := by
  have table := (get_errcodes_tables ecodes .new).1
  rw [Errcodes.full, rawget, table]
  simp [Errcodes.new, named, ← List.map_reverse, List.find?_map, Function.comp_def]

/-- A key of the table that is an integer is a code. -/
theorem full_names {i : Int} {str : List UInt8}
    (h : rawget (Errcodes.full ecodes).names i = some str) :
    (pllua_decode_sqlstate i).1 = true := by
  have table := (get_errcodes_tables ecodes .new).2
  rw [Errcodes.full, rawget, table] at h
  simp only [Option.map_eq_some_iff] at h
  obtain ⟨entry, found, -⟩ := h
  have key := List.find?_some found
  have mem := List.mem_of_find?_eq_some found
  simp only [Errcodes.new, List.append_nil, List.mem_reverse, List.mem_map] at mem
  obtain ⟨e, -, rfl⟩ := mem
  have same : sqlstate_of e.val.s = i := by simpa using key
  rw [← same, decode_code]

/-- No condition has a code as its name. -/
theorem named_code (code : Code) : named ecodes code.s = none := by
  simp only [named, Option.map_eq_none_iff, List.find?_eq_none, List.mem_reverse,
    decide_eq_true_eq]
  intro e _ same
  exact e.not_code (same ▸ code.is_code)

/-! ## Lookups -/

/-- The two tables there are: nothing was looked up yet, or all conditions are there. -/
def Open (t : Errcodes) : Prop := t = .new ∨ t = .full ecodes

/-- What a key has, in either table. -/
def found (key : Key) : Value :=
  (key.rawget (Errcodes.full ecodes)).getD (index_unknown key)

theorem gettable_open {t : Errcodes} (h : Open ecodes t) (key : Key) :
    (gettable ecodes t key).1 = found ecodes key ∧ Open ecodes (gettable ecodes t key).2 := by
  rcases h with rfl | rfl
  · have absent : key.rawget .new = none := by
      cases key <;> simp [Key.rawget, Errcodes.new, rawget]
    rw [gettable, absent]
    exact ⟨rfl, Or.inr rfl⟩
  · rw [gettable, found]
    cases present : key.rawget (Errcodes.full ecodes) with
    | some v => exact ⟨rfl, Or.inr rfl⟩
    | none => exact ⟨rfl, Or.inr rfl⟩

theorem use_open {t : Errcodes} (h : Open ecodes t) (use : Use) :
    Open ecodes (use.run ecodes t) := by
  cases use with
  | get key => exact (gettable_open ecodes h key).2
  | error str =>
    dsimp only [Use.run]
    unfold pllua_get_sqlstate
    split
    · exact h
    · exact (gettable_open ecodes h _).2

theorem after_open (uses : List Use) : Open ecodes (after ecodes uses) := by
  have run : ∀ t, Open ecodes t → Open ecodes (uses.foldl (Use.run ecodes) t) := by
    induction uses with
    | nil => exact fun t h => h
    | cons use rest ih => exact fun t h => ih _ (use_open ecodes h use)
  exact run _ (Or.inl rfl)

theorem IsCode.no_zero {s : List UInt8} (h : IsCode s) : 0 ∉ s := by
  intro mem
  have zero := (mem_code_chars 0).mp (h.2 0 mem)
  simp at zero

/-- A code as a C string. -/
def Code.str (code : Code) : CString := ⟨code.s, code.is_code.no_zero⟩

theorem c_text_no_zero {s : List UInt8} (h : 0 ∉ s) : c_text s = s := by
  rw [c_text, List.takeWhile_eq_self_iff]
  intro c hc
  have : c ≠ 0 := fun zero => h (zero ▸ hc)
  simpa using this

/-- The test of a string is the one for a code. -/
theorem is_code_iff (s : List UInt8) : s.length = 5 ∧ strspn s code_chars = 5 ↔ IsCode s := by
  constructor
  · rintro ⟨length, span⟩
    exact ⟨length, (strspn_full s).mp (by omega)⟩
  · rintro ⟨length, chars⟩
    exact ⟨length, by rw [(strspn_full s).mpr chars, length]⟩

/-- A string without a zero is a code, or the name of a condition, or unknown. -/
theorem found_string (s : CString) :
    found ecodes (.string s.val) =
      if IsCode s.val then .integer (sqlstate_of s.val)
      else ((named ecodes s.val).map fun c => Value.integer (sqlstate_of c.s)).getD .nil := by
  rw [found, Key.rawget, full_codes]
  simp only [index_unknown, c_text_no_zero s.property, is_code_iff]
  by_cases h : IsCode s.val
  · rw [named_code ecodes ⟨s.val, h⟩]
    simp [h]
  · cases named ecodes s.val <;> simp [h]

/-- The integer of a key that is a number. -/
def Key.integer? : Key → Option Int
  | .integer i => some i.toInt
  | .float f => float_tointeger f
  | _ => none

/-- A number that is no code is not in the table, and is not made into one. -/
theorem found_number {key : Key} (isstring : ∀ s, key ≠ .string s)
    (h : ∀ i ∈ key.integer?, (pllua_decode_sqlstate i).1 = false) :
    found ecodes key = .nil := by
  have absent : ∀ i, (pllua_decode_sqlstate i).1 = false →
      rawget (Errcodes.full ecodes).names i = none := by
    intro i bad
    cases present : rawget (Errcodes.full ecodes).names i with
    | none => rfl
    | some str => rw [full_names ecodes present] at bad; cases bad
  cases key with
  | string s => exact absurd rfl (isstring s)
  | integer i =>
    have bad := h i.toInt rfl
    simp [found, Key.rawget, index_unknown, absent _ bad, bad]
  | float f =>
    cases hf : float_tointeger f with
    | none => simp [found, Key.rawget, index_unknown, hf]
    | some i =>
      have bad := h i hf
      simp [found, Key.rawget, index_unknown, hf, absent _ bad, bad]
  | other => rfl

theorem sqlstate_of_range (code : Code) :
    0 ≤ sqlstate_of code.s ∧ sqlstate_of code.s < 2 ^ 30 := by
  have six (k : Nat) : 0 ≤ PGSIXBIT (code.s.getD k 0) ∧ PGSIXBIT (code.s.getD k 0) < 64 := by
    unfold PGSIXBIT
    omega
  have h0 := six 0
  have h1 := six 1
  have h2 := six 2
  have h3 := six 3
  have h4 := six 4
  unfold sqlstate_of MAKE_SQLSTATE
  omega

theorem c_int_sqlstate (code : Code) : c_int (sqlstate_of code.s) = sqlstate_of code.s := by
  have range := sqlstate_of_range code
  unfold c_int
  rw [Int.bmod_eq_of_le] <;> omega

/-- What an error with this SQLSTATE gets; 0 is for no code. -/
theorem get_sqlstate_open {t : Errcodes} (h : Open ecodes t) (s : CString) :
    (pllua_get_sqlstate ecodes t s).1 =
      if IsCode s.val then sqlstate_of s.val
      else ((named ecodes s.val).map fun c => sqlstate_of c.s).getD 0 := by
  simp only [pllua_get_sqlstate, is_code_iff]
  by_cases hs : IsCode s.val
  · simp [hs]
  · rw [if_neg hs, if_neg hs]
    dsimp only
    rw [(gettable_open ecodes h _).1, found_string, if_neg hs]
    cases named ecodes s.val with
    | none => rfl
    | some code => exact c_int_sqlstate code

/-- The integers that decode are those of codes, each to its code; every code leads to its integer;
and nothing else does but the name of a condition. -/
theorem sqlstate_codec (uses : List Use) :
    (∀ (n : Int64) (s : List UInt8), pllua_decode_sqlstate n.toInt = (true, s) ↔
      IsCode s ∧ n.toInt = sqlstate_of s) ∧
    (∀ code : Code,
      (gettable ecodes (after ecodes uses) (.string code.s)).1 = .integer (sqlstate_of code.s) ∧
      (pllua_get_sqlstate ecodes (after ecodes uses) code.str).1 = sqlstate_of code.s ∧
      pllua_decode_sqlstate (sqlstate_of code.s) = (true, code.s)) ∧
    (∀ key : Key, (∀ s, key ≠ .string s) →
      (∀ i ∈ key.integer?, (pllua_decode_sqlstate i).1 = false) →
      (gettable ecodes (after ecodes uses) key).1 = .nil) ∧
    (∀ s : CString, ¬ IsCode s.val →
      (gettable ecodes (after ecodes uses) (.string s.val)).1 =
        ((named ecodes s.val).map fun c => Value.integer (sqlstate_of c.s)).getD .nil ∧
      (pllua_get_sqlstate ecodes (after ecodes uses) s).1 =
        ((named ecodes s.val).map fun c => sqlstate_of c.s).getD 0) := by
  have h := after_open ecodes uses
  refine ⟨fun n s => decode_iff n.toInt s, fun code => ⟨?_, ?_, decode_code code⟩, ?_, ?_⟩
  · have value := found_string ecodes code.str
    rw [if_pos (show IsCode code.str.val from code.is_code)] at value
    exact (gettable_open ecodes h _).1.trans value
  · rw [get_sqlstate_open ecodes h]
    exact if_pos code.is_code
  · intro key isstring bad
    rw [(gettable_open ecodes h _).1, found_number ecodes isstring bad]
  · intro s hs
    rw [(gettable_open ecodes h _).1, found_string, get_sqlstate_open ecodes h]
    exact ⟨if_neg hs, if_neg hs⟩

/-- "22012" and "division_by_zero" -/
def division_by_zero : Condition where
  str := ⟨"division_by_zero".toList.map fun c => c.toNat.toUInt8, by decide +kernel⟩
  val := ⟨[50, 50, 48, 49, 50], by decide +kernel⟩
  not_code := by decide +kernel

/-- The name of a condition is no code and is known all the same, and an unknown name makes an error
of the code 00000. -/
theorem names_have_codes :
    (¬ ∀ (ecodes : List Condition) (uses : List Use) (s : CString), ¬ IsCode s.val →
      (gettable ecodes (after ecodes uses) (.string s.val)).1 = .nil) ∧
    ¬ ∀ (ecodes : List Condition) (uses : List Use) (s : CString), ¬ IsCode s.val →
      (pllua_decode_sqlstate (pllua_get_sqlstate ecodes (after ecodes uses) s).1).1 = false := by
  constructor
  · intro rejected
    have name := rejected [division_by_zero] [] division_by_zero.str (by decide)
    revert name
    decide +kernel
  · intro rejected
    have unknown := rejected [division_by_zero] [] ⟨[], by decide⟩ (by decide)
    revert unknown
    decide +kernel

end pllua.sqlstate
