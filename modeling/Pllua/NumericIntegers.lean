-- Numeric values as Lua numbers. An integer within the bounds of Lua's integers
-- becomes that integer, and `tonumber` makes a float of anything else.
import Pllua.NumericOps

open pllua.rounding

namespace pllua.numeric

/-! ## Floats and the functions of PostgreSQL -/

/-- The finite floats of 64 bits. -/
def IsDouble (v : ℚ) : Prop :=
  ∃ m e : ℤ, |m| < 2 ^ 53 ∧ -1074 ≤ e ∧ e ≤ 971 ∧ v = m * 2 ^ e

inductive Float8
  | nan
  | inf (neg : Bool)
  | fin (v : ℚ)
deriving DecidableEq

/-- The functions that the conversions call. -/
structure Conversions (E : Type) where
  numeric_lt : Numeric → Numeric → Bool
  numeric_gt : Numeric → Numeric → Bool
  numeric_eq : Numeric → Numeric → Bool
  numeric_is_nan : Numeric → Bool
  numeric_int8 : Numeric → Except E Int
  int8_numeric : Int → Numeric
  numeric_float8 : Numeric → Except E Float8
  /-- `luaL_argcheck` of an argument that is no number -/
  no_number : E

/-- The order of numeric values, with NaN above all others. -/
def Numeric.lt : Numeric → Numeric → Bool
  | .nan, _ => false
  | _, .nan => true
  | .inf neg, .inf neg' => neg && !neg'
  | .inf neg, .fin _ => neg
  | .fin _, .inf neg => !neg
  | .fin q, .fin r => q < r

/-- An `int8`. -/
def IsInt8 (i : Int) : Prop := -9223372036854775808 ≤ i ∧ i ≤ 9223372036854775807

/-- What PostgreSQL documents of the functions. -/
structure Documented {E : Type} (c : Conversions E) : Prop where
  lt : ∀ x y, c.numeric_lt x y = x.lt y
  gt : ∀ x y, c.numeric_gt x y = y.lt x
  eq : ∀ x y, c.numeric_eq x y = decide (x = y)
  is_nan : ∀ x, c.numeric_is_nan x = decide (x = .nan)
  int8_numeric : ∀ i, c.int8_numeric i = .fin i
  /-- it rounds, and raises an error for what does not fit -/
  int8 : ∀ q, IsInt8 (round_away q) → c.numeric_int8 (.fin q) = .ok (round_away q)

/-- No float but zero, or infinity, is near the number. -/
def OutOfFloats (q : ℚ) : Prop := 2 ^ 1024 - 2 ^ 970 ≤ |q| ∨ q ≠ 0 ∧ |q| ≤ 2 ^ (-1075 : ℤ)

/-- The float is the one nearest to the value. -/
def Nearest : Numeric → Float8 → Prop
  | .fin q, .fin v => IsDouble v ∧ ∀ w, IsDouble w → |q - v| ≤ |q - w|
  | .inf neg, .inf neg' => neg = neg'
  | .nan, .nan => True
  | _, _ => False

/-- What PostgreSQL documents of `numeric_float8` on a value: the nearest float, and an error
for a number out of range. -/
def FloatAt {E : Type} (c : Conversions E) (x : Numeric) : Prop :=
  (∃ f, c.numeric_float8 x = .ok f ∧ Nearest x f) ∨
    (∃ e, c.numeric_float8 x = .error e) ∧ ∃ q, x = .fin q ∧ OutOfFloats q

/-! ## The conversions -/

/-- What the functions push. -/
inductive Pushed (F X : Type)
  | nil
  | integer (i : Int)
  | float (f : Float8)
  /-- the argument itself -/
  | same (a : Arg F X)

section
variable {F X E : Type} (c : Conversions E)
/- the bounds `PLLUA_MIN_INT_NUM` and `PLLUA_MAX_INT_NUM`, which are in the upvalues -/
variable (lo hi : Int)

/-- The integer that a numeric value is, if it is one within the bounds. -/
def exact_integer (x : Numeric) : Except E (Option Int) :=
  if !c.numeric_lt x (.fin lo) && !c.numeric_gt x (.fin hi) && !c.numeric_is_nan x then
    match c.numeric_int8 x with
    | .error e => .error e
    | .ok val => if c.numeric_eq x (c.int8_numeric val) then .ok (some val) else .ok none
  else .ok none

/-- `pllua_numeric_tointeger`. Lua says which arguments are integers, and which numbers. -/
def pllua_numeric_tointeger (isint isnumber : Arg F X → Bool) (a : Arg F X) :
    Except E (Pushed F X) :=
  if isint a then .ok (.same a)
  else
    match a with
    | .datum v =>
      match exact_integer c lo hi v.num with
      | .error e => .error e
      | .ok (some val) => .ok (.integer val)
      | .ok none => .ok .nil
    | _ => if isnumber a then .ok .nil else .error c.no_number

/-- `pllua_numeric_tonumber`. -/
def pllua_numeric_tonumber (isnumber : Arg F X → Bool) (a : Arg F X) : Except E (Pushed F X) :=
  match a with
  | .datum v =>
    match exact_integer c lo hi v.num with
    | .error e => .error e
    | .ok (some val) => .ok (.integer val)
    | .ok none =>
      match c.numeric_float8 v.num with
      | .error e => .error e
      | .ok val => .ok (.float val)
  | _ => if isnumber a then .ok (.same a) else .error c.no_number

end

/-! ## What they give -/

/-- Rounding stays within integer bounds. -/
theorem round_away_within {q : ℚ} {lo hi : Int} (h : (lo : ℚ) ≤ q ∧ q ≤ hi) :
    lo ≤ round_away q ∧ round_away q ≤ hi := by
  have hnear := abs_le.mp (round_away_near q)
  constructor
  · have hlt : (lo : ℚ) - 1 < round_away q := by linarith [hnear.2, h.1]
    have hlt' : lo - 1 < round_away q := by exact_mod_cast hlt
    omega
  · have hlt : (round_away q : ℚ) < hi + 1 := by linarith [hnear.1, h.2]
    have hlt' : round_away q < hi + 1 := by exact_mod_cast hlt
    omega

section
variable {F X E : Type} {c : Conversions E} {lo hi : Int}

theorem exact_integer_none {x : Numeric}
    (h : c.numeric_lt x (.fin lo) = true ∨ c.numeric_gt x (.fin hi) = true ∨
      c.numeric_is_nan x = true) :
    exact_integer c lo hi x = .ok none := by
  unfold exact_integer
  rcases h with h | h | h <;> simp [h]

theorem exact_integer_fin (h : Documented c) (hlo : IsInt8 lo) (hhi : IsInt8 hi) {q : ℚ}
    (hq : (lo : ℚ) ≤ q ∧ q ≤ hi) :
    exact_integer c lo hi (.fin q) =
      if q = round_away q then .ok (some (round_away q)) else .ok none := by
  have hround := round_away_within hq
  have hint8 : IsInt8 (round_away q) := by
    unfold IsInt8 at *
    omega
  unfold exact_integer
  rw [h.lt, h.gt, h.is_nan, h.int8 q hint8]
  simp only [Numeric.lt, h.eq, h.int8_numeric, not_lt.mpr hq.1, not_lt.mpr hq.2, decide_false,
    Bool.not_false, Bool.and_self, if_true, Numeric.fin.injEq, decide_eq_true_eq, reduceCtorEq]

/-- A numeric value gives the integer that it is, if it is one within the bounds, and nothing
else. No call fails. -/
theorem exact_integer_spec (h : Documented c) (hlo : IsInt8 lo) (hhi : IsInt8 hi) (x : Numeric) :
    (∃ i : Int, x = .fin i ∧ lo ≤ i ∧ i ≤ hi ∧ exact_integer c lo hi x = .ok (some i)) ∨
      ((∀ i : Int, x = .fin i → ¬ (lo ≤ i ∧ i ≤ hi)) ∧ exact_integer c lo hi x = .ok none) := by
  cases x with
  | nan => exact Or.inr ⟨fun i hi => (by cases hi), exact_integer_none (by simp [h.is_nan])⟩
  | inf neg =>
    refine Or.inr ⟨fun i hi => (by cases hi), exact_integer_none ?_⟩
    cases neg <;> simp [h.lt, h.gt, Numeric.lt]
  | fin q =>
    rcases Decidable.em ((lo : ℚ) ≤ q ∧ q ≤ hi) with hq | hq
    · have hfin := exact_integer_fin h hlo hhi hq
      rcases Decidable.em (q = round_away q) with hint | hint
      · obtain ⟨hl, hr⟩ := round_away_within hq
        rw [if_pos hint] at hfin
        exact Or.inl ⟨round_away q, by rw [← hint], hl, hr, hfin⟩
      · rw [if_neg hint] at hfin
        refine Or.inr ⟨fun i hi _ => hint ?_, hfin⟩
        injection hi with hi
        rw [hi, round_away_int]
    · refine Or.inr ⟨fun i hi hin => hq ?_, exact_integer_none ?_⟩
      · injection hi with hi
        rw [hi]
        exact ⟨by exact_mod_cast hin.1, by exact_mod_cast hin.2⟩
      · rw [not_and_or, not_le, not_le] at hq
        simp only [h.lt, h.gt, Numeric.lt, decide_eq_true_eq]
        exact hq.imp_right Or.inl

/-- What a value gives that is an integer within the bounds. -/
theorem calls_of_integer {isint : Arg F X → Bool} (isnumber : Arg F X → Bool)
    (hisint : ∀ v, isint (.datum v) = false) {v : Val} {i : Int}
    (hexact : exact_integer c lo hi v.num = .ok (some i)) :
    pllua_numeric_tointeger c lo hi isint isnumber (.datum v) = .ok (.integer i) ∧
      pllua_numeric_tonumber c lo hi isnumber (.datum v) = .ok (.integer i) := by
  simp [pllua_numeric_tointeger, pllua_numeric_tonumber, hisint, hexact]

/-- What any other value gives. -/
theorem calls_of_other {isint : Arg F X → Bool} (isnumber : Arg F X → Bool)
    (hisint : ∀ v, isint (.datum v) = false) {v : Val}
    (hexact : exact_integer c lo hi v.num = .ok none) :
    pllua_numeric_tointeger c lo hi isint isnumber (.datum v) = .ok .nil ∧
      pllua_numeric_tonumber c lo hi isnumber (.datum v) =
        match c.numeric_float8 v.num with
        | .error e => .error e
        | .ok val => .ok (.float val) := by
  simp [pllua_numeric_tointeger, pllua_numeric_tonumber, hisint, hexact]

/-- `tointeger` gives an integer for a value that is one within the bounds, exactly that one,
nil for every other value, and never an error. `tonumber` gives the same integer, and for
every other value the nearest float, or the error of `numeric_float8` for a number out of
range. Any integer within the bounds comes back from a numeric value. -/
theorem tointeger_tonumber_exact (h : Documented c) (hlo : IsInt8 lo) (hhi : IsInt8 hi)
    {isint isnumber : Arg F X → Bool} (hisint : ∀ v, isint (.datum v) = false) (v : Val)
    (hfloat : FloatAt c v.num) :
    (∀ i, pllua_numeric_tointeger c lo hi isint isnumber (.datum v) = .ok (.integer i) ↔
      v.num = .fin i ∧ lo ≤ i ∧ i ≤ hi) ∧
    ((∀ i : Int, v.num = .fin i → ¬ (lo ≤ i ∧ i ≤ hi)) →
      pllua_numeric_tointeger c lo hi isint isnumber (.datum v) = .ok .nil) ∧
    (∀ i, pllua_numeric_tonumber c lo hi isnumber (.datum v) = .ok (.integer i) ↔
      v.num = .fin i ∧ lo ≤ i ∧ i ≤ hi) ∧
    ((∀ i : Int, v.num = .fin i → ¬ (lo ≤ i ∧ i ≤ hi)) →
      (∃ f, pllua_numeric_tonumber c lo hi isnumber (.datum v) = .ok (.float f) ∧
        Nearest v.num f) ∨
      (∃ e, pllua_numeric_tonumber c lo hi isnumber (.datum v) = .error e) ∧
        ∃ q, v.num = .fin q ∧ OutOfFloats q) ∧
    (∀ i addr, lo ≤ i → i ≤ hi →
      pllua_numeric_tointeger c lo hi isint isnumber (.datum ⟨addr, c.int8_numeric i⟩) =
        .ok (.integer i)) := by
  have hback : ∀ i addr, lo ≤ i → i ≤ hi →
      pllua_numeric_tointeger c lo hi isint isnumber (.datum ⟨addr, c.int8_numeric i⟩) =
        .ok (.integer i) := by
    intro i addr hl hr
    rcases exact_integer_spec h hlo hhi (c.int8_numeric i) with ⟨j, hj, -, -, hexact⟩ | ⟨hnone, -⟩
    · rw [h.int8_numeric, Numeric.fin.injEq, Int.cast_inj] at hj
      rw [← hj] at hexact
      exact (calls_of_integer isnumber hisint hexact).1
    · exact absurd ⟨hl, hr⟩ (hnone i (h.int8_numeric i))
  rcases exact_integer_spec h hlo hhi v.num with ⟨j, hj, hl, hr, hexact⟩ | ⟨hnone, hexact⟩
  · obtain ⟨hint, hnum⟩ := calls_of_integer isnumber hisint hexact
    have hsame : ∀ i : Int, v.num = .fin i → i = j := by
      intro i hi
      rw [hj, Numeric.fin.injEq, Int.cast_inj] at hi
      exact hi.symm
    have hiff : ∀ i, j = i ↔ v.num = .fin i ∧ lo ≤ i ∧ i ≤ hi := by
      intro i
      constructor
      · rintro rfl
        exact ⟨hj, hl, hr⟩
      · exact fun hi => (hsame i hi.1).symm
    refine ⟨fun i => ?_, fun hno => absurd ⟨hl, hr⟩ (hno j hj), fun i => ?_,
      fun hno => absurd ⟨hl, hr⟩ (hno j hj), hback⟩
    · rw [hint, ← hiff]
      simp
    · rw [hnum, ← hiff]
      simp
  · obtain ⟨hint, hnum⟩ := calls_of_other isnumber hisint hexact
    have hno : ∀ i : Int, ¬ (v.num = .fin i ∧ lo ≤ i ∧ i ≤ hi) := fun i hi => hnone i hi.1 hi.2
    refine ⟨fun i => ?_, fun _ => hint, fun i => ?_, fun _ => ?_, hback⟩
    · rw [hint, iff_false_right (hno i)]
      simp
    · rw [hnum, iff_false_right (hno i)]
      cases c.numeric_float8 v.num <;> simp
    · rcases hfloat with ⟨f, hf, hnear⟩ | ⟨⟨e, he⟩, hout⟩
      · rw [hf] at hnum
        exact Or.inl ⟨f, hnum, hnear⟩
      · rw [he] at hnum
        exact Or.inr ⟨⟨e, hnum⟩, hout⟩

end

instance (i : Int) : Decidable (IsInt8 i) := by unfold IsInt8; infer_instance

instance (q : ℚ) : Decidable (OutOfFloats q) := by unfold OutOfFloats; infer_instance

/-- Functions as PostgreSQL documents them, but that the float of a number in range is the
number. -/
def trial_conversions : Conversions String where
  numeric_lt := Numeric.lt
  numeric_gt := fun x y => y.lt x
  numeric_eq := fun x y => decide (x = y)
  numeric_is_nan := fun x => decide (x = .nan)
  numeric_int8
    | .fin q => if IsInt8 (round_away q) then .ok (round_away q) else .error "bigint out of range"
    | .nan => .error "cannot convert NaN to bigint"
    | .inf _ => .error "cannot convert infinity to bigint"
  int8_numeric := fun i => .fin i
  numeric_float8
    | .fin q =>
      if OutOfFloats q then .error "value out of range for type double precision" else .ok (.fin q)
    | .nan => .ok .nan
    | .inf neg => .ok (.inf neg)
  no_number := "number"

theorem trial_documented : Documented trial_conversions where
  lt := fun _ _ => rfl
  gt := fun _ _ => rfl
  eq := fun _ _ => rfl
  is_nan := fun _ => rfl
  int8_numeric := fun _ => rfl
  int8 := fun _ h => if_pos h

def LUA_MININTEGER : Int := -9223372036854775808
def LUA_MAXINTEGER : Int := 9223372036854775807

/-- A half is no integer. -/
theorem tointeger_half :
    pllua_numeric_tointeger trial_conversions LUA_MININTEGER LUA_MAXINTEGER (fun _ => false)
      (fun _ => false) (.datum ⟨0, .fin (1 / 2)⟩ : Arg Unit Unit) = .ok .nil := by
  have hin : ¬ OutOfFloats (1 / 2) := by
    have hsmall : (2 : ℚ) ^ (-1075 : ℤ) < 2 ^ (-1 : ℤ) :=
      zpow_lt_zpow_right₀ (by norm_num) (by norm_num)
    have hlarge : (2 : ℚ) ^ 970 ≤ 2 ^ 1023 := pow_le_pow_right₀ (by norm_num) (by norm_num)
    have hone : (1 : ℚ) ≤ 2 ^ 1023 := one_le_pow₀ (by norm_num)
    have htwice : (2 : ℚ) ^ 1024 = 2 * 2 ^ 1023 := pow_succ' 2 1023
    have hhalf : (2 : ℚ) ^ (-1 : ℤ) = 1 / 2 := by norm_num
    rw [hhalf] at hsmall
    rintro (h | ⟨-, h⟩)
    · rw [abs_of_pos (by norm_num : (0 : ℚ) < 1 / 2), htwice] at h
      generalize (2 : ℚ) ^ 1023 = a at hlarge hone h
      generalize (2 : ℚ) ^ 970 = b at hlarge h
      linarith
    · rw [abs_of_pos (by norm_num : (0 : ℚ) < 1 / 2)] at h
      linarith
  have hfloat : FloatAt trial_conversions (.fin (1 / 2)) := by
    refine Or.inl ⟨.fin (1 / 2), if_neg hin, ⟨1, -1, by norm_num⟩, fun w _ => ?_⟩
    rw [sub_self, abs_zero]
    exact abs_nonneg _
  refine (tointeger_tonumber_exact trial_documented (by decide) (by decide) (fun _ => rfl)
    ⟨0, .fin (1 / 2)⟩ hfloat).2.1 ?_
  intro i hi
  injection hi with hi
  have hone : ((1 : ℤ) : ℚ) = ((2 * i : ℤ) : ℚ) := by
    push_cast
    linarith
  have hone' : 1 = 2 * i := by exact_mod_cast hone
  omega

/-- The number 10^400 has no float near to it: `tonumber` raises an error. -/
theorem tonumber_out_of_range :
    ¬ ∃ f, pllua_numeric_tonumber trial_conversions LUA_MININTEGER LUA_MAXINTEGER
      (fun _ => false) (.datum ⟨0, .fin (10 ^ 400)⟩ : Arg Unit Unit) = .ok (.float f) := by
  have hout : OutOfFloats (10 ^ 400) := by
    refine Or.inl ?_
    rw [abs_of_pos (by positivity)]
    have hpos : (0 : ℚ) ≤ 2 ^ 970 := by positivity
    calc (2 : ℚ) ^ 1024 - 2 ^ 970 ≤ 2 ^ 1024 := sub_le_self _ hpos
      _ ≤ 2 ^ (3 * 400) := pow_le_pow_right₀ (by norm_num) (by norm_num)
      _ = (2 ^ 3) ^ 400 := pow_mul 2 3 400
      _ ≤ 10 ^ 400 := pow_le_pow_left₀ (by norm_num) (by norm_num) 400
  have hfloat : trial_conversions.numeric_float8 (.fin (10 ^ 400)) =
      .error "value out of range for type double precision" := by
    simp only [trial_conversions, if_pos hout]
  have hgt : (LUA_MAXINTEGER : ℚ) < 10 ^ 400 := by
    calc (LUA_MAXINTEGER : ℚ) < 10 ^ 20 := by norm_num [LUA_MAXINTEGER]
      _ ≤ 10 ^ 400 := pow_le_pow_right₀ (by norm_num) (by norm_num)
  have hexact : exact_integer trial_conversions LUA_MININTEGER LUA_MAXINTEGER
      (.fin (10 ^ 400)) = .ok none :=
    exact_integer_none (Or.inr (Or.inl (decide_eq_true hgt)))
  rintro ⟨f, hf⟩
  simp only [pllua_numeric_tonumber, hexact, hfloat, reduceCtorEq] at hf

end pllua.numeric
