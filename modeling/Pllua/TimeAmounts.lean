-- What the fields of a table say: their numbers without the bounds of the machine. The
-- constructor reads these numbers where they fit.
import Pllua.TimeRoundTrip

open pllua.floats pllua.rounding
open pllua.constructors (c_int bind_eq_ok)
open pllua.numeric (Float8 c_int_eq_iff)
open pllua.time

namespace pllua.datetime

/-! ## Numbers -/

/-- What a value is for `getnumber`: a float that is an integer of 64 bits is one. A field that is
missing is 0. -/
def LuaVal.reads (v : LuaVal) : Got :=
  match v.tonumber with
  | some (.integer i) => .int i.toInt
  | some (.float (.inf neg)) => .infinite neg
  | some (.float (.fin q)) =>
    if q = ⌊q⌋ ∧ -2 ^ 63 ≤ q ∧ q < 2 ^ 63 then .int ⌊q⌋ else .float q
  | _ => .int 0

/-- The number of a field that is finite. -/
def Got.amount : Got → ℚ
  | .int i => i
  | .float q => q
  | .infinite _ => 0

def LuaVal.amount (v : LuaVal) : ℚ := v.reads.amount

/-- The whole units of a field. -/
def LuaVal.whole (v : LuaVal) : Int := ⌊v.amount⌋

def LuaVal.Finite (v : LuaVal) : Prop := ∀ neg, v.reads ≠ .infinite neg

/-- The product with a number. That of a float is rounded to an integer. -/
def Got.scaled (scale : Int) : Got → Int
  | .int i => i * scale
  | .float q => llrint (to_float (q * scale))
  | .infinite _ => 0

def LuaVal.scaled (v : LuaVal) (scale : Int) : Int := v.reads.scaled scale

/-- The microseconds beyond the whole seconds, from 0 to 10^6. -/
def Got.sec_usec : Got → Int
  | .float q =>
    have usec := rint (round_double ((modf |q|).2 * 1000000))
    if q < 0 then 1000000 - usec else usec
  | _ => 0

def LuaVal.sec_usec (v : LuaVal) : Int := v.reads.sec_usec

/-- The nearest integer of a float. -/
def Got.rounded : Got → Int
  | .int i => i
  | .float q => llrint (.fin q)
  | .infinite _ => 0

def LuaVal.rounded (v : LuaVal) : Int := v.reads.rounded

/-- The product with a number fits 64 bits. That of a float is less than 1 from the integer that it
is rounded to. -/
def Got.ScaleFits (scale : Int) : Got → Prop
  | .int i => -2 ^ 63 ≤ i * scale ∧ i * scale < 2 ^ 63
  | .float q => |q * scale - llrint (to_float (q * scale))| < 1
  | .infinite _ => True

def LuaVal.ScaleFits (v : LuaVal) (scale : Int) : Prop := v.reads.ScaleFits scale

/-- A float is less than 1 from the integer that it is rounded to. -/
def Got.RoundFits : Got → Prop
  | .float q => |q - llrint (.fin q)| < 1
  | _ => True

def LuaVal.RoundFits (v : LuaVal) : Prop := v.reads.RoundFits

/-- An `int`. -/
def Fits32 (k : Int) : Prop := -2 ^ 31 ≤ k ∧ k < 2 ^ 31

theorem c_int_eq {k : Int} (h : Fits32 k) : c_int k = k := by
  unfold Fits32 at h
  exact (c_int_eq_iff k).mpr (by omega)

theorem reads_nil {v : LuaVal} (h : v.is_nil = true) : v.reads = .int 0 := by
  cases v with
  | nil => rfl
  | boolean b => cases h
  | number n => cases h
  | string s n => cases h
  | other => cases h

/-- What `getnumber` takes. -/
theorem getnumber_reads {v : LuaVal} {fval : Bool} {inf_sign : Option Int} {name : String} {g : Got}
    (h : getnumber v fval inf_sign name = .ok g) :
    v.reads = g ∧ (∀ q, g = .float q → fval = true) ∧
      ∀ neg, g = .infinite neg →
        ∃ sign, inf_sign = some sign ∧ (sign = 0 ∨ inf_sign_of neg = sign) := by
  unfold getnumber at h
  unfold LuaVal.reads
  dsimp only at h
  split at h
  · cases h
  · rename_i i hnum
    cases h
    rw [hnum]
    exact ⟨rfl, fun q hq => (by cases hq), fun neg hneg => (by cases hneg)⟩
  · cases h
  · rename_i neg hnum
    rw [hnum]
    split at h
    · cases h
    · rename_i sign
      split at h
      · cases h
      · rename_i hsign
        cases h
        refine ⟨rfl, fun q hq => (by cases hq), fun neg' hneg => ?_⟩
        cases hneg
        exact ⟨sign, rfl, by omega⟩
  · rename_i q hnum
    rw [hnum]
    dsimp only
    split at h
    · rename_i hint
      cases h
      rw [if_pos hint]
      exact ⟨rfl, fun q hq => (by cases hq), fun neg hneg => (by cases hneg)⟩
    · rename_i hint
      rw [if_neg hint]
      split at h
      · rename_i hf
        cases h
        exact ⟨rfl, fun _ _ => hf, fun neg hneg => (by cases hneg)⟩
      · cases h

/-- A float that is read is not an integer of 64 bits. -/
theorem reads_float {v : LuaVal} {q : ℚ} (h : v.reads = .float q) :
    ¬ (q = ⌊q⌋ ∧ -2 ^ 63 ≤ q ∧ q < 2 ^ 63) := by
  unfold LuaVal.reads at h
  split at h
  · cases h
  · cases h
  · split at h
    · cases h
    · rename_i hint
      cases h
      exact hint
  · cases h

theorem finite_int {v : LuaVal} {i : Int} (h : v.reads = .int i) : v.Finite := by
  intro neg hneg
  rw [h] at hneg
  cases hneg

theorem finite_float {v : LuaVal} {q : ℚ} (h : v.reads = .float q) : v.Finite := by
  intro neg hneg
  rw [h] at hneg
  cases hneg

theorem whole_int {v : LuaVal} {i : Int} (h : v.reads = .int i) : v.whole = i := by
  unfold LuaVal.whole LuaVal.amount
  rw [h]
  exact Int.floor_intCast i

/-- What a finite field gives is near to its number, and is the number if that is whole. -/
theorem scaled_near {v : LuaVal} {scale : Int} (hfin : v.Finite) (h : v.ScaleFits scale) :
    |v.amount * scale - v.scaled scale| < 1 := by
  unfold LuaVal.ScaleFits at h
  unfold LuaVal.amount LuaVal.scaled
  cases hg : v.reads with
  | int i =>
    simp only [Got.amount, Got.scaled, Int.cast_mul, sub_self, abs_zero]
    exact one_pos
  | float q =>
    rw [hg] at h
    exact h
  | infinite neg => exact absurd hg (hfin neg)

theorem rounded_near {v : LuaVal} (hfin : v.Finite) (h : v.RoundFits) :
    |v.amount - v.rounded| < 1 := by
  unfold LuaVal.RoundFits at h
  unfold LuaVal.amount LuaVal.rounded
  cases hg : v.reads with
  | int i =>
    simp only [Got.amount, Got.rounded, sub_self, abs_zero]
    exact one_pos
  | float q =>
    rw [hg] at h
    exact h
  | infinite neg => exact absurd hg (hfin neg)

/-- The fraction of a second in microseconds. -/
theorem fraction_usec {x : ℚ} (hnn : 0 ≤ x) (hlt : x < 1) :
    |x * 1000000 - rint (round_double (x * 1000000))| < 1 ∧
      |round_double (x * 1000000)| < 2 ^ (64 : ℤ) ∧
      (0 ≤ rint (round_double (x * 1000000)) ∧ rint (round_double (x * 1000000)) ≤ 1000000) := by
  have hsize : |x * 1000000| < 2 ^ (20 : ℤ) := by
    have hpower : (2 : ℚ) ^ (20 : ℤ) = 1048576 := by norm_num
    rw [hpower, abs_of_nonneg (by positivity)]
    linarith
  have hround := (round_double_near hsize (by norm_num)).trans
    (by norm_num : (2 : ℚ) ^ (20 - 54 : ℤ) ≤ 1 / 4)
  have hrint := rint_near (round_double (x * 1000000))
  have hround' := abs_le.mp hround
  have hrint' := abs_le.mp hrint
  have hlow : (-1 : ℚ) < rint (round_double (x * 1000000)) := by linarith
  have hhigh : (rint (round_double (x * 1000000)) : ℚ) < 1000001 := by linarith
  refine ⟨abs_lt.mpr ⟨by linarith, by linarith⟩, ?_, ?_, ?_⟩
  · have hpower : (2000000 : ℚ) < 2 ^ (64 : ℤ) := by norm_num
    exact (abs_lt.mpr ⟨by linarith, by linarith⟩ :
      |round_double (x * 1000000)| < 2000000).trans hpower
  · have hlow' : (-1 : ℤ) < rint (round_double (x * 1000000)) := by exact_mod_cast hlow
    omega
  · have hhigh' : rint (round_double (x * 1000000)) < 1000001 := by exact_mod_cast hhigh
    omega

/-- The whole seconds and the fraction of a float that is no integer. -/
theorem modf_abs {q : ℚ} (h : q ≠ ⌊q⌋) :
    (0 ≤ (modf |q|).2 ∧ (modf |q|).2 < 1) ∧ (modf |q|).1 + (modf |q|).2 = |q| ∧
      (modf |q|).1 = if q < 0 then -⌊q⌋ - 1 else ⌊q⌋ := by
  have htrunc : truncate |q| = ⌊|q|⌋ := by
    unfold truncate
    rw [if_pos (abs_nonneg q)]
  have hle := Int.floor_le |q|
  have hlt := Int.lt_floor_add_one |q|
  unfold modf
  dsimp only
  rw [htrunc]
  refine ⟨⟨by linarith, by linarith⟩, by ring, ?_⟩
  split
  · rename_i hneg
    have hle' := lt_of_le_of_ne (Int.floor_le q) (Ne.symm h)
    have hlt' := Int.lt_floor_add_one q
    rw [abs_of_neg hneg, Int.floor_eq_iff]
    push_cast
    exact ⟨by linarith, by linarith⟩
  · rename_i hneg
    rw [abs_of_nonneg (not_lt.mp hneg)]

/-! ## One field -/

/-- The sign of what is infinite among the values, which have one sign. -/
structure Signed (vs : List LuaVal) (sign : Int) : Prop where
  infinite : ∀ v ∈ vs, ∀ neg, v.reads = .infinite neg → sign = inf_sign_of neg
  finite : (∀ v ∈ vs, v.Finite) → sign = 0

theorem inf_sign_of_ne (neg : Bool) : inf_sign_of neg ≠ 0 := by cases neg <;> decide

theorem Signed.finite_cons {vs : List LuaVal} {sign : Int} {v : LuaVal} (h : Signed vs sign)
    (hv : v.Finite) : Signed (v :: vs) sign := by
  refine ⟨fun w hw neg hneg => ?_, fun hall => h.finite fun w hw => hall w (List.mem_cons_of_mem v hw)⟩
  rcases List.mem_cons.mp hw with rfl | hw
  · exact absurd hneg (hv neg)
  · exact h.infinite w hw neg hneg

theorem Signed.infinite_cons {vs : List LuaVal} {sign : Int} {v : LuaVal} {neg : Bool}
    (h : Signed vs sign) (hv : v.reads = .infinite neg)
    (hsign : sign = 0 ∨ inf_sign_of neg = sign) : Signed (v :: vs) (inf_sign_of neg) := by
  refine ⟨fun w hw neg' hneg => ?_, fun hall => absurd hv (hall v List.mem_cons_self neg)⟩
  rcases List.mem_cons.mp hw with rfl | hw
  · rw [hv] at hneg
    cases hneg
    rfl
  · have hother := h.infinite w hw neg' hneg
    rcases hsign with hzero | hsame
    · exact absurd (hother.symm.trans hzero) (inf_sign_of_ne neg')
    · exact hsame.trans hother

theorem TMGET_ok {name : String} {v : LuaVal} {sign k sign' : Int} {vs : List LuaVal}
    (h : TMGET name v sign = .ok (k, sign')) (hs : Signed vs sign) :
    k = c_int v.whole ∧ Signed (v :: vs) sign' := by
  unfold TMGET at h
  split at h
  · rename_i hnil
    have hreads := reads_nil hnil
    cases h
    rw [whole_int hreads]
    exact ⟨c_int_zero.symm, hs.finite_cons (finite_int hreads)⟩
  · cases hnum : getnumber v false (some sign) name with
    | error e =>
      rw [hnum] at h
      cases h
    | ok g =>
      obtain ⟨hreads, hfloat, hinf⟩ := getnumber_reads hnum
      rw [hnum] at h
      cases g with
      | int i =>
        cases h
        rw [whole_int hreads]
        exact ⟨rfl, hs.finite_cons (finite_int hreads)⟩
      | float q => cases hfloat q rfl
      | infinite neg =>
        obtain ⟨sign', hsome, hsign⟩ := hinf neg rfl
        cases hsome
        cases h
        have hwhole : v.whole = 0 := by
          unfold LuaVal.whole LuaVal.amount
          rw [hreads]
          exact Int.floor_intCast 0
        rw [hwhole]
        exact ⟨c_int_zero.symm, hs.infinite_cons hreads hsign⟩

/-- The numbers that may be a float. -/
theorem read_float_ok {name : String} {v : LuaVal} {f f' : Fields} {int : Int → Fields}
    {float : Fields → Fields} (h : read_float name v f int float = .ok f') :
    (v.is_nil = true ∧ v.reads = .int 0 ∧ f' = f) ∨
      (v.is_nil = false ∧ ∃ i, v.reads = .int i ∧ f' = int i) ∨
      (v.is_nil = false ∧ ∃ q, v.reads = .float q ∧ f' = float { f with tmpflt := q }) ∨
      ∃ neg, v.reads = .infinite neg ∧ (f.inf_sign = 0 ∨ inf_sign_of neg = f.inf_sign) ∧
        f' = float { f with inf_sign := inf_sign_of neg } := by
  unfold read_float at h
  split at h
  · rename_i hnil
    cases h
    exact Or.inl ⟨hnil, reads_nil hnil, rfl⟩
  · rename_i hnil
    have hnil' : v.is_nil = false := Bool.eq_false_iff.mpr hnil
    refine Or.inr ?_
    cases hnum : getnumber v true (some f.inf_sign) name with
    | error e =>
      rw [hnum] at h
      cases h
    | ok g =>
      obtain ⟨hreads, -, hinf⟩ := getnumber_reads hnum
      rw [hnum] at h
      cases g with
      | int i =>
        cases h
        exact Or.inl ⟨hnil', i, hreads, rfl⟩
      | float q =>
        cases h
        exact Or.inr (Or.inl ⟨hnil', q, hreads, rfl⟩)
      | infinite neg =>
        obtain ⟨sign, hsome, hsign⟩ := hinf neg rfl
        cases hsome
        cases h
        exact Or.inr (Or.inr ⟨neg, hreads, hsign, rfl⟩)

/-- A field that may be a float keeps the sign of what is infinite. -/
theorem read_float_signed {name : String} {v : LuaVal} {f f' : Fields} {int : Int → Fields}
    {float : Fields → Fields} {vs : List LuaVal} (h : read_float name v f int float = .ok f')
    (hint : ∀ i, (int i).inf_sign = f.inf_sign) (hfloat : ∀ g, (float g).inf_sign = g.inf_sign)
    (hs : Signed vs f.inf_sign) : Signed (v :: vs) f'.inf_sign := by
  rcases read_float_ok h with ⟨-, hreads, rfl⟩ | ⟨-, i, hreads, rfl⟩ | ⟨-, q, hreads, rfl⟩ |
    ⟨neg, hreads, hsign, rfl⟩
  · exact hs.finite_cons (finite_int hreads)
  · rw [hint i]
    exact hs.finite_cons (finite_int hreads)
  · rw [hfloat]
    exact hs.finite_cons (finite_float hreads)
  · rw [hfloat]
    exact hs.infinite_cons hreads hsign

/-! ## Each field -/

/-- The seconds of a float: the whole ones below it, and the microseconds beyond these. -/
theorem float_sec_eq {q : ℚ} (hq : q ≠ ⌊q⌋) (hfits : Fits32 ⌊q⌋) :
    float_sec q = (⌊q⌋, (Got.float q).sec_usec) := by
  obtain ⟨⟨hnn, hlt⟩, -, hint⟩ := modf_abs hq
  obtain ⟨-, hsize, hlow, hhigh⟩ := fraction_usec hnn hlt
  unfold Fits32 at hfits
  have husec : c_int (llrint (to_float ((modf |q|).2 * 1000000))) =
      rint (round_double ((modf |q|).2 * 1000000)) := by
    rw [to_float_small hsize]
    unfold llrint
    dsimp only
    rw [if_pos (by omega)]
    exact (c_int_eq_iff _).mpr (by omega)
  unfold float_sec Got.sec_usec
  dsimp only
  rw [husec]
  by_cases hneg : q < 0
  · rw [if_pos hneg] at hint
    have hfloor : ⌊q⌋ < 0 := Int.floor_lt.mpr (by exact_mod_cast hneg)
    have hto : float_to_int (modf |q|).1 = -⌊q⌋ - 1 := by
      unfold float_to_int
      rw [hint, if_pos (by omega)]
    rw [if_pos hneg, if_pos hneg, hto, (c_int_eq_iff (-(-⌊q⌋ - 1 + 1))).mpr (by omega),
      (c_int_eq_iff _).mpr (by omega)]
    have hback : -(-⌊q⌋ - 1 + 1) = ⌊q⌋ := by omega
    rw [hback]
  · rw [if_neg hneg] at hint
    have hto : float_to_int (modf |q|).1 = ⌊q⌋ := by
      unfold float_to_int
      rw [hint, if_pos hfits]
    rw [if_neg hneg, if_neg hneg, hto]

theorem whole_float {v : LuaVal} {q : ℚ} (h : v.reads = .float q) : v.whole = ⌊q⌋ := by
  unfold LuaVal.whole LuaVal.amount
  rw [h]
  rfl

/-- A float in the range of an `int` is read as a float only if it has a fraction. -/
theorem float_fraction {v : LuaVal} {q : ℚ} (h : v.reads = .float q) (hfits : Fits32 v.whole) :
    q ≠ ⌊q⌋ := by
  intro hint
  rw [whole_float h] at hfits
  unfold Fits32 at hfits
  refine reads_float h ⟨hint, ?_, ?_⟩
  · rw [hint]
    exact_mod_cast (by omega : -2 ^ 63 ≤ ⌊q⌋)
  · rw [hint]
    exact_mod_cast (by omega : ⌊q⌋ < 2 ^ 63)

/-- The whole seconds and the microseconds together are near to the seconds. -/
theorem sec_near {v : LuaVal} (hfin : v.Finite) (hfits : Fits32 v.whole) :
    |v.amount * 1000000 - (v.whole * 1000000 + v.sec_usec : ℤ)| < 1 := by
  cases hg : v.reads with
  | int i =>
    rw [whole_int hg]
    unfold LuaVal.amount LuaVal.sec_usec
    rw [hg]
    simp only [Got.amount, Got.sec_usec, Int.add_zero, Int.cast_mul, Int.cast_ofNat, sub_self,
      abs_zero]
    exact one_pos
  | infinite neg => exact absurd hg (hfin neg)
  | float q =>
    have hq := float_fraction hg hfits
    obtain ⟨⟨hnn, hlt⟩, htotal, hint⟩ := modf_abs hq
    obtain ⟨hnear, -, -⟩ := fraction_usec hnn hlt
    have hamount : v.amount = q := by
      unfold LuaVal.amount
      rw [hg]
      rfl
    have husec : v.sec_usec = (Got.float q).sec_usec := by
      unfold LuaVal.sec_usec
      rw [hg]
    rw [whole_float hg, hamount, husec]
    unfold Got.sec_usec
    dsimp only
    generalize rint (round_double ((modf |q|).2 * 1000000)) = r at hnear ⊢
    generalize (modf |q|).2 = x at htotal hnear ⊢
    by_cases hneg : q < 0
    · rw [if_pos hneg] at hint
      rw [hint, abs_of_neg hneg] at htotal
      push_cast at htotal
      rw [if_pos hneg, abs_sub_comm]
      have heq : ((⌊q⌋ * 1000000 + (1000000 - r) : ℤ) : ℚ) - q * 1000000 =
          x * 1000000 - r := by
        push_cast
        linarith
      rw [heq]
      exact hnear
    · rw [if_neg hneg] at hint
      rw [hint, abs_of_nonneg (not_lt.mp hneg)] at htotal
      rw [if_neg hneg]
      have heq : q * 1000000 - ((⌊q⌋ * 1000000 + r : ℤ) : ℚ) = x * 1000000 - r := by
        push_cast
        linarith
      rw [heq]
      exact hnear

theorem scaled_int {v : LuaVal} {i : Int} (h : v.reads = .int i) (scale : Int) :
    v.scaled scale = i * scale := by
  unfold LuaVal.scaled
  rw [h]
  rfl

theorem scaled_float {v : LuaVal} {q : ℚ} (h : v.reads = .float q) (scale : Int) :
    v.scaled scale = llrint (to_float (q * scale)) := by
  unfold LuaVal.scaled
  rw [h]
  rfl

section
variable {t : Table} {f f' : Fields}

theorem read_sec_ok (h : read_sec t f = .ok f') (hfin : t.sec.Finite) (hfits : Fits32 t.sec.whole)
    (hsec : f.tm.tm_sec = 0) (husec : f.microsecs = 0) :
    f'.tm = { f.tm with tm_sec := t.sec.whole } ∧ f'.microsecs = t.sec.sec_usec ∧
      f'.epoch_microsecs = f.epoch_microsecs := by
  rcases read_float_ok h with ⟨-, hreads, rfl⟩ | ⟨-, i, hreads, rfl⟩ | ⟨-, q, hreads, rfl⟩ |
    ⟨neg, hreads, -, -⟩
  · rw [whole_int hreads, ← hsec]
    refine ⟨rfl, ?_, rfl⟩
    rw [husec]
    unfold LuaVal.sec_usec
    rw [hreads]
    rfl
  · have hint := whole_int hreads
    rw [hint] at hfits ⊢
    refine ⟨?_, ?_, rfl⟩
    · dsimp only
      rw [c_int_eq hfits]
    · unfold LuaVal.sec_usec
      rw [hreads]
      exact husec
  · have hq := float_fraction hreads hfits
    rw [whole_float hreads] at hfits ⊢
    have hsec' := float_sec_eq hq hfits
    dsimp only
    rw [hsec']
    refine ⟨rfl, ?_, rfl⟩
    unfold LuaVal.sec_usec
    rw [hreads]
  · exact absurd hreads (hfin neg)

theorem read_msec_ok (h : read_msec t f = .ok f') (hfin : t.msec.Finite)
    (hfits : t.msec.ScaleFits 1000) (husec : c_int64 f.microsecs = f.microsecs) :
    f'.tm = f.tm ∧ f'.microsecs = c_int64 (f.microsecs + t.msec.scaled 1000) ∧
      f'.epoch_microsecs = f.epoch_microsecs := by
  unfold LuaVal.ScaleFits at hfits
  rcases read_float_ok h with ⟨-, hreads, rfl⟩ | ⟨-, i, hreads, rfl⟩ | ⟨-, q, hreads, rfl⟩ |
    ⟨neg, hreads, -, -⟩
  · rw [scaled_int hreads, Int.zero_mul, Int.add_zero, husec]
    exact ⟨rfl, rfl, rfl⟩
  · rw [hreads] at hfits
    rw [scaled_int hreads]
    dsimp only
    rw [c_int64_eq hfits]
    exact ⟨rfl, rfl, rfl⟩
  · rw [scaled_float hreads, Int.cast_ofNat]
    exact ⟨rfl, rfl, rfl⟩
  · exact absurd hreads (hfin neg)

theorem read_usec_ok (h : read_usec t f = .ok f') (hfin : t.usec.Finite)
    (husec : c_int64 f.microsecs = f.microsecs) :
    f'.tm = f.tm ∧ f'.microsecs = c_int64 (f.microsecs + t.usec.rounded) ∧
      f'.epoch_microsecs = f.epoch_microsecs := by
  unfold LuaVal.rounded
  rcases read_float_ok h with ⟨-, hreads, rfl⟩ | ⟨-, i, hreads, rfl⟩ | ⟨-, q, hreads, rfl⟩ |
    ⟨neg, hreads, -, -⟩
  · rw [hreads]
    simp only [Got.rounded, Int.add_zero, husec, and_self]
  · rw [hreads]
    exact ⟨rfl, rfl, rfl⟩
  · rw [hreads]
    exact ⟨rfl, rfl, rfl⟩
  · exact absurd hreads (hfin neg)

/-- An epoch field takes the place of one before it. -/
theorem read_epoch_ok {name : String} {v : LuaVal} {scale : Int}
    (h : read_epoch name v scale f = .ok f') (hfin : v.Finite) (hfits : v.ScaleFits scale) :
    f'.tm = f.tm ∧ f'.microsecs = f.microsecs ∧
      f'.epoch_microsecs = if v.is_nil then f.epoch_microsecs else v.scaled scale := by
  unfold LuaVal.ScaleFits at hfits
  rcases read_float_ok h with ⟨hnil, hreads, rfl⟩ | ⟨hnil, i, hreads, rfl⟩ |
    ⟨hnil, q, hreads, rfl⟩ | ⟨neg, hreads, -, -⟩
  · rw [if_pos hnil]
    exact ⟨rfl, rfl, rfl⟩
  · rw [hreads] at hfits
    rw [hnil, if_neg Bool.false_ne_true, scaled_int hreads]
    dsimp only
    rw [c_int64_eq hfits]
    exact ⟨rfl, rfl, rfl⟩
  · rw [hnil, if_neg Bool.false_ne_true, scaled_float hreads]
    exact ⟨rfl, rfl, rfl⟩
  · exact absurd hreads (hfin neg)

end

/-! ## All fields -/

/-- The fields that hold a number. -/
def Table.numbers (t : Table) : List LuaVal :=
  [t.epoch_usec, t.epoch_msec, t.epoch, t.usec, t.msec, t.sec, t.min, t.hour, t.day, t.month, t.year]

def Table.Finite (t : Table) : Prop := ∀ v ∈ t.numbers, v.Finite

/-- The calendar fields in whole units. -/
def Table.tm (t : Table) : pg_tm :=
  ⟨t.sec.whole, t.min.whole, t.hour.whole, t.day.whole, t.month.whole, t.year.whole,
    isdst_of t.isdst, 0⟩

/-- The microseconds of the fraction of the second, and of `msec` and `usec`. -/
def Table.microsecs (t : Table) : Int :=
  t.sec.sec_usec + t.msec.scaled 1000 + t.usec.rounded

/-- The microseconds of the epoch that is given. -/
def Table.epoch_microsecs (t : Table) : Int :=
  t.epoch.scaled 1000000 + t.epoch_msec.scaled 1000 + t.epoch_usec.scaled 1

/-- The seconds are an `int`, and the products fit. -/
structure Table.Fits (t : Table) : Prop where
  sec : Fits32 t.sec.whole
  msec : t.msec.ScaleFits 1000
  usec : t.usec.RoundFits
  epoch : t.epoch.ScaleFits 1000000
  epoch_msec : t.epoch_msec.ScaleFits 1000
  epoch_usec : t.epoch_usec.ScaleFits 1

section
variable {t : Table} {f : Fields}

theorem read_calendar_ok (h : read_calendar t = .ok f) :
    Signed [t.min, t.hour, t.day, t.month, t.year] f.inf_sign ∧
      f.tm = ⟨0, c_int t.min.whole, c_int t.hour.whole, c_int t.day.whole, c_int t.month.whole,
        c_int t.year.whole, isdst_of t.isdst, 0⟩ ∧
      f.microsecs = 0 ∧ f.epoch_microsecs = 0 := by
  unfold read_calendar at h
  have hnone : Signed [] 0 := ⟨fun v hv => absurd hv List.not_mem_nil, fun _ => rfl⟩
  obtain ⟨⟨year, s⟩, hyear, h⟩ := bind_eq_ok h
  obtain ⟨rfl, hs⟩ := TMGET_ok hyear hnone
  obtain ⟨⟨month, s'⟩, hmonth, h⟩ := bind_eq_ok h
  obtain ⟨rfl, hs⟩ := TMGET_ok hmonth hs
  obtain ⟨⟨day, s'⟩, hday, h⟩ := bind_eq_ok h
  obtain ⟨rfl, hs⟩ := TMGET_ok hday hs
  obtain ⟨⟨hour, s'⟩, hhour, h⟩ := bind_eq_ok h
  obtain ⟨rfl, hs⟩ := TMGET_ok hhour hs
  obtain ⟨⟨min, s'⟩, hmin, h⟩ := bind_eq_ok h
  obtain ⟨rfl, hs⟩ := TMGET_ok hmin hs
  cases h
  exact ⟨hs, rfl, rfl, rfl⟩

/-- Of the fields of the epoch only one is there. -/
theorem one_epoch (h : t.found_epoch ≤ 1) :
    (t.epoch.is_nil = true ∧ t.epoch_msec.is_nil = true) ∨
      (t.epoch.is_nil = true ∧ t.epoch_usec.is_nil = true) ∨
      (t.epoch_msec.is_nil = true ∧ t.epoch_usec.is_nil = true) := by
  unfold Table.found_epoch at h
  cases h1 : t.epoch.is_nil <;> cases h2 : t.epoch_msec.is_nil <;>
    cases h3 : t.epoch_usec.is_nil <;> simp [h1, h2, h3] at h ⊢

theorem scaled_nil {v : LuaVal} (h : v.is_nil = true) (scale : Int) : v.scaled scale = 0 := by
  rw [scaled_int (reads_nil h), Int.zero_mul]

theorem scaled_if {v : LuaVal} (scale : Int) :
    (if v.is_nil = true then 0 else v.scaled scale) = v.scaled scale := by
  split
  · rename_i h
    exact (scaled_nil h scale).symm
  · rfl

/-- The microseconds of a second. -/
theorem sec_usec_range {v : LuaVal} (hfits : Fits32 v.whole) :
    0 ≤ v.sec_usec ∧ v.sec_usec ≤ 1000000 := by
  unfold LuaVal.sec_usec
  cases hg : v.reads with
  | int i => exact ⟨le_refl 0, (by decide : (0 : Int) ≤ 1000000)⟩
  | infinite neg => exact ⟨le_refl 0, (by decide : (0 : Int) ≤ 1000000)⟩
  | float q =>
    obtain ⟨⟨hnn, hlt⟩, -, -⟩ := modf_abs (float_fraction hg hfits)
    obtain ⟨-, -, hlow, hhigh⟩ := fraction_usec hnn hlt
    unfold Got.sec_usec
    dsimp only
    split <;> omega

theorem c_int64_twice (k : Int) : c_int64 (c_int64 k) = c_int64 k := by
  unfold c_int64
  exact Int.bmod_bmod

theorem c_int64_add (a b : Int) : c_int64 (c_int64 a + b) = c_int64 (a + b) := by
  unfold c_int64
  exact Int.bmod_add_bmod

/-- What is read of a table. -/
theorem read_table_ok {Z : Type} {pg : Pg Z} {z : Zone} (htz : t.timezone = .nil)
    (h : read_table pg t = .ok (f, z)) :
    z = no_zone ∧ Signed t.numbers f.inf_sign ∧
      (t.Finite → t.Fits → t.found_epoch ≤ 1 →
        f.tm = ⟨t.sec.whole, c_int t.min.whole, c_int t.hour.whole, c_int t.day.whole,
          c_int t.month.whole, c_int t.year.whole, isdst_of t.isdst, 0⟩ ∧
        f.microsecs = c_int64 t.microsecs ∧ f.epoch_microsecs = t.epoch_microsecs) := by
  unfold read_table at h
  obtain ⟨fc, hc, h⟩ := bind_eq_ok h
  obtain ⟨hs, htm, husec, hepoch⟩ := read_calendar_ok hc
  obtain ⟨fs, hsec, h⟩ := bind_eq_ok h
  have hs1 := read_float_signed hsec (fun _ => rfl) (fun _ => rfl) hs
  obtain ⟨fm, hmsec, h⟩ := bind_eq_ok h
  have hs2 := read_float_signed hmsec (fun _ => rfl) (fun _ => rfl) hs1
  obtain ⟨fu, husec', h⟩ := bind_eq_ok h
  have hs3 := read_float_signed husec' (fun _ => rfl) (fun _ => rfl) hs2
  obtain ⟨fe, he, h⟩ := bind_eq_ok h
  have hs4 := read_float_signed he (fun _ => rfl) (fun _ => rfl) hs3
  obtain ⟨fem, hem, h⟩ := bind_eq_ok h
  have hs5 := read_float_signed hem (fun _ => rfl) (fun _ => rfl) hs4
  obtain ⟨feu, heu, h⟩ := bind_eq_ok h
  have hs6 := read_float_signed heu (fun _ => rfl) (fun _ => rfl) hs5
  obtain ⟨z', hz, h⟩ := bind_eq_ok h
  cases h
  rw [htz] at hz
  cases hz
  refine ⟨rfl, hs6, fun hfin hfits hone => ?_⟩
  simp only [Table.Finite, Table.numbers, List.forall_mem_cons] at hfin
  obtain ⟨hfeu, hfem, hfe, hfu, hfm, hfs, -⟩ := hfin
  have hrange := sec_usec_range hfits.sec
  obtain ⟨htm1, husec1, hepoch1⟩ := read_sec_ok hsec hfs hfits.sec (by rw [htm]) husec
  obtain ⟨htm2, husec2, hepoch2⟩ := read_msec_ok hmsec hfm hfits.msec
    (by rw [husec1]; exact c_int64_eq (by omega))
  obtain ⟨htm3, husec3, hepoch3⟩ := read_usec_ok husec' hfu
    (by rw [husec2]; exact c_int64_twice _)
  obtain ⟨htm4, husec4, hepoch4⟩ := read_epoch_ok he hfe hfits.epoch
  obtain ⟨htm5, husec5, hepoch5⟩ := read_epoch_ok hem hfem hfits.epoch_msec
  obtain ⟨htm6, husec6, hepoch6⟩ := read_epoch_ok heu hfeu hfits.epoch_usec
  refine ⟨?_, ?_, ?_⟩
  · rw [htm6, htm5, htm4, htm3, htm2, htm1, htm]
  · rw [husec6, husec5, husec4, husec3, husec2, husec1, c_int64_add]
    rfl
  · rw [hepoch6, hepoch5, hepoch4, hepoch3, hepoch2, hepoch1, hepoch]
    unfold Table.epoch_microsecs
    rcases one_epoch hone with ⟨h1, h2⟩ | ⟨h1, h2⟩ | ⟨h1, h2⟩ <;>
      rw [if_pos h1, if_pos h2, scaled_nil h1, scaled_nil h2, scaled_if] <;> omega

end

end pllua.datetime
