-- Row-major order: the index vectors of several dimensions, the last one counting fastest. A
-- position is a number of mixed radix, and its digits are what an odometer shows.
import Mathlib.Data.List.Basic
import Mathlib.Tactic.Common

namespace pllua.rowmajor

/-! ## Index vectors and positions -/

/-- The number of index vectors. -/
def volume : List Nat → Nat
  | [] => 1
  | d :: ds => d * volume ds

/-- The index vectors below the dimensions, in row-major order. -/
def row_major : List Nat → List (List Nat)
  | [] => [[]]
  | d :: ds => (List.range d).flatMap fun i => (row_major ds).map (i :: ·)

/-- The digits of a position, the lowest first. The dimensions are the innermost first, too. -/
def digits : List Nat → Nat → List Nat
  | [], _ => []
  | d :: ds, k => k % d :: digits ds (k / d)

/-- The digits without the zeros at the low end. -/
def significant : List Nat → Nat → List Nat
  | [], _ => []
  | d :: ds, k => if k % d = 0 then significant ds (k / d) else digits (d :: ds) k

/-- An odometer: the lowest digit counts up, and is dropped where it rolls over. -/
def carry : List Nat → List Nat → List Nat
  | d :: ds, i :: is => if (i + 1) % d = 0 then carry ds is else (i + 1) % d :: is
  | _, _ => []

@[simp] theorem digits_length (ds : List Nat) (k : Nat) : (digits ds k).length = ds.length := by
  induction ds generalizing k with
  | nil => rfl
  | cons d ds ih => rw [digits, List.length_cons, List.length_cons, ih]

theorem significant_length (ds : List Nat) (k : Nat) :
    (significant ds k).length ≤ ds.length := by
  induction ds generalizing k with
  | nil => exact Nat.le_refl _
  | cons d ds ih =>
    rw [significant]
    split
    · exact Nat.le_succ_of_le (ih (k / d))
    · exact Nat.le_of_eq (digits_length _ _)

/-- The digits are zeros and then the significant ones. -/
theorem digits_eq_zeros_append (ds : List Nat) (k : Nat) :
    digits ds k =
      List.replicate (ds.length - (significant ds k).length) 0 ++ significant ds k := by
  induction ds generalizing k with
  | nil => rfl
  | cons d ds ih =>
    have hle := significant_length ds (k / d)
    rw [significant]
    split
    · rename_i hzero
      rw [digits, hzero, ih (k / d), List.length_cons, Nat.succ_sub hle, List.replicate_succ,
        List.cons_append]
    · rw [digits_length, Nat.sub_self, List.replicate_zero, List.nil_append]

theorem significant_zero (ds : List Nat) : significant ds 0 = [] := by
  induction ds with
  | nil => rfl
  | cons d ds ih => rw [significant, if_pos (Nat.zero_mod d), Nat.zero_div, ih]

theorem significant_ne_nil {ds : List Nat} {k : Nat} (hpos : 0 < k) (h : k < volume ds) :
    significant ds k ≠ [] := by
  induction ds generalizing k with
  | nil =>
    rw [volume] at h
    omega
  | cons d ds ih =>
    rw [significant]
    split
    · rename_i hzero
      rw [volume] at h
      have hd : 0 < d := by
        rcases Nat.eq_zero_or_pos d with hd | hd
        · rw [hd] at h
          omega
        · exact hd
      refine ih ?_ (Nat.div_lt_of_lt_mul h)
      exact Nat.div_pos (Nat.le_of_dvd hpos (Nat.dvd_of_mod_eq_zero hzero)) hd
    · exact List.cons_ne_nil _ _

/-- After a step the odometer shows the next position. -/
theorem carry_digits {ds : List Nat} {k : Nat} (h : k + 1 < volume ds) :
    carry ds (digits ds k) = significant ds (k + 1) := by
  induction ds generalizing k with
  | nil => rfl
  | cons d ds ih =>
    have hmod : (k % d + 1) % d = (k + 1) % d := Nat.mod_add_mod k d 1
    rw [digits, carry, hmod, significant]
    rw [volume] at h
    by_cases hzero : (k + 1) % d = 0
    · have hdiv : (k + 1) / d = k / d + 1 := Nat.succ_div_of_dvd (Nat.dvd_of_mod_eq_zero hzero)
      have hlt : (k + 1) / d < volume ds := Nat.div_lt_of_lt_mul h
      rw [if_pos hzero, if_pos hzero, hdiv]
      exact ih (by omega)
    · have hdiv : (k + 1) / d = k / d :=
        Nat.succ_div_of_not_dvd fun hdvd => hzero (Nat.mod_eq_zero_of_dvd hdvd)
      rw [if_neg hzero, if_neg hzero, digits, hdiv]

/-! ## The position of an index vector -/

theorem volume_append (ds es : List Nat) : volume (ds ++ es) = volume ds * volume es := by
  induction ds with
  | nil => rw [List.nil_append, volume, Nat.one_mul]
  | cons d ds ih => rw [List.cons_append, volume, volume, ih, Nat.mul_assoc]

theorem volume_reverse (ds : List Nat) : volume ds.reverse = volume ds := by
  induction ds with
  | nil => rfl
  | cons d ds ih =>
    rw [List.reverse_cons, volume_append, ih, volume, volume, volume, Nat.mul_one, Nat.mul_comm]

theorem volume_pos {ds : List Nat} (h : ∀ d ∈ ds, 0 < d) : 0 < volume ds := by
  induction ds with
  | nil => exact Nat.one_pos
  | cons d ds ih =>
    rw [List.forall_mem_cons] at h
    exact Nat.mul_pos h.1 (ih h.2)

theorem row_major_length (ds : List Nat) : (row_major ds).length = volume ds := by
  induction ds with
  | nil => rfl
  | cons d ds ih => simp [row_major, volume, List.length_flatMap, ih]

theorem digits_append (ds es : List Nat) (k : Nat) :
    digits (ds ++ es) k = digits ds k ++ digits es (k / volume ds) := by
  induction ds generalizing k with
  | nil => rw [List.nil_append, volume, Nat.div_one, digits, List.nil_append]
  | cons d ds ih =>
    rw [List.cons_append, digits, digits, ih, volume, Nat.div_div_eq_div_mul, List.cons_append]

/-- Digits repeat after the volume. -/
theorem digits_mod (ds : List Nat) (k : Nat) : digits ds (k % volume ds) = digits ds k := by
  induction ds generalizing k with
  | nil => rfl
  | cons d ds ih =>
    rw [digits, digits, volume, Nat.mod_mul_right_mod, Nat.mod_mul_right_div_self, ih]

/-- An entry of a list of blocks that have the same length. -/
theorem flatMap_getElem {α : Type} (d : Nat) (f : Nat → List α) {n k : Nat}
    (hlength : ∀ i, (f i).length = n) (hpos : 0 < n) (h : k / n < d) :
    ((List.range d).flatMap f)[k]? = (f (k / n))[k % n]? := by
  induction d with
  | zero => exact absurd h (Nat.not_lt_zero _)
  | succ d ih =>
    have hall : ((List.range d).flatMap f).length = d * n := by
      simp [List.length_flatMap, hlength]
    rw [List.range_succ, List.flatMap_append, List.flatMap_singleton]
    rcases Nat.lt_or_ge (k / n) d with hlt | hge
    · have hk : k < d * n := (Nat.div_lt_iff_lt_mul hpos).mp hlt
      rw [List.getElem?_append_left (by rw [hall]; exact hk), ih hlt]
    · have hdiv : k / n = d := by omega
      have hk := Nat.div_add_mod k n
      rw [hdiv, Nat.mul_comm] at hk
      rw [List.getElem?_append_right (by rw [hall]; omega), hall, hdiv]
      congr 1
      omega

/-- The vector at a position has its digits. -/
theorem row_major_getElem {ds : List Nat} {k : Nat} (h : k < volume ds) :
    (row_major ds)[k]? = some (digits ds.reverse k).reverse := by
  induction ds generalizing k with
  | nil =>
    rw [volume] at h
    obtain rfl : k = 0 := by omega
    rfl
  | cons d ds ih =>
    rw [volume] at h
    have hpos : 0 < volume ds := by
      rcases Nat.eq_zero_or_pos (volume ds) with hzero | hpos
      · rw [hzero] at h
        omega
      · exact hpos
    have hdiv : k / volume ds < d := Nat.div_lt_of_lt_mul (by rwa [Nat.mul_comm])
    have hblock := flatMap_getElem d (fun i => (row_major ds).map (i :: ·))
      (fun i => by rw [List.length_map, row_major_length]) hpos hdiv
    rw [row_major, hblock, List.getElem?_map, ih (Nat.mod_lt k hpos), List.reverse_cons,
      digits_append, volume_reverse, digits, digits, Nat.mod_eq_of_lt hdiv, ← volume_reverse ds,
      digits_mod]
    simp

end pllua.rowmajor
