-- Values that nest: a record has columns, which are empty or hold a value again. What stands
-- at a path of column numbers, what a write there changes, and forests of such values, whose
-- places keep what they held when a place above them is overwritten.
import Mathlib.Data.List.Basic
import Mathlib.Logic.Function.Basic

namespace pllua.records

/-! ## Values and paths -/

inductive Value (α : Type)
  | flat (bytes : α)
  | row (cols : List (Option (Value α)))

section
variable {α : Type}

def Value.col : Value α → Nat → Option (Value α)
  | .flat _, _ => none
  | .row cols, i => cols[i]?.join

def Value.set_col : Value α → Nat → Option (Value α) → Value α
  | .flat bytes, _, _ => .flat bytes
  | .row cols, i, c => .row (cols.set i c)

/-- What stands at the path. -/
def at_path : Option (Value α) → List Nat → Option (Value α)
  | c, [] => c
  | c, i :: p => at_path (c.bind (·.col i)) p

/-- The value with another one at the path. -/
def set_path : Option (Value α) → List Nat → Option (Value α) → Option (Value α)
  | _, [], w => w
  | c, i :: p, w => c.map fun v => v.set_col i (set_path (v.col i) p w)

@[simp] theorem at_path_none (p : List Nat) : at_path (none : Option (Value α)) p = none := by
  induction p with
  | nil => rfl
  | cons i p ih => exact ih

theorem at_path_append (c : Option (Value α)) (p q : List Nat) :
    at_path c (p ++ q) = at_path (at_path c p) q := by
  induction p generalizing c with
  | nil => rfl
  | cons i p ih => exact ih _

theorem set_path_none {p : List Nat} (hp : p ≠ []) (w : Option (Value α)) :
    set_path none p w = none := by
  cases p with
  | nil => exact absurd rfl hp
  | cons i p => rfl

theorem col_set_col_ne (v : Value α) {i j : Nat} (h : i ≠ j) (c : Option (Value α)) :
    (v.set_col i c).col j = v.col j := by
  cases v with
  | flat bytes => rfl
  | row cols => simp [Value.set_col, Value.col, List.getElem?_set_ne h]

theorem col_set_col_self (cols : List (Option (Value α))) {i : Nat} (h : i < cols.length)
    (c : Option (Value α)) : (Value.set_col (.row cols) i c).col i = c := by
  simp [Value.set_col, Value.col, h]

/-- A column that does not exist stays empty. -/
theorem col_set_col_none (v : Value α) (i : Nat) : (v.set_col i none).col i = none := by
  cases v with
  | flat bytes => rfl
  | row cols =>
    by_cases h : i < cols.length
    · exact col_set_col_self cols h none
    · simp [Value.set_col, Value.col, h]

/-- A write below a column of a value, whether there is such a column or not. -/
theorem col_set_col_path (v : Value α) (i : Nat) {p : List Nat} (hp : p ≠ [])
    (w : Option (Value α)) :
    (v.set_col i (set_path (v.col i) p w)).col i = set_path (v.col i) p w := by
  cases hc : v.col i with
  | none =>
    rw [set_path_none hp]
    exact col_set_col_none v i
  | some u =>
    cases v with
    | flat bytes => cases hc
    | row cols =>
      have hi : i < cols.length := by
        by_contra hi
        simp [Value.col, hi] at hc
      exact col_set_col_self cols hi _

/-- A write below a path, seen from the path. -/
theorem at_set_above (c : Option (Value α)) (p : List Nat) {q : List Nat} (hq : q ≠ [])
    (w : Option (Value α)) : at_path (set_path c (p ++ q) w) p = set_path (at_path c p) q w := by
  induction p generalizing c with
  | nil => rfl
  | cons i p ih =>
    cases c with
    | none => simp [set_path, at_path, set_path_none hq]
    | some v =>
      have hne : p ++ q ≠ [] := by simp [hq]
      simp only [List.cons_append, set_path, at_path, Option.map_some, Option.bind_some]
      rw [col_set_col_path v i hne w]
      exact ih (v.col i)

/-- A write to a column that exists. -/
theorem at_set_self {c : Option (Value α)} {p : List Nat} {cols : List (Option (Value α))}
    {i : Nat} (hrow : at_path c p = some (.row cols)) (hi : i < cols.length)
    (w : Option (Value α)) : at_path (set_path c (p ++ [i]) w) (p ++ [i]) = w := by
  rw [at_path_append, at_set_above c p (List.cons_ne_nil i []) w, hrow]
  exact col_set_col_self cols hi w

/-- A write where something stands. -/
theorem at_set_same {c : Option (Value α)} {p : List Nat} (h : at_path c p ≠ none)
    (w : Option (Value α)) : at_path (set_path c p w) p = w := by
  rcases List.eq_nil_or_concat p with rfl | ⟨q, i, rfl⟩
  · rfl
  · rw [List.concat_eq_append] at h ⊢
    cases hrow : at_path c q with
    | none =>
      rw [at_path_append, hrow, at_path_none] at h
      exact absurd rfl h
    | some v =>
      rw [at_path_append, hrow] at h
      cases v with
      | flat bytes => exact absurd rfl h
      | row cols =>
        refine at_set_self hrow ?_ w
        by_contra hi
        simp [at_path, Value.col, hi] at h

/-- A write does not show at a path beside its own. -/
theorem at_set_beside (c : Option (Value α)) {p q : List Nat} (hpq : ¬ p <+: q) (hqp : ¬ q <+: p)
    (w : Option (Value α)) : at_path (set_path c p w) q = at_path c q := by
  induction p generalizing c q with
  | nil => exact absurd List.nil_prefix hpq
  | cons i p ih =>
    cases q with
    | nil => exact absurd List.nil_prefix hqp
    | cons j q =>
      cases c with
      | none => simp [set_path]
      | some v =>
        simp only [set_path, at_path, Option.map_some, Option.bind_some]
        by_cases hij : i = j
        · subst hij
          have hpq' : ¬ p <+: q := fun h => hpq (List.cons_prefix_cons.mpr ⟨rfl, h⟩)
          have hqp' : ¬ q <+: p := fun h => hqp (List.cons_prefix_cons.mpr ⟨rfl, h⟩)
          have hne : p ≠ [] := by
            intro h
            subst h
            exact hpq' List.nil_prefix
          rw [col_set_col_path v i hne w]
          exact ih (v.col i) hpq' hqp'
        · rw [col_set_col_ne v hij]

end

/-! ## Forests -/

/-- A place in one of the values of a forest. -/
structure Place where
  root : Nat
  path : List Nat
deriving DecidableEq, Repr

def Place.child (P : Place) (i : Nat) : Place := ⟨P.root, P.path ++ [i]⟩

/-- The place at the end of a path from another one. -/
def Place.below (P : Place) (p : List Nat) : Place := ⟨P.root, P.path ++ p⟩

/-- The place is the other one, or lies in what stands there. -/
def Place.Above (P Q : Place) : Prop := P.root = Q.root ∧ P.path <+: Q.path

instance (P Q : Place) : Decidable (P.Above Q) := inferInstanceAs (Decidable (_ ∧ _))

/-- Where a place is found once what stood at `P` has become a value of its own. -/
def Place.detach (P : Place) (fresh : Nat) (Q : Place) : Place :=
  if P.Above Q then ⟨fresh, Q.path.drop P.path.length⟩ else Q

/-- Values by number. Numbers from `next` on are not used yet. -/
structure Forest (α : Type) where
  roots : Nat → Option (Value α)
  next : Nat

section
variable {α : Type}

def Forest.at (s : Forest α) (P : Place) : Option (Value α) := at_path (s.roots P.root) P.path

/-- Another value. -/
def Forest.plant (s : Forest α) (v : Value α) : Forest α :=
  ⟨Function.update s.roots s.next (some v), s.next + 1⟩

/-- A write. What stood at the place is a value of its own from now on. -/
def Forest.assign (s : Forest α) (P : Place) (w : Option (Value α)) : Forest α where
  roots := Function.update (Function.update s.roots s.next (s.at P)) P.root
    (set_path (s.roots P.root) P.path w)
  next := s.next + 1

/-- A write to a value without columns, which has nothing to detach. -/
def Forest.write (s : Forest α) (P : Place) (w : Option (Value α)) : Forest α where
  roots := Function.update s.roots P.root (set_path (s.roots P.root) P.path w)
  next := s.next

theorem Place.above_refl (P : Place) : P.Above P := ⟨rfl, List.prefix_refl _⟩

theorem Place.Above.trans {P Q R : Place} (h : P.Above Q) (h' : Q.Above R) : P.Above R :=
  ⟨h.1.trans h'.1, h.2.trans h'.2⟩

theorem Place.above_child (P : Place) (i : Nat) : P.Above (P.child i) :=
  ⟨rfl, List.prefix_append _ _⟩

theorem Place.above_below (P : Place) (p : List Nat) : P.Above (P.below p) :=
  ⟨rfl, List.prefix_append _ _⟩

theorem Place.below_cons (P : Place) (i : Nat) (p : List Nat) :
    P.below (i :: p) = (P.child i).below p := by
  simp [Place.below, Place.child]

theorem Place.Above.below {P Q : Place} (h : P.Above Q) : ∃ p, Q = P.below p := by
  obtain ⟨hroot, p, hp⟩ := h
  obtain ⟨r, q⟩ := Q
  obtain rfl : P.root = r := hroot
  exact ⟨p, congrArg (Place.mk P.root) hp.symm⟩

theorem Place.not_child_above (P : Place) (i : Nat) : ¬ (P.child i).Above P := by
  intro h
  have hlen := h.2.length_le
  simp only [Place.child, List.length_append, List.length_singleton] at hlen
  omega

/-- A place below another one is that one, or lies below one of its columns. -/
theorem Place.Above.cases {P Q : Place} (h : P.Above Q) :
    Q = P ∨ ∃ i, (P.child i).Above Q := by
  obtain ⟨hroot, q, hq⟩ := h
  cases q with
  | nil =>
    rw [List.append_nil] at hq
    cases P
    cases Q
    simp_all
  | cons i q =>
    refine Or.inr ⟨i, hroot, q, ?_⟩
    rw [← hq]
    simp [Place.child]

/-- What lies above a column lies above the row, or is the column. -/
theorem Place.above_of_child {P Q : Place} {i : Nat} (h : Q.Above (P.child i)) :
    Q = P.child i ∨ Q.Above P := by
  obtain ⟨hroot, hpath⟩ := h
  rcases List.prefix_concat_iff.mp hpath with heq | hprefix
  · left
    cases Q
    simp_all [Place.child]
  · exact Or.inr ⟨hroot, hprefix⟩

/-- Of two places above a third one is above the other. -/
theorem Place.above_or {P Q R : Place} (hP : P.Above R) (hQ : Q.Above R) :
    P.Above Q ∨ Q.Above P := by
  rcases List.prefix_or_prefix_of_prefix hP.2 hQ.2 with h | h
  · exact Or.inl ⟨hP.1.trans hQ.1.symm, h⟩
  · exact Or.inr ⟨hQ.1.trans hP.1.symm, h⟩

/-- Two columns of a row have nothing in common. -/
theorem Place.child_unique {P Q : Place} {i j : Nat} (hi : (P.child i).Above Q)
    (hj : (P.child j).Above Q) : i = j := by
  obtain ⟨-, p, hp⟩ := hi
  obtain ⟨-, q, hq⟩ := hj
  have heq := hp.trans hq.symm
  simp only [Place.child, List.append_assoc, List.append_cancel_left_eq, List.cons_append,
    List.nil_append, List.cons.injEq] at heq
  exact heq.1

theorem Place.child_inj {P Q : Place} {i j : Nat} (h : P.child i = Q.child j) :
    P = Q ∧ i = j := by
  obtain ⟨r, p⟩ := P
  obtain ⟨r', q⟩ := Q
  simp only [Place.child, Place.mk.injEq] at h
  obtain ⟨rfl, h⟩ := h
  have h' := List.append_inj' h rfl
  simp_all

theorem detach_of_not_above {P Q : Place} (h : ¬ P.Above Q) (fresh : Nat) :
    P.detach fresh Q = Q := if_neg h

theorem detach_below {P : Place} (fresh : Nat) (q : List Nat) :
    P.detach fresh ⟨P.root, P.path ++ q⟩ = ⟨fresh, q⟩ := by
  unfold Place.detach
  rw [if_pos ⟨rfl, List.prefix_append _ _⟩]
  simp

/-- The columns of a place go with it, unless it is the row that is written to. -/
theorem detach_child {P Q : Place} (fresh : Nat) (i : Nat) (h : Q.child i ≠ P) :
    P.detach fresh (Q.child i) = (P.detach fresh Q).child i := by
  unfold Place.detach
  by_cases hab : P.Above Q
  · rw [if_pos hab, if_pos (hab.trans (Q.above_child i))]
    obtain ⟨q, hq⟩ := hab.2
    simp [Place.child, ← hq]
  · have hchild : ¬ P.Above (Q.child i) := by
      intro hc
      rcases Place.above_of_child hc with heq | hab'
      · exact h heq.symm
      · exact hab hab'
    rw [if_neg hab, if_neg hchild]

/-- A place that is seen above another one after the detachment was above it before, and is
not the row that lost the column. -/
theorem child_above_of_detach {P Q R : Place} {fresh i : Nat} (hP : P.root < fresh)
    (hQ : Q.root < fresh) (hR : R.root < fresh)
    (h : ((P.detach fresh Q).child i).Above (P.detach fresh R)) :
    (Q.child i).Above R ∧ Q.child i ≠ P := by
  unfold Place.detach at h
  by_cases hPQ : P.Above Q
  · have hne : Q.child i ≠ P := by
      rintro rfl
      exact Q.not_child_above i hPQ
    refine ⟨?_, hne⟩
    rw [if_pos hPQ] at h
    by_cases hPR : P.Above R
    · rw [if_pos hPR] at h
      obtain ⟨hroot, q, hq⟩ := hPQ
      obtain ⟨hroot', r, hr⟩ := hPR
      refine ⟨hroot.symm.trans hroot', ?_⟩
      have hpath := h.2
      simp only [Place.child, ← hq, ← hr, List.drop_left] at hpath ⊢
      rw [List.append_assoc]
      exact (List.prefix_append_right_inj _).mpr hpath
    · rw [if_neg hPR] at h
      exact absurd h.1 (Nat.ne_of_gt hR)
  · rw [if_neg hPQ] at h
    by_cases hPR : P.Above R
    · rw [if_pos hPR] at h
      exact absurd h.1 (Nat.ne_of_lt hQ)
    · rw [if_neg hPR] at h
      refine ⟨h, ?_⟩
      rintro rfl
      exact hPR h

theorem detach_inj {P Q R : Place} {fresh : Nat} (hQ : Q.root < fresh) (hR : R.root < fresh)
    (h : P.detach fresh Q = P.detach fresh R) : Q = R := by
  unfold Place.detach at h
  by_cases hPQ : P.Above Q
  · by_cases hPR : P.Above R
    · rw [if_pos hPQ, if_pos hPR] at h
      obtain ⟨hroot, q, hq⟩ := hPQ
      obtain ⟨hroot', r, hr⟩ := hPR
      have hpath := congrArg Place.path h
      simp only [← hq, ← hr, List.drop_left] at hpath
      cases Q
      cases R
      simp_all
    · rw [if_pos hPQ, if_neg hPR] at h
      exact absurd (congrArg Place.root h) (Nat.ne_of_gt hR)
  · by_cases hPR : P.Above R
    · rw [if_neg hPQ, if_pos hPR] at h
      exact absurd (congrArg Place.root h) (Nat.ne_of_lt hQ)
    · rw [if_neg hPQ, if_neg hPR] at h
      exact h

theorem at_child (s : Forest α) (P : Place) (i : Nat) :
    s.at (P.child i) = (s.at P).bind (·.col i) := at_path_append _ _ _

theorem at_plant {s : Forest α} (v : Value α) : (s.plant v).at ⟨s.next, []⟩ = some v := by
  simp [Forest.at, Forest.plant, at_path]

theorem at_plant_old {s : Forest α} (v : Value α) {P : Place} (h : P.root < s.next) :
    (s.plant v).at P = s.at P := by
  have hne : P.root ≠ s.next := Nat.ne_of_lt h
  simp [Forest.at, Forest.plant, Function.update_of_ne hne]

/-- What lay below the write is still there. -/
theorem at_assign_below {s : Forest α} {P Q : Place} (w : Option (Value α)) (hP : P.root < s.next)
    (h : P.Above Q) : (s.assign P w).at (P.detach s.next Q) = s.at Q := by
  obtain ⟨r, p⟩ := Q
  obtain ⟨rfl, q, rfl⟩ := h
  rw [detach_below]
  have hne : s.next ≠ P.root := Nat.ne_of_gt hP
  simp only [Forest.at, Forest.assign, Function.update_of_ne hne, Function.update_self]
  exact (at_path_append _ _ _).symm

theorem at_assign_above {s : Forest α} {P : Place} (w : Option (Value α)) {p q : List Nat}
    (hP : P = ⟨P.root, p ++ q⟩) (hq : q ≠ []) :
    (s.assign P w).at ⟨P.root, p⟩ = set_path (s.at ⟨P.root, p⟩) q w := by
  have hpath : P.path = p ++ q := congrArg Place.path hP
  simp only [Forest.at, Forest.assign, Function.update_self, hpath]
  exact at_set_above _ p hq w

theorem at_assign_beside {s : Forest α} {P Q : Place} (w : Option (Value α))
    (hQ : Q.root < s.next) (hPQ : ¬ P.Above Q) (hQP : ¬ Q.Above P) :
    (s.assign P w).at Q = s.at Q := by
  by_cases hroot : Q.root = P.root
  · simp only [Forest.at, Forest.assign, hroot, Function.update_self]
    exact at_set_beside _ (fun h => hPQ ⟨hroot.symm, h⟩) (fun h => hQP ⟨hroot, h⟩) w
  · have hne : Q.root ≠ s.next := Nat.ne_of_lt hQ
    simp only [Forest.at, Forest.assign, Function.update_of_ne hroot, Function.update_of_ne hne]

theorem at_assign_self {s : Forest α} {P : Place} {i : Nat} {cols : List (Option (Value α))}
    (w : Option (Value α)) (hrow : s.at P = some (.row cols)) (hi : i < cols.length) :
    (s.assign (P.child i) w).at (P.child i) = w := by
  simp only [Forest.at, Forest.assign, Place.child, Function.update_self]
  exact at_set_self hrow hi w

/-- A row above the write is a row still, and only one of its columns changes. -/
theorem at_assign_row {s : Forest α} {P Q : Place} {cols : List (Option (Value α))}
    (w : Option (Value α)) (hrow : s.at Q = some (.row cols)) (hab : Q.Above P) (hne : Q ≠ P) :
    ∃ i c, (Q.child i).Above P ∧ (s.assign P w).at Q = some (.row (cols.set i c)) := by
  rcases hab.cases with heq | ⟨i, hi⟩
  · exact absurd heq.symm hne
  · obtain ⟨hroot, q, hq⟩ := hi
    obtain ⟨r, p⟩ := Q
    obtain ⟨r', p'⟩ := P
    obtain rfl : r = r' := hroot
    have hp : p' = p ++ i :: q := by simpa [Place.child] using hq.symm
    subst hp
    refine ⟨i, set_path ((Value.row cols).col i) q w, ⟨rfl, q, hq⟩, ?_⟩
    have habove := @at_assign_above α s ⟨r, p ++ i :: q⟩ w p (i :: q) rfl (List.cons_ne_nil i q)
    rw [habove, hrow]
    rfl

theorem at_write_self {s : Forest α} {P : Place} (w : Option (Value α)) (h : s.at P ≠ none) :
    (s.write P w).at P = w := by
  simp only [Forest.at, Forest.write, Function.update_self]
  exact at_set_same h w

theorem at_write_beside {s : Forest α} {P Q : Place} (w : Option (Value α)) (hPQ : ¬ P.Above Q)
    (hQP : ¬ Q.Above P) : (s.write P w).at Q = s.at Q := by
  by_cases hroot : Q.root = P.root
  · simp only [Forest.at, Forest.write, hroot, Function.update_self]
    exact at_set_beside _ (fun h => hPQ ⟨hroot.symm, h⟩) (fun h => hQP ⟨hroot, h⟩) w
  · simp only [Forest.at, Forest.write, Function.update_of_ne hroot]

theorem at_write_row {s : Forest α} {P Q : Place} {cols : List (Option (Value α))}
    (w : Option (Value α)) (hrow : s.at Q = some (.row cols)) (hab : Q.Above P) (hne : Q ≠ P) :
    ∃ i c, (Q.child i).Above P ∧ (s.write P w).at Q = some (.row (cols.set i c)) := by
  rcases hab.cases with heq | ⟨i, hi⟩
  · exact absurd heq.symm hne
  · obtain ⟨hroot, q, hq⟩ := hi
    obtain ⟨r, p⟩ := Q
    obtain ⟨r', p'⟩ := P
    obtain rfl : r = r' := hroot
    have hp : p' = p ++ i :: q := by simpa [Place.child] using hq.symm
    refine ⟨i, set_path ((Value.row cols).col i) q w, ⟨rfl, q, hq⟩, ?_⟩
    simp only [Forest.at, Forest.write, Function.update_self, hp]
    rw [at_set_above _ p (List.cons_ne_nil i q) w]
    unfold Forest.at at hrow
    rw [hrow]
    rfl

end

end pllua.records
