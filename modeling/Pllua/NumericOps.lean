-- The operators of numeric.c, and who frees the values they work on. A numeric
-- datum owns its value. A Lua number gets a value of its own for the call, and
-- anything else goes through the constructor of the type, which makes a datum.
import Pllua.Constructors
import Pllua.Rounding

open pllua.rounding pllua.constructors

namespace pllua.numeric

/-! ## Values and operations -/

/-- What a numeric value stands for. -/
inductive Numeric
  | nan
  | inf (neg : Bool)
  | fin (q : ℚ)
deriving DecidableEq

/-- A rounding at the digit `n`. What is not finite stays. -/
def Numeric.at_digit (f : ℚ → ℤ) : Numeric → Int → Numeric
  | .fin q, n => .fin (to_digits f q n)
  | x, _ => x

/-- The digit as PostgreSQL limits it. -/
def clamp (lo hi n : Int) : Int := max lo (min hi n)

/-- `num_method_id`. -/
inductive Op
  | EQ | LT | LE
  | ADD | SUB | MUL | DIV | DIVT | MOD | POW
  | LOG | LN
  | ROUND | TRUNC
  | UNM
  | ABS | CEIL | EXP | FLOOR | SIGN | SQRT | NOOP
  | ISNAN
deriving DecidableEq, Repr

/-- The place in the enumeration. -/
def Op.id : Op → Nat
  | EQ => 1 | LT => 2 | LE => 3
  | ADD => 4 | SUB => 5 | MUL => 6 | DIV => 7 | DIVT => 8 | MOD => 9 | POW => 10
  | LOG => 11 | LN => 12
  | ROUND => 13 | TRUNC => 14
  | UNM => 15
  | ABS => 16 | CEIL => 17 | EXP => 18 | FLOOR => 19 | SIGN => 20 | SQRT => 21 | NOOP => 22
  | ISNAN => 23

/-- A value in memory. -/
structure Val where
  addr : Nat
  num : Numeric

/-- An argument: `F` are the Lua floats, `X` the other values. -/
inductive Arg (F X : Type)
  /-- a numeric datum -/
  | datum (v : Val)
  | integer (i : Int)
  | float (f : F)
  /-- nil, or no argument -/
  | nil
  | other (x : X)

def Arg.isnoneornil {F X : Type} : Arg F X → Bool
  | .nil => true
  | _ => false

/-- The functions of PostgreSQL, the constructor of the type and Lua's conversion to an
integer. -/
structure Backend (F X E : Type) where
  numeric_add : Numeric → Numeric → Except E Numeric
  numeric_sub : Numeric → Numeric → Except E Numeric
  numeric_mul : Numeric → Numeric → Except E Numeric
  numeric_div : Numeric → Numeric → Except E Numeric
  numeric_div_trunc : Numeric → Numeric → Except E Numeric
  numeric_mod : Numeric → Numeric → Except E Numeric
  numeric_power : Numeric → Numeric → Except E Numeric
  numeric_uminus : Numeric → Except E Numeric
  numeric_eq : Numeric → Numeric → Bool
  numeric_lt : Numeric → Numeric → Bool
  numeric_le : Numeric → Numeric → Bool
  numeric_abs : Numeric → Except E Numeric
  numeric_ceil : Numeric → Except E Numeric
  numeric_exp : Numeric → Except E Numeric
  numeric_floor : Numeric → Except E Numeric
  numeric_log : Numeric → Numeric → Except E Numeric
  numeric_ln : Numeric → Except E Numeric
  numeric_round : Numeric → Int → Except E Numeric
  numeric_sign : Numeric → Except E Numeric
  numeric_sqrt : Numeric → Except E Numeric
  numeric_trunc : Numeric → Int → Except E Numeric
  numeric_uplus : Numeric → Except E Numeric
  numeric_is_nan : Numeric → Bool
  int8_numeric : Int → Numeric
  float8_numeric : F → Except E Numeric
  /-- the constructor on a value, none for nil: the value of the new datum, or none where it
  gives something that is no numeric datum -/
  construct : Option X → Except E (Option Numeric)
  /-- `lua_tointegerx` on a float and on other values -/
  float_integer : F → Option Int
  other_integer : X → Option Int
  no_datum : E
  arg_error : Option String → E

variable {F X E : Type}

def Backend.lua_tointegerx (b : Backend F X E) : Arg F X → Option Int
  | .integer i => some i
  | .float f => b.float_integer f
  | .other x => b.other_integer x
  | .datum _ | .nil => none

/-- What an operation gives. -/
inductive Res (N : Type)
  | num (n : N)
  | bool (t : Bool)

/-- The result without its place in memory. -/
def Res.content : Res Val → Res Numeric
  | .num v => .num v.num
  | .bool t => .bool t

def Except.num {E : Type} : Except E Numeric → Except E (Res Numeric)
  | .ok n => .ok (.num n)
  | .error e => .error e

/-- The `switch` of `pllua_numeric_guts`. -/
def Backend.apply (b : Backend F X E) (op : Op) (val1 val2 : Numeric) (i2 : Int) :
    Except E (Res Numeric) :=
  match op with
  | .ADD => Except.num (b.numeric_add val1 val2)
  | .SUB => Except.num (b.numeric_sub val1 val2)
  | .MUL => Except.num (b.numeric_mul val1 val2)
  | .DIV => Except.num (b.numeric_div val1 val2)
  | .DIVT => Except.num (b.numeric_div_trunc val1 val2)
  | .MOD => Except.num (b.numeric_mod val1 val2)
  | .POW => Except.num (b.numeric_power val1 val2)
  | .UNM => Except.num (b.numeric_uminus val1)
  | .EQ => .ok (.bool (b.numeric_eq val1 val2))
  | .LT => .ok (.bool (b.numeric_lt val1 val2))
  | .LE => .ok (.bool (b.numeric_le val1 val2))
  | .ABS => Except.num (b.numeric_abs val1)
  | .CEIL => Except.num (b.numeric_ceil val1)
  | .EXP => Except.num (b.numeric_exp val1)
  | .FLOOR => Except.num (b.numeric_floor val1)
  -- the base comes first
  | .LOG => Except.num (b.numeric_log val2 val1)
  | .LN => Except.num (b.numeric_ln val1)
  | .ROUND => Except.num (b.numeric_round val1 (c_int i2))
  | .SIGN => Except.num (b.numeric_sign val1)
  | .SQRT => Except.num (b.numeric_sqrt val1)
  | .TRUNC => Except.num (b.numeric_trunc val1 (c_int i2))
  | .NOOP => Except.num (b.numeric_uplus val1)
  | .ISNAN => .ok (.bool (b.numeric_is_nan val1))

/-! ## Memory -/

structure Mem where
  next : Nat
  /-- the values that Lua datum objects own -/
  objs : List Nat
  /-- the values made for plain numbers -/
  temps : List Nat
  /-- what was given to `pfree`, oldest first -/
  freed : List Nat

/-- A value for a plain number. -/
def Mem.allocate (m : Mem) : Mem := { m with next := m.next + 1, temps := m.temps ++ [m.next] }

/-- `pllua_newdatum` and `pllua_savedatum`: a new datum with a copy of its own. -/
def Mem.savedatum (m : Mem) : Mem := { m with next := m.next + 1, objs := m.objs ++ [m.next] }

def Mem.pfree (m : Mem) (v : Val) : Mem := { m with freed := m.freed ++ [v.addr] }

/-- `pllua_datum_gc` on every datum object: each one frees its value. -/
def Mem.collect (m : Mem) : Mem := { m with objs := [], freed := m.freed ++ m.objs }

/-! ## The handler -/

section
variable (b : Backend F X E)

/-- `pllua_numeric_getarg`. -/
def pllua_numeric_getarg (m : Mem) : Arg F X → Mem × Except E Val
  | .datum v => (m, .ok v)
  | .integer i => (m.allocate, .ok ⟨m.next, b.int8_numeric i⟩)
  | .float f =>
    match b.float_integer f with
    | some i => (m.allocate, .ok ⟨m.next, b.int8_numeric i⟩)
    | none =>
      match b.float8_numeric f with
      | .ok n => (m.allocate, .ok ⟨m.next, n⟩)
      | .error e => (m, .error e)
  | .nil => constructed m none
  | .other x => constructed m (some x)
where
  constructed (m : Mem) (x : Option X) : Mem × Except E Val :=
    match b.construct x with
    | .ok (some n) => (m.savedatum, .ok ⟨m.next, n⟩)
    | .ok none => (m, .error b.no_datum)
    | .error e => (m, .error e)

/-- The operands as the handler gives them to `pllua_numeric_guts`. The second value is none
where it stays `(Datum) 0`. -/
structure Operands where
  op : Op
  val1 : Val
  val2 : Option Val
  i2 : Int
  free_val1 : Bool
  free_val2 : Bool

/-- The result in the new datum `d`, unless it is a truth value. -/
def save_result (m : Mem) : Res Numeric → Mem × Res Val
  | .num n => (m.savedatum, .num ⟨m.next, n⟩)
  | .bool t => (m, .bool t)

def release (m : Mem) (free_val : Bool) (v : Option Val) : Mem :=
  match v with
  | some v => if free_val then m.pfree v else m
  | none => m

/-- `pllua_numeric_guts`. -/
def pllua_numeric_guts (m : Mem) (o : Operands) : Mem × Except E (Res Val) :=
  match b.apply o.op o.val1.num (o.val2.elim (.fin 0) (·.num)) o.i2 with
  | .error e => (m, .error e)
  | .ok res =>
    have saved := save_result m res
    (release (release saved.1 o.free_val1 (some o.val1)) o.free_val2 o.val2, .ok saved.2)

def Arg.isdatum : Arg F X → Bool
  | .datum _ => true
  | _ => false

/-- Two operands. -/
def two_operands (m : Mem) (op : Op) (a1 a2 : Arg F X) : Mem × Except E Operands :=
  match pllua_numeric_getarg b m a1 with
  | (m, .error e) => (m, .error e)
  | (m, .ok val1) =>
    match pllua_numeric_getarg b m a2 with
    | (m, .error e) => (m, .error e)
    | (m, .ok val2) => (m, .ok ⟨op, val1, some val2, 0, !a1.isdatum, !a2.isdatum⟩)

/-- One operand, and the check of the second argument, which gives `i2`. -/
def one_operand (m : Mem) (op : Op) (a1 : Arg F X) (check : Except E Int) :
    Mem × Except E Operands :=
  match pllua_numeric_getarg b m a1 with
  | (m, .error e) => (m, .error e)
  | (m, .ok val1) =>
    match check with
    | .error e => (m, .error e)
    | .ok i2 => (m, .ok ⟨op, val1, none, i2, !a1.isdatum, false⟩)

/-- What the handler does about a second argument that is no operand. -/
def check_second (op : Op) (a2 : Arg F X) : Except E Int :=
  if op.id < Op.UNM.id then
    match b.lua_tointegerx a2 with
    | some i2 => .ok i2
    | none => if a2.isnoneornil then .ok 0 else .error (b.arg_error none)
  else if op.id < Op.ABS.id then .ok 0
  else if a2.isnoneornil then .ok 0
  else .error (b.arg_error (some "none expected"))

/-- The branches of `pllua_numeric_handler`. -/
def operands (m : Mem) (op : Op) (a1 a2 : Arg F X) : Mem × Except E Operands :=
  if op.id < Op.LOG.id then two_operands b m op a1 a2
  else if op = .LOG then
    if a2.isnoneornil then one_operand b m .LN a1 (.ok 0)
    else two_operands b m .LOG a1 a2
  else one_operand b m op a1 (check_second b op a2)

/-- `pllua_numeric_handler`. -/
def pllua_numeric_handler (m : Mem) (op : Op) (a1 a2 : Arg F X) : Mem × Except E (Res Val) :=
  match operands b m op a1 a2 with
  | (m, .error e) => (m, .error e)
  | (m, .ok o) => pllua_numeric_guts b m o

end

/-! ## What a call means, without the memory -/

section
variable (b : Backend F X E)

/-- What an operand stands for. -/
def value_of : Arg F X → Except E Numeric
  | .datum v => .ok v.num
  | .integer i => .ok (b.int8_numeric i)
  | .float f =>
    match b.float_integer f with
    | some i => .ok (b.int8_numeric i)
    | none => b.float8_numeric f
  | .nil => constructed_value none
  | .other x => constructed_value (some x)
where
  constructed_value (x : Option X) : Except E Numeric :=
    match b.construct x with
    | .ok (some n) => .ok n
    | .ok none => .error b.no_datum
    | .error e => .error e

/-- The operands of an operation. -/
def used (op : Op) (a1 a2 : Arg F X) : List (Arg F X) :=
  if op.id < Op.LOG.id then [a1, a2]
  else if op = .LOG ∧ a2.isnoneornil = false then [a1, a2]
  else [a1]

/-- One after the other, and the first error. -/
def both {α β γ : Type} (x : Except E α) (y : Except E β) (f : α → β → Except E γ) :
    Except E γ :=
  match x, y with
  | .ok x, .ok y => f x y
  | .error e, _ => .error e
  | _, .error e => .error e

@[simp] theorem both_error {α β γ : Type} (e : E) (y : Except E β) (f : α → β → Except E γ) :
    both (.error e) y f = .error e := by cases y <;> rfl

@[simp] theorem both_ok_error {α β γ : Type} (x : α) (e : E) (f : α → β → Except E γ) :
    both (.ok x) (.error e) f = .error e := rfl

/-- What the operation gives, or its error. -/
def evaluate (op : Op) (a1 a2 : Arg F X) : Except E (Res Numeric) :=
  if op.id < Op.LOG.id ∨ op = .LOG ∧ a2.isnoneornil = false then
    both (value_of b a1) (value_of b a2) fun x y => b.apply op x y 0
  else
    both (value_of b a1) (if op = .LOG then .ok 0 else check_second b op a2) fun x i2 =>
      b.apply (if op = .LOG then .LN else op) x (.fin 0) i2

/-- The operands that are converted before the first one that cannot be. -/
def taken (op : Op) (a1 a2 : Arg F X) : List (Arg F X) :=
  (used op a1 a2).takeWhile fun a => (value_of b a).isOk

end

def Arg.Plain : Arg F X → Prop
  | .integer _ | .float _ => True
  | _ => False

/-- The constructor of the type converts it. -/
def Arg.Constructed : Arg F X → Prop
  | .nil | .other _ => True
  | _ => False

/-- A call that gives a result had no operand that the constructor converted, and one that
raises an error had taken no plain number by then. -/
def Clean (b : Backend F X E) (op : Op) (a1 a2 : Arg F X) : Prop :=
  if (evaluate b op a1 a2).isOk then ∀ a ∈ taken b op a1 a2, ¬ a.Constructed
  else ∀ a ∈ taken b op a1 a2, ¬ a.Plain

/-- Every value has one owner, which frees it once: a datum object when it is collected, or
the call that made the value. -/
structure Released (values : List Nat) (m : Mem) : Prop where
  placed : ∀ a ∈ values, a ∈ m.objs ∨ a ∈ m.temps
  owned : ∀ a ∈ m.objs, a ∉ m.freed ∧ m.collect.freed.count a = 1
  temps : ∀ a ∈ m.temps, m.freed.count a = 1 ∧ m.collect.freed.count a = 1

/-- Memory before a call. -/
structure Mem.Fresh (m : Mem) : Prop where
  objs : m.objs.Nodup
  below : ∀ a ∈ m.objs, a < m.next
  temps : m.temps = []
  freed : m.freed = []

/-- The values of the arguments that are datums belong to datum objects. -/
def Arg.Owned (m : Mem) : Arg F X → Prop
  | .datum v => v.addr ∈ m.objs
  | _ => True

/-! ## Taking the operands -/

/-- Memory after some operands: the values that new datums own, and those of plain numbers. -/
structure Taken (m m' : Mem) (owned plain : List Nat) : Prop where
  objs : m'.objs = m.objs ++ owned
  temps : m'.temps = m.temps ++ plain
  freed : m'.freed = m.freed
  next : m.next ≤ m'.next
  range : ∀ a ∈ owned ++ plain, m.next ≤ a ∧ a < m'.next
  nodup : (owned ++ plain).Nodup

theorem Taken.refl (m : Mem) : Taken m m [] [] :=
  ⟨(List.append_nil _).symm, (List.append_nil _).symm, rfl, Nat.le_refl _,
    fun _ h => (by cases h), List.nodup_nil⟩

theorem Taken.trans {m m' m'' : Mem} {o p o' p' : List Nat} (h : Taken m m' o p)
    (h' : Taken m' m'' o' p') : Taken m m'' (o ++ o') (p ++ p') where
  objs := by rw [h'.objs, h.objs, List.append_assoc]
  temps := by rw [h'.temps, h.temps, List.append_assoc]
  freed := h'.freed.trans h.freed
  next := Nat.le_trans h.next h'.next
  range := by
    intro a ha
    have hnext := h'.next
    have hnext' := h.next
    have hcases : a ∈ o ++ p ∨ a ∈ o' ++ p' := by
      simp only [List.mem_append] at ha ⊢
      tauto
    rcases hcases with ha | ha
    · have hr := h.range a ha
      omega
    · have hr := h'.range a ha
      omega
  nodup := by
    have hdisjoint : (o ++ p).Disjoint (o' ++ p') := by
      intro a ha ha'
      have hr := h.range a ha
      have hr' := h'.range a ha'
      omega
    have hperm : (o ++ o' ++ (p ++ p')).Perm ((o ++ p) ++ (o' ++ p')) := by
      refine List.perm_iff_count.mpr fun a => ?_
      simp only [List.count_append]
      omega
    rw [hperm.nodup_iff]
    exact h.nodup.append h'.nodup hdisjoint

theorem taken_allocate (m : Mem) : Taken m m.allocate [] [m.next] where
  objs := (List.append_nil _).symm
  temps := rfl
  freed := rfl
  next := Nat.le_succ _
  range := by
    intro a ha
    rw [List.mem_singleton.mp ha]
    exact ⟨Nat.le_refl _, Nat.lt_succ_self _⟩
  nodup := List.nodup_singleton _

theorem taken_savedatum (m : Mem) : Taken m m.savedatum [m.next] [] where
  objs := rfl
  temps := (List.append_nil _).symm
  freed := rfl
  next := Nat.le_succ _
  range := by
    intro a ha
    rw [List.append_nil, List.mem_singleton] at ha
    rw [ha]
    exact ⟨Nat.le_refl _, Nat.lt_succ_self _⟩
  nodup := List.nodup_singleton _

/-- What is taken for one operand: nothing for a datum, a value for a plain number, and a
datum with its value for anything else. -/
structure TakenFor (m m' : Mem) (a : Arg F X) (v : Val) (owned plain : List Nat) : Prop where
  taken : Taken m m' owned plain
  of_constructed : owned ≠ [] ↔ a.Constructed
  of_plain : plain ≠ [] ↔ a.Plain
  frees : (if a.isdatum then [] else [v.addr]) = owned ++ plain
  placed : a.Owned m → v.addr ∈ m'.objs ∨ v.addr ∈ m'.temps

theorem takenFor_datum (m : Mem) (v : Val) : TakenFor m m (Arg.datum v : Arg F X) v [] [] :=
  ⟨Taken.refl m, by simp [Arg.Constructed], by simp [Arg.Plain], rfl, Or.inl⟩

theorem takenFor_number (m : Mem) {a : Arg F X} (n : Numeric) (h : a.Plain) :
    TakenFor m m.allocate a ⟨m.next, n⟩ [] [m.next] := by
  refine ⟨taken_allocate m, ?_, ?_, ?_, fun _ => Or.inr ?_⟩
  · cases a <;> simp_all [Arg.Plain, Arg.Constructed]
  · simp [h]
  · cases a <;> simp_all [Arg.Plain, Arg.isdatum]
  · simp [Mem.allocate]

theorem takenFor_constructed (m : Mem) {a : Arg F X} (n : Numeric) (h : a.Constructed) :
    TakenFor m m.savedatum a ⟨m.next, n⟩ [m.next] [] := by
  refine ⟨taken_savedatum m, ?_, ?_, ?_, fun _ => Or.inl ?_⟩
  · simp [h]
  · cases a <;> simp_all [Arg.Plain, Arg.Constructed]
  · cases a <;> simp_all [Arg.Constructed, Arg.isdatum]
  · simp [Mem.savedatum]

section
variable (b : Backend F X E)

theorem constructed_taken (m : Mem) (x : Option X) {a : Arg F X} (ha : a.Constructed) :
    (∃ e, pllua_numeric_getarg.constructed b m x = (m, .error e) ∧
      value_of.constructed_value b x = .error e) ∨
    ∃ m' v owned plain, pllua_numeric_getarg.constructed b m x = (m', .ok v) ∧
      value_of.constructed_value b x = .ok v.num ∧ TakenFor m m' a v owned plain := by
  unfold pllua_numeric_getarg.constructed value_of.constructed_value
  rcases b.construct x with e | _ | n
  · exact Or.inl ⟨e, rfl, rfl⟩
  · exact Or.inl ⟨_, rfl, rfl⟩
  · exact Or.inr ⟨_, _, _, _, rfl, rfl, takenFor_constructed m n ha⟩

theorem getarg_taken (m : Mem) (a : Arg F X) :
    (∃ e, pllua_numeric_getarg b m a = (m, .error e) ∧ value_of b a = .error e) ∨
    ∃ m' v owned plain, pllua_numeric_getarg b m a = (m', .ok v) ∧ value_of b a = .ok v.num ∧
      TakenFor m m' a v owned plain := by
  cases a with
  | datum v => exact Or.inr ⟨_, _, _, _, rfl, rfl, takenFor_datum m v⟩
  | integer i => exact Or.inr ⟨_, _, _, _, rfl, rfl, takenFor_number m (b.int8_numeric i) trivial⟩
  | float f =>
    cases hi : b.float_integer f with
    | some i =>
      refine Or.inr ⟨_, ⟨m.next, b.int8_numeric i⟩, _, _, ?_, ?_, takenFor_number m _ trivial⟩
      · simp only [pllua_numeric_getarg, hi]
      · simp only [value_of, hi]
    | none =>
      cases hf : b.float8_numeric f with
      | error e =>
        refine Or.inl ⟨e, ?_, ?_⟩
        · simp only [pllua_numeric_getarg, hi, hf]
        · simp only [value_of, hi, hf]
      | ok n =>
        refine Or.inr ⟨_, ⟨m.next, n⟩, _, _, ?_, ?_, takenFor_number m _ trivial⟩
        · simp only [pllua_numeric_getarg, hi, hf]
        · simp only [value_of, hi, hf]
  | nil => exact constructed_taken b m none trivial
  | other x => exact constructed_taken b m (some x) trivial

end

/-- What is taken for several operands. -/
structure TakenForAll (m m' : Mem) (args : List (Arg F X)) (owned plain : List Nat) : Prop where
  taken : Taken m m' owned plain
  of_constructed : owned ≠ [] ↔ ∃ a ∈ args, a.Constructed
  of_plain : plain ≠ [] ↔ ∃ a ∈ args, a.Plain

theorem TakenForAll.nil (m : Mem) : TakenForAll m m ([] : List (Arg F X)) [] [] :=
  ⟨Taken.refl m, by simp, by simp⟩

theorem TakenForAll.cons {m m' m'' : Mem} {a : Arg F X} {v : Val} {args : List (Arg F X)}
    {owned plain owned' plain' : List Nat} (h : TakenFor m m' a v owned plain)
    (h' : TakenForAll m' m'' args owned' plain') :
    TakenForAll m m'' (a :: args) (owned ++ owned') (plain ++ plain') where
  taken := h.taken.trans h'.taken
  of_constructed := by
    have hc := h.of_constructed
    have hc' := h'.of_constructed
    simp only [ne_eq, List.append_eq_nil_iff, not_and_or, List.exists_mem_cons_iff] at *
    exact or_congr hc hc'
  of_plain := by
    have hp := h.of_plain
    have hp' := h'.of_plain
    simp only [ne_eq, List.append_eq_nil_iff, not_and_or, List.exists_mem_cons_iff] at *
    exact or_congr hp hp'

/-- The values that `pllua_numeric_guts` frees. -/
def Operands.frees (o : Operands) : List Nat :=
  (if o.free_val1 then [o.val1.addr] else []) ++
    match o.val2 with
    | some v => if o.free_val2 then [v.addr] else []
    | none => []

/-- The values of the operands. -/
def Operands.values (o : Operands) : List Nat :=
  o.val1.addr :: o.val2.toList.map (·.addr)

/-- What `pllua_numeric_guts` makes of the operands. -/
def Operands.result (b : Backend F X E) (o : Operands) : Except E (Res Numeric) :=
  b.apply o.op o.val1.num (o.val2.elim (.fin 0) (·.num)) o.i2

/-- The handler up to its call of `pllua_numeric_guts`. -/
structure Prepared (b : Backend F X E) (m m' : Mem) (op : Op) (a1 a2 : Arg F X) (o : Operands)
    (owned plain : List Nat) : Prop where
  taken : TakenForAll m m' (taken b op a1 a2) owned plain
  result : evaluate b op a1 a2 = o.result b
  frees : o.frees.Perm (owned ++ plain)
  placed : a1.Owned m → a2.Owned m → ∀ a ∈ o.values, a ∈ m'.objs ∨ a ∈ m'.temps

section
variable (b : Backend F X E)

theorem TakenFor.owned_later {m m' : Mem} {a a' : Arg F X} {v : Val} {owned plain : List Nat}
    (h : TakenFor m m' a v owned plain) (ha : a'.Owned m) : a'.Owned m' := by
  cases a' with
  | datum w =>
    have hw : w.addr ∈ m.objs := ha
    show w.addr ∈ m'.objs
    rw [h.taken.objs]
    exact List.mem_append_left _ hw
  | integer | float | nil | other => trivial

theorem TakenFor.placed_later {m m' m'' : Mem} {a a' : Arg F X} {v v' : Val}
    {owned plain owned' plain' : List Nat} (h : TakenFor m m' a v owned plain)
    (h' : TakenFor m' m'' a' v' owned' plain') (ha : a.Owned m) :
    v.addr ∈ m''.objs ∨ v.addr ∈ m''.temps := by
  rw [h'.taken.objs, h'.taken.temps, List.mem_append, List.mem_append]
  rcases h.placed ha with hin | hin
  · exact Or.inl (Or.inl hin)
  · exact Or.inr (Or.inl hin)

/-- Two operands: an error in one of them, or both are prepared. -/
theorem two_operands_prepared (m : Mem) {op : Op} (a1 a2 : Arg F X)
    (hop : op.id < Op.LOG.id ∨ op = .LOG ∧ a2.isnoneornil = false) :
    (∃ m' e owned plain, two_operands b m op a1 a2 = (m', .error e) ∧
      evaluate b op a1 a2 = .error e ∧ TakenForAll m m' (taken b op a1 a2) owned plain) ∨
    ∃ m' o owned plain, two_operands b m op a1 a2 = (m', .ok o) ∧
      Prepared b m m' op a1 a2 o owned plain := by
  have hused : used op a1 a2 = [a1, a2] := by
    unfold used
    rcases hop with h | h
    · rw [if_pos h]
    · rw [if_neg (by rw [h.1]; exact Nat.lt_irrefl _), if_pos h]
  unfold two_operands evaluate taken
  rw [if_pos hop, hused]
  rcases getarg_taken b m a1 with ⟨e, hget, hval⟩ | ⟨m1, v1, o1, p1, hget, hval, ht1⟩
  · refine Or.inl ⟨m, e, [], [], ?_, ?_, ?_⟩
    · rw [hget]
    · rw [hval, both_error]
    · rw [List.takeWhile_cons_of_neg (by simp [hval, Except.isOk, Except.toBool])]
      exact TakenForAll.nil m
  · rcases getarg_taken b m1 a2 with ⟨e, hget2, hval2⟩ | ⟨m2, v2, o2, p2, hget2, hval2, ht2⟩
    · refine Or.inl ⟨m1, e, o1 ++ [], p1 ++ [], ?_, ?_, ?_⟩
      · simp only [hget, hget2]
      · rw [hval, hval2, both_ok_error]
      · rw [List.takeWhile_cons_of_pos (by simp [hval, Except.isOk, Except.toBool]),
          List.takeWhile_cons_of_neg (by simp [hval2, Except.isOk, Except.toBool])]
        exact TakenForAll.cons ht1 (TakenForAll.nil m1)
    · refine Or.inr ⟨m2, ⟨op, v1, some v2, 0, !a1.isdatum, !a2.isdatum⟩, o1 ++ (o2 ++ []),
        p1 ++ (p2 ++ []), ?_, ?_⟩
      · simp only [hget, hget2]
      · refine ⟨?_, ?_, ?_, ?_⟩
        · unfold taken
          rw [hused, List.takeWhile_cons_of_pos (by simp [hval, Except.isOk, Except.toBool]),
            List.takeWhile_cons_of_pos (by simp [hval2, Except.isOk, Except.toBool])]
          exact TakenForAll.cons ht1 (TakenForAll.cons ht2 (TakenForAll.nil m2))
        · unfold evaluate
          rw [if_pos hop, hval, hval2]
          rfl
        · have hfrees : Operands.frees ⟨op, v1, some v2, 0, !a1.isdatum, !a2.isdatum⟩ =
              (o1 ++ p1) ++ (o2 ++ p2) := by
            rw [← ht1.frees, ← ht2.frees]
            cases a1.isdatum <;> cases a2.isdatum <;> rfl
          rw [hfrees]
          refine List.perm_iff_count.mpr fun a => ?_
          simp only [List.count_append, List.count_nil]
          omega
        · intro hown1 hown2 a ha
          rcases List.mem_cons.mp ha with ha | ha
          · rw [ha]
            exact ht1.placed_later ht2 hown1
          · rw [List.mem_singleton.mp ha]
            exact ht2.placed (ht1.owned_later hown2)

/-- One operand, and the check of the second argument. -/
theorem one_operand_prepared (m : Mem) {op op' : Op} (a1 a2 : Arg F X) (check : Except E Int)
    (hop : ¬ (op.id < Op.LOG.id ∨ op = .LOG ∧ a2.isnoneornil = false))
    (hop' : op' = if op = .LOG then .LN else op)
    (hcheck : check = if op = .LOG then .ok 0 else check_second b op a2) :
    (∃ m' e owned plain, one_operand b m op' a1 check = (m', .error e) ∧
      evaluate b op a1 a2 = .error e ∧ TakenForAll m m' (taken b op a1 a2) owned plain) ∨
    ∃ m' o owned plain, one_operand b m op' a1 check = (m', .ok o) ∧
      Prepared b m m' op a1 a2 o owned plain := by
  have hused : used op a1 a2 = [a1] := by
    unfold used
    rw [if_neg fun h => hop (Or.inl h), if_neg fun h => hop (Or.inr h)]
  have heval : evaluate b op a1 a2 =
      both (value_of b a1) check fun x i2 => b.apply op' x (.fin 0) i2 := by
    unfold evaluate
    rw [if_neg hop, hop', hcheck]
  unfold one_operand
  rcases getarg_taken b m a1 with ⟨e, hget, hval⟩ | ⟨m1, v1, o1, p1, hget, hval, ht1⟩
  · refine Or.inl ⟨m, e, [], [], ?_, ?_, ?_⟩
    · rw [hget]
    · rw [heval, hval, both_error]
    · unfold taken
      rw [hused, List.takeWhile_cons_of_neg (by simp [hval, Except.isOk, Except.toBool])]
      exact TakenForAll.nil m
  · have htaken : TakenForAll m m1 (taken b op a1 a2) (o1 ++ []) (p1 ++ []) := by
      unfold taken
      rw [hused, List.takeWhile_cons_of_pos (by simp [hval, Except.isOk, Except.toBool])]
      exact TakenForAll.cons ht1 (TakenForAll.nil m1)
    cases check with
    | error e =>
      refine Or.inl ⟨m1, e, _, _, ?_, ?_, htaken⟩
      · simp only [hget]
      · rw [heval, hval, both_ok_error]
    | ok i2 =>
      refine Or.inr ⟨m1, ⟨op', v1, none, i2, !a1.isdatum, false⟩, _, _, ?_, htaken, ?_, ?_, ?_⟩
      · simp only [hget]
      · rw [heval, hval]
        rfl
      · have hfrees : Operands.frees ⟨op', v1, none, i2, !a1.isdatum, false⟩ = o1 ++ p1 := by
          rw [← ht1.frees]
          cases a1.isdatum <;> rfl
        rw [hfrees, List.append_nil, List.append_nil]
      · intro hown1 _ a ha
        rw [List.mem_singleton.mp ha]
        exact ht1.placed hown1

/-- The operands of every operation. -/
theorem operands_prepared (m : Mem) (op : Op) (a1 a2 : Arg F X) :
    (∃ m' e owned plain, operands b m op a1 a2 = (m', .error e) ∧
      evaluate b op a1 a2 = .error e ∧ TakenForAll m m' (taken b op a1 a2) owned plain) ∨
    ∃ m' o owned plain, operands b m op a1 a2 = (m', .ok o) ∧
      Prepared b m m' op a1 a2 o owned plain := by
  unfold operands
  split
  case isTrue hlt => exact two_operands_prepared b m a1 a2 (Or.inl hlt)
  case isFalse hlt =>
    split
    case isTrue hlog =>
      subst hlog
      split
      case isTrue hnil =>
        refine one_operand_prepared b m a1 a2 _ (fun h => ?_) rfl rfl
        rcases h with h | h
        · exact hlt h
        · rw [hnil] at h
          cases h.2
      case isFalse hnil =>
        exact two_operands_prepared b m a1 a2 (Or.inr ⟨rfl, Bool.eq_false_of_not_eq_true hnil⟩)
    case isFalse hlog =>
      refine one_operand_prepared b m a1 a2 _ (fun h => ?_) (if_neg hlog).symm (if_neg hlog).symm
      rcases h with h | h
      · exact hlt h
      · exact hlog h.1

end

/-! ## What is freed -/

theorem release_spec (m : Mem) (free_val : Bool) (v : Option Val) :
    (release m free_val v).freed =
        m.freed ++ (match v with
          | some v => if free_val then [v.addr] else []
          | none => []) ∧
      (release m free_val v).objs = m.objs ∧ (release m free_val v).temps = m.temps := by
  cases v with
  | none => exact ⟨(List.append_nil _).symm, rfl, rfl⟩
  | some v =>
    cases free_val with
    | false => exact ⟨(List.append_nil _).symm, rfl, rfl⟩
    | true => exact ⟨rfl, rfl, rfl⟩

theorem save_result_spec (m : Mem) (res : Res Numeric) :
    (save_result m res).2.content = res ∧ (save_result m res).1.freed = m.freed ∧ (save_result m res).1.temps = m.temps ∧
      ((save_result m res).1.objs = m.objs ∨ (save_result m res).1.objs = m.objs ++ [m.next]) := by
  cases res with
  | num n => exact ⟨rfl, rfl, rfl, Or.inr rfl⟩
  | bool t => exact ⟨rfl, rfl, rfl, Or.inl rfl⟩

/-- The operator frees the values made for the call and those of the datums made for it. -/
theorem guts_spec (b : Backend F X E) (m : Mem) (o : Operands) :
    (∃ e, o.result b = .error e ∧ pllua_numeric_guts b m o = (m, .error e)) ∨
    ∃ m' r, o.result b = .ok r.content ∧ pllua_numeric_guts b m o = (m', .ok r) ∧
      m'.freed = m.freed ++ o.frees ∧ m'.temps = m.temps ∧
      (m'.objs = m.objs ∨ m'.objs = m.objs ++ [m.next]) := by
  unfold pllua_numeric_guts
  cases h : o.result b with
  | error e =>
    unfold Operands.result at h
    rw [h]
    exact Or.inl ⟨e, rfl, rfl⟩
  | ok res =>
    unfold Operands.result at h
    rw [h]
    obtain ⟨hcontent, hfreed, htemps, hobjs⟩ := save_result_spec m res
    obtain ⟨hfreed1, hobjs1, htemps1⟩ :=
      release_spec (save_result m res).1 o.free_val1 (some o.val1)
    obtain ⟨hfreed2, hobjs2, htemps2⟩ :=
      release_spec (release (save_result m res).1 o.free_val1 (some o.val1)) o.free_val2 o.val2
    refine Or.inr ⟨_, _, ?_, rfl, ?_, ?_, ?_⟩
    · rw [hcontent]
    · rw [hfreed2, hfreed1, hfreed, List.append_assoc]
      rfl
    · rw [htemps2, htemps1, htemps]
    · rw [hobjs2, hobjs1]
      exact hobjs

/-- After an error nothing is freed, and no value made for a plain number may be there. -/
theorem released_error_iff {m m' : Mem} (hm : m.Fresh) {owned plain values : List Nat}
    (ht : Taken m m' owned plain) (hplaced : ∀ a ∈ values, a ∈ m'.objs ∨ a ∈ m'.temps) :
    Released values m' ↔ plain = [] := by
  have hfreed : m'.freed = [] := ht.freed.trans hm.freed
  have htemps : m'.temps = plain := by rw [ht.temps, hm.temps, List.nil_append]
  constructor
  · intro h
    by_contra hne
    obtain ⟨a, ha⟩ := List.exists_mem_of_ne_nil _ hne
    have hcount := (h.temps a (by rw [htemps]; exact ha)).1
    rw [hfreed] at hcount
    cases hcount
  · intro hnil
    refine ⟨hplaced, fun a ha => ?_, fun a ha => ?_⟩
    · have hnodup : m'.objs.Nodup := by
        rw [ht.objs]
        refine hm.objs.append (List.Nodup.of_append_left ht.nodup) fun a ha ha' => ?_
        have hlt := hm.below a ha
        have hge := ht.range a (List.mem_append_left _ ha')
        omega
      rw [hfreed, Mem.collect, hfreed, List.nil_append]
      exact ⟨List.not_mem_nil, List.count_eq_one_of_mem hnodup ha⟩
    · rw [htemps, hnil] at ha
      cases ha

/-- After a result no datum may have been made for an operand: its value was freed. -/
theorem released_ok_iff {m m' m'' : Mem} (hm : m.Fresh) {owned plain frees values : List Nat}
    (ht : Taken m m' owned plain) (hperm : frees.Perm (owned ++ plain))
    (hfreed : m''.freed = m'.freed ++ frees) (htemps : m''.temps = m'.temps)
    (hobjs : m''.objs = m'.objs ∨ m''.objs = m'.objs ++ [m'.next])
    (hplaced : ∀ a ∈ values, a ∈ m'.objs ∨ a ∈ m'.temps) :
    Released values m'' ↔ owned = [] := by
  have hfreed' : m''.freed = frees := by rw [hfreed, ht.freed, hm.freed, List.nil_append]
  have htemps' : m''.temps = plain := by rw [htemps, ht.temps, hm.temps, List.nil_append]
  have hkept : ∀ a ∈ m'.objs, a ∈ m''.objs := by
    intro a ha
    rcases hobjs with h | h
    · rw [h]
      exact ha
    · rw [h]
      exact List.mem_append_left _ ha
  constructor
  · intro h
    by_contra hne
    obtain ⟨a, ha⟩ := List.exists_mem_of_ne_nil _ hne
    have hin : a ∈ m''.objs := hkept a (by rw [ht.objs]; exact List.mem_append_right _ ha)
    refine (h.owned a hin).1 ?_
    rw [hfreed', hperm.mem_iff]
    exact List.mem_append_left _ ha
  · intro hnil
    subst hnil
    rw [List.nil_append] at hperm
    have hrange : ∀ a ∈ plain, m.next ≤ a ∧ a < m'.next := ht.range
    have hsame : m'.objs = m.objs := by rw [ht.objs, List.append_nil]
    have hnext := ht.next
    have howned : ∀ a ∈ m''.objs, a ∉ plain := by
      intro a ha hp
      have hr := hrange a hp
      rw [hsame] at hobjs
      have hcases : a ∈ m.objs ∨ a = m'.next := by
        rcases hobjs with h | h
        · rw [h] at ha
          exact Or.inl ha
        · rw [h, List.mem_append, List.mem_singleton] at ha
          exact ha
      rcases hcases with hin | heq
      · have hlt := hm.below a hin
        omega
      · omega
    have hnodup : m''.objs.Nodup := by
      rw [hsame] at hobjs
      rcases hobjs with h | h
      · rw [h]
        exact hm.objs
      · rw [h]
        refine hm.objs.append (List.nodup_singleton _) fun a ha ha' => ?_
        have hlt := hm.below a ha
        rw [List.mem_singleton.mp ha'] at hlt
        omega
    have hplain : plain.Nodup := ht.nodup
    refine ⟨fun a ha => ?_, fun a ha => ?_, fun a ha => ?_⟩
    · rw [htemps]
      exact (hplaced a ha).imp_left (hkept a)
    · have hnot := howned a ha
      rw [← hperm.mem_iff] at hnot
      rw [Mem.collect, hfreed']
      refine ⟨hnot, ?_⟩
      simp only [List.count_append]
      rw [List.count_eq_zero_of_not_mem hnot, List.count_eq_one_of_mem hnodup ha]
    · rw [htemps'] at ha
      have hone : frees.count a = 1 := by
        rw [hperm.count_eq]
        exact List.count_eq_one_of_mem hplain ha
      have hnone : a ∉ m''.objs := fun hin => howned a hin ha
      rw [Mem.collect, hfreed']
      refine ⟨hone, ?_⟩
      simp only [List.count_append]
      rw [hone, List.count_eq_zero_of_not_mem hnone]

/-- What the operands were, once they are known. -/
def used_values (b : Backend F X E) (m : Mem) (op : Op) (a1 a2 : Arg F X) : List Nat :=
  match (operands b m op a1 a2).2 with
  | .ok o => o.values
  | .error _ => []

/-- The handler gives what the operation means. -/
theorem handler_result (b : Backend F X E) (m : Mem) (op : Op) (a1 a2 : Arg F X) :
    (∃ e, (pllua_numeric_handler b m op a1 a2).2 = .error e ∧ evaluate b op a1 a2 = .error e) ∨
    ∃ r, (pllua_numeric_handler b m op a1 a2).2 = .ok r ∧ evaluate b op a1 a2 = .ok r.content := by
  unfold pllua_numeric_handler
  rcases operands_prepared b m op a1 a2 with ⟨m', e, _, _, hops, heval, -⟩ |
    ⟨m', o, _, _, hops, hprep⟩
  · rw [hops, heval]
    exact Or.inl ⟨e, rfl, rfl⟩
  · rw [hops, hprep.result]
    rcases guts_spec b m' o with ⟨e, hres, hguts⟩ | ⟨m'', r, hres, hguts, -⟩
    · simp only [hguts, hres]
      exact Or.inl ⟨e, rfl, rfl⟩
    · simp only [hguts, hres]
      exact Or.inr ⟨r, rfl, rfl⟩

/-- Every value that a call uses has one owner that frees it once if and only if the call is
clean. Otherwise a datum made by the constructor has lost its value to the operator, and its
finalizer frees it again, or an error has left the value of a plain number behind. -/
theorem handler_released_iff (b : Backend F X E) {m : Mem} (hm : m.Fresh) (op : Op)
    {a1 a2 : Arg F X} (h1 : a1.Owned m) (h2 : a2.Owned m) :
    Released (used_values b m op a1 a2) (pllua_numeric_handler b m op a1 a2).1 ↔
      Clean b op a1 a2 := by
  unfold pllua_numeric_handler used_values Clean
  rcases operands_prepared b m op a1 a2 with ⟨m', e, owned, plain, hops, heval, htaken⟩ |
    ⟨m', o, owned, plain, hops, hprep⟩
  · have hplain := not_iff_not.mpr htaken.of_plain
    rw [hops, heval]
    simp only [Except.isOk, Except.toBool, Bool.false_eq_true, if_false]
    rw [released_error_iff hm htaken.taken (fun _ h => by cases h)]
    simpa using hplain
  · have hplaced := hprep.placed h1 h2
    rw [hops, hprep.result]
    rcases guts_spec b m' o with ⟨e, hres, hguts⟩ |
      ⟨m'', r, hres, hguts, hfreed, htemps, hobjs⟩
    · have hplain := not_iff_not.mpr hprep.taken.of_plain
      simp only [hguts, hres, Except.isOk, Except.toBool, Bool.false_eq_true, if_false]
      rw [released_error_iff hm hprep.taken.taken hplaced]
      simpa using hplain
    · have howned := not_iff_not.mpr hprep.taken.of_constructed
      simp only [hguts, hres, Except.isOk, Except.toBool, if_true]
      rw [released_ok_iff hm hprep.taken.taken hprep.frees hfreed htemps hobjs hplaced]
      simpa using howned

/-- Functions for a trial: but for rounding they give back their first operand. -/
def trial : Backend Unit Unit String where
  numeric_add := fun x _ => .ok x
  numeric_sub := fun x _ => .ok x
  numeric_mul := fun x _ => .ok x
  numeric_div := fun x _ => .ok x
  numeric_div_trunc := fun x _ => .ok x
  numeric_mod := fun x _ => .ok x
  numeric_power := fun x _ => .ok x
  numeric_uminus := .ok
  numeric_eq := fun x y => x = y
  numeric_lt := fun _ _ => false
  numeric_le := fun _ _ => false
  numeric_abs := .ok
  numeric_ceil := .ok
  numeric_exp := .ok
  numeric_floor := .ok
  numeric_log := fun _ x => .ok x
  numeric_ln := .ok
  numeric_round := fun x n => .ok (x.at_digit round_away (clamp (-2000) 2000 n))
  numeric_sign := .ok
  numeric_sqrt := .ok
  numeric_trunc := fun x n => .ok (x.at_digit truncate (clamp (-2000) 2000 n))
  numeric_uplus := .ok
  numeric_is_nan := fun x => x = .nan
  int8_numeric := fun i => .fin i
  float8_numeric := fun _ => .ok .nan
  construct := fun x => .ok (x.map fun _ => .fin 1)
  float_integer := fun _ => none
  other_integer := fun _ => none
  no_datum := "numeric conversion did not yield a numeric datum"
  arg_error := fun msg => msg.getD "bad argument"

/-- A datum and a plain number are added: the number's value is freed by the call. -/
theorem handler_released_datum_and_integer :
    Released (used_values trial ⟨1, [0], [], []⟩ .ADD (.datum ⟨0, .fin 5⟩) (.integer 2))
      (pllua_numeric_handler trial ⟨1, [0], [], []⟩ .ADD (.datum ⟨0, .fin 5⟩) (.integer 2)).1 := by
  have hm : Mem.Fresh ⟨1, [0], [], []⟩ := ⟨by decide, by decide, rfl, rfl⟩
  have h1 : Arg.Owned ⟨1, [0], [], []⟩ (Arg.datum ⟨0, .fin 5⟩ : Arg Unit Unit) :=
    List.mem_singleton.mpr rfl
  have h2 : Arg.Owned ⟨1, [0], [], []⟩ (Arg.integer 2 : Arg Unit Unit) := trivial
  refine (handler_released_iff trial hm .ADD h1 h2).mpr ?_
  intro a ha
  have ha' : a ∈ [Arg.datum ⟨0, .fin 5⟩, Arg.integer 2] := ha
  rcases List.mem_cons.mp ha' with ha' | ha'
  · rw [ha']
    exact fun h => h
  · rw [List.mem_singleton.mp ha']
    exact fun h => h

/-- A datum and a string are added: the value of the datum that the constructor makes of the
string is freed by the operator and by the finalizer. -/
theorem handler_frees_twice :
    ¬ Released (used_values trial ⟨1, [0], [], []⟩ .ADD (.datum ⟨0, .fin 5⟩) (.other ()))
        (pllua_numeric_handler trial ⟨1, [0], [], []⟩ .ADD (.datum ⟨0, .fin 5⟩) (.other ())).1 ∧
      (pllua_numeric_handler trial ⟨1, [0], [], []⟩ .ADD (.datum ⟨0, .fin 5⟩)
        (.other ())).1.collect.freed = [1, 0, 1, 2] := by
  refine ⟨fun h => ?_, rfl⟩
  have hin : 1 ∈ (pllua_numeric_handler trial ⟨1, [0], [], []⟩ .ADD (.datum ⟨0, .fin 5⟩)
      (.other ())).1.objs := by decide
  exact (h.owned 1 hin).1 (by decide)

/-! ## Digits -/

theorem c_int_eq_iff (n : Int) : c_int n = n ↔ -2147483648 ≤ n ∧ n ≤ 2147483647 := by
  rw [c_int, Int.bmod_def]
  omega

/-- How `numeric_round` and `numeric_trunc` are documented: they round half away from zero and
toward zero at the digit, kept within limits. -/
structure RoundsAtDigit (b : Backend F X E) (lo hi : Int) : Prop where
  round : ∀ x n r, b.numeric_round x n = .ok r → r = x.at_digit round_away (clamp lo hi n)
  trunc : ∀ x n r, b.numeric_trunc x n = .ok r → r = x.at_digit truncate (clamp lo hi n)

/-- The rounding of `round` and of `trunc`. -/
def Op.rounding : Op → ℚ → ℤ
  | .ROUND => round_away
  | _ => truncate

/-- PostgreSQL's function for the operation. -/
def Backend.at_digit (b : Backend F X E) : Op → Numeric → Int → Except E Numeric
  | .ROUND => b.numeric_round
  | _ => b.numeric_trunc

/-- A call raises an error, or it gives the value at the digit that was asked for, and no other
digit was used for it. -/
def Honours (b : Backend F X E) (lo hi : Int) (m : Mem) (op : Op) (a : Arg F X) (x : Numeric)
    (n : Int) : Prop :=
  (∃ e, (pllua_numeric_handler b m op a (.integer n)).2 = .error e) ∨
    (∃ v, (pllua_numeric_handler b m op a (.integer n)).2 = .ok (.num v) ∧
      v.num = x.at_digit op.rounding (clamp lo hi n) ∧ c_int n = n)

theorem evaluate_at_digit (b : Backend F X E) {op : Op} (hop : op = .ROUND ∨ op = .TRUNC)
    {a : Arg F X} {x : Numeric} (hx : value_of b a = .ok x) (n : Int) :
    evaluate b op a (.integer n) = Except.num (b.at_digit op x (c_int n)) := by
  rcases hop with rfl | rfl
  · unfold evaluate
    rw [hx]
    rfl
  · unfold evaluate
    rw [hx]
    rfl

theorem RoundsAtDigit.at_digit {b : Backend F X E} {lo hi : Int} (h : RoundsAtDigit b lo hi)
    {op : Op} (hop : op = .ROUND ∨ op = .TRUNC) {x r : Numeric} {n : Int}
    (hr : b.at_digit op x n = .ok r) : r = x.at_digit op.rounding (clamp lo hi n) := by
  rcases hop with rfl | rfl
  · exact h.round x n r hr
  · exact h.trunc x n r hr

theorem rounding_int (op : Op) (k : ℤ) : op.rounding k = k := by
  cases op <;> first | exact round_away_int k | exact truncate_int k

theorem rounding_small (op : Op) {q : ℚ} (h : |q| < 1 / 2) : op.rounding q = 0 := by
  have h1 : |q| < 1 := lt_trans h (by norm_num)
  cases op <;> first | exact round_away_small h | exact truncate_small h1

/-- A call honours the digit count if and only if the count fits a C int, unless PostgreSQL
raises an error at the low 32 bits of it. Within the limits a count not less than the scale
gives the value itself, and one left of all its digits gives 0. -/
theorem digits_honoured_iff (b : Backend F X E) {lo hi : Int} (hb : RoundsAtDigit b lo hi)
    (m : Mem) {op : Op} (hop : op = .ROUND ∨ op = .TRUNC) {a : Arg F X} {x : Numeric}
    (hx : value_of b a = .ok x) (n : Int) :
    (Honours b lo hi m op a x n ↔
      (-2147483648 ≤ n ∧ n ≤ 2147483647) ∨ ∃ e, b.at_digit op x (c_int n) = .error e) ∧
    (∀ (k : ℤ) (scale : ℕ), x = .fin (k / 10 ^ scale) → scale ≤ n → (scale : ℤ) ≤ hi →
      x.at_digit op.rounding (clamp lo hi n) = x) ∧
    (∀ (q : ℚ) (digits : ℕ), x = .fin q → |q| < 10 ^ digits → n < -digits → lo < -digits →
      x.at_digit op.rounding (clamp lo hi n) = .fin 0) := by
  refine ⟨?_, ?_, ?_⟩
  · have heval := evaluate_at_digit b hop hx n
    rcases handler_result b m op a (.integer n) with ⟨e, hcall, he⟩ | ⟨r, hcall, hr⟩
    · rw [heval] at he
      have herr : ∃ e, b.at_digit op x (c_int n) = .error e := by
        cases hd : b.at_digit op x (c_int n) with
        | error e => exact ⟨e, rfl⟩
        | ok y =>
          rw [hd] at he
          cases he
      exact ⟨fun _ => Or.inr herr, fun _ => Or.inl ⟨e, hcall⟩⟩
    · rw [heval] at hr
      cases hd : b.at_digit op x (c_int n) with
      | error e =>
        rw [hd] at hr
        cases hr
      | ok y =>
        rw [hd] at hr
        have hnot : ¬ ∃ e, (Except.ok y : Except E Numeric) = .error e := fun ⟨_, he⟩ => by cases he
        rw [or_iff_left hnot, ← c_int_eq_iff]
        constructor
        · intro h
          rcases h with ⟨e, he⟩ | ⟨v, -, -, hn⟩
          · rw [hcall] at he
            cases he
          · exact hn
        · intro hn
          cases r with
          | bool t => cases hr
          | num v =>
            have hy : y = v.num := by
              injection hr with hr
              injection hr
            have hround := hb.at_digit hop hd
            rw [hn] at hround
            exact Or.inr ⟨v, hcall, hy.symm.trans hround, hn⟩
  · intro k scale hq hn hhi
    rw [hq, Numeric.at_digit, to_digits_scale (rounding_int op) rfl]
    unfold clamp
    omega
  · intro q digits hq hlt hn hlo
    rw [hq, Numeric.at_digit, to_digits_small (fun q => rounding_small op) hlt]
    unfold clamp
    omega

theorem trial_rounds : RoundsAtDigit trial (-2000) 2000 where
  round := fun _ _ _ h => (Except.ok.inj h).symm
  trunc := fun _ _ _ h => (Except.ok.inj h).symm

theorem digits_honoured_one_digit :
    Honours trial (-2000) 2000 ⟨1, [0], [], []⟩ .ROUND (.datum ⟨0, .fin (5 / 4)⟩)
      (.fin (5 / 4)) 1 :=
  ((digits_honoured_iff trial trial_rounds ⟨1, [0], [], []⟩ (Or.inl rfl)
    (a := .datum ⟨0, .fin (5 / 4)⟩) rfl 1).1).mpr (Or.inl ⟨by decide, by decide⟩)

/-- With a count of 2^32 + 1 digits 1.25 is rounded to one digit. -/
theorem digits_wrapped :
    ¬ Honours trial (-2000) 2000 ⟨1, [0], [], []⟩ .ROUND (.datum ⟨0, .fin (5 / 4)⟩)
        (.fin (5 / 4)) 4294967297 ∧
      (pllua_numeric_handler trial ⟨1, [0], [], []⟩ .ROUND (.datum ⟨0, .fin (5 / 4)⟩)
        (.integer 4294967297)).2 = .ok (.num ⟨1, .fin (13 / 10)⟩) ∧
      (Numeric.fin (5 / 4)).at_digit round_away (clamp (-2000) 2000 4294967297) =
        .fin (5 / 4) := by
  have hcall : (pllua_numeric_handler trial ⟨1, [0], [], []⟩ .ROUND (.datum ⟨0, .fin (5 / 4)⟩)
      (.integer 4294967297)).2 =
        .ok (.num ⟨1, (Numeric.fin (5 / 4)).at_digit round_away 1⟩) := rfl
  have hdigit : (Numeric.fin (5 / 4)).at_digit round_away 1 = .fin (13 / 10) := by
    norm_num [Numeric.at_digit, to_digits, round_away]
  refine ⟨fun h => ?_, by rw [hcall, hdigit], ?_⟩
  · rcases h with ⟨e, he⟩ | ⟨v, -, -, hn⟩
    · rw [hcall] at he
      cases he
    · exact absurd hn (by decide)
  · have hscale : (5 / 4 : ℚ) = ((125 : ℤ) : ℚ) / 10 ^ 2 := by norm_num
    rw [Numeric.at_digit, to_digits_scale round_away_int hscale (by decide)]

end pllua.numeric
