-- The arrays of types, values and nulls of the SPI calls, and the slots of the Lua
-- stack (spi.c). A call has room for 100 entries of its own, and takes memory for
-- more where it knows the count. Each C function gets LUA_MINSTACK slots beyond its
-- arguments, and more only when it asks for them.
import Pllua.Guards

open pllua.guards

namespace pllua.spi_arguments

/-! ## The stack of a C function -/

def LUA_MINSTACK : Nat := 20

inductive Fault
  /-- a place of an array that it does not have -/
  | overrun
  /-- a value pushed on a slot that was not reserved -/
  | overflow
deriving DecidableEq, Repr

/-- The values on the stack of the function, and the slots that there are. -/
structure Frame where
  top : Nat
  limit : Nat
deriving DecidableEq, Repr

abbrev Step := Frame → Except (Halt Fault) Frame

/-- The function is called with so many arguments. -/
def enter (args : Nat) : Frame := ⟨args, args + LUA_MINSTACK⟩

def push (n : Nat) : Step := fun f =>
  ensure (f.top + n ≤ f.limit) (.fault .overflow) { f with top := f.top + n }

def pop (n : Nat) (f : Frame) : Frame := { f with top := f.top - n }

/-- Values that are pushed and popped again. -/
def scratch (n : Nat) : Step := fun f => ensure (f.top + n ≤ f.limit) (.fault .overflow) f

def settop (n : Nat) : Step := fun f =>
  ensure (n ≤ f.limit) (.fault .overflow) { f with top := n }

/-- `lua_call`: the function and its arguments go, the results come. -/
def call (nargs nresults : Nat) : Step := fun f => push nresults (pop (nargs + 1) f)

/-- `luaL_checkstack`. -/
def checkstack (grows : Bool) (n : Nat) : Step := fun f =>
  if f.top + n ≤ f.limit then .ok f
  else if grows then .ok { f with limit := f.top + n } else .error .error

/-- The place `i` of an array of the given size is read or written. -/
def access (size i : Nat) : Step := ensure (i < size) (.fault .overrun)

/-- An error unless the condition holds. -/
def require (c : Prop) [Decidable c] : Step := ensure c .error

section
variable (n : Nat) (f : Frame) (Q : Frame → Prop)

@[simp] theorem safe_push :
    Safe (push n f) Q ↔ f.top + n ≤ f.limit ∧ Q { f with top := f.top + n } :=
  safe_ensure_fault _ _ _ Q

@[simp] theorem safe_scratch : Safe (scratch n f) Q ↔ f.top + n ≤ f.limit ∧ Q f :=
  safe_ensure_fault _ _ _ Q

@[simp] theorem safe_settop :
    Safe (settop n f) Q ↔ n ≤ f.limit ∧ Q { f with top := n } :=
  safe_ensure_fault _ _ _ Q

@[simp] theorem safe_call (nargs nresults : Nat) :
    Safe (call nargs nresults f) Q ↔ f.top - (nargs + 1) + nresults ≤ f.limit ∧
      Q { f with top := f.top - (nargs + 1) + nresults } :=
  safe_ensure_fault _ _ _ Q

@[simp] theorem safe_access (size i : Nat) : Safe (access size i f) Q ↔ i < size ∧ Q f :=
  safe_ensure_fault _ _ _ Q

@[simp] theorem safe_require (c : Prop) [Decidable c] : Safe (require c f) Q ↔ (c → Q f) :=
  safe_ensure_error _ _ Q

@[simp] theorem pop_top : (pop n f).top = f.top - n := rfl

@[simp] theorem pop_limit : (pop n f).limit = f.limit := rfl

@[simp] theorem enter_top : (enter n).top = n := rfl

@[simp] theorem enter_limit : (enter n).limit = n + 20 := rfl

/-- After it there are so many slots. -/
theorem safe_checkstack (grows : Bool)
    (h : ∀ limit, f.limit ≤ limit → f.top + n ≤ limit → Q { f with limit := limit }) :
    Safe (checkstack grows n f) Q := by
  unfold checkstack
  by_cases hroom : f.top + n ≤ f.limit
  · rw [if_pos hroom, safe_ok]
    exact h f.limit (Nat.le_refl _) hroom
  · rw [if_neg hroom]
    cases grows with
    | true => exact h (f.top + n) (by omega) (Nat.le_refl _)
    | false => trivial

end

/-! ## The outside -/

abbrev Oid := Nat

def InvalidOid : Oid := 0

/-- An argument of a call. -/
inductive Arg
  | nil
  /-- a datum of a type: whether it is unexploded and of the type as it is now, and whether
  its type is to be looked at again -/
  | datum (type : Oid) (current revalidate : Bool)
  /-- another userdata -/
  | userdata
  | plain
deriving DecidableEq, Repr

/-- An entry of the table of types of `prepare`. -/
inductive ArgType
  /-- a string, and the type that `pllua_typeinfo_parsetype` finds -/
  | name (type : Option Oid)
  | typeinfo (type : Oid)
  /-- something else, with a metatable or without one -/
  | other (metatable : Bool)
  /-- reading it is an error -/
  | failing
deriving DecidableEq, Repr

/-- What the calls depend on besides their arguments. -/
structure Spi where
  /-- `pllua_ending` -/
  ending : Bool
  /-- there is an activation, not a `DO` block -/
  in_function : Bool
  /-- the stack of the thread can grow -/
  grows : Bool
  encoding_ok : Bool
  /-- the types of the parameters of a statement made for given types, or an error -/
  plan : List Oid → Option (List Oid)
  /-- `pllua_typeinfo_lookup` finds the type -/
  lookup : Oid → Bool
  /-- the call of a type on a value: an error, or the type of the datum if the result is one -/
  convert : Oid → Arg → Option (Option Oid)
  /-- the execution: an error, or whether there is a table of rows -/
  execute : Option Bool
  /-- the opening of the cursor -/
  opened : Bool

section
variable (spi : Spi)

/-- `pllua_spi_enter`, as far as it uses the stack. -/
def pllua_spi_enter : Step := scratch (if spi.in_function then 2 else 0)

/-- `pllua_newrefobject` and `pllua_newobject`, with a uservalue. -/
def newobject : Step := fun f => do
  let f ← push 1 f
  scratch 1 f

/-- `pllua_toanydatum`, which leaves the typeinfo on the stack if there is a datum. For another
userdata the longest way is taken. -/
def pllua_toanydatum (a : Arg) : Step := fun f =>
  match a with
  | .datum _ _ revalidate => do
    let f ← push 2 f
    let f ← scratch 2 f
    let f ← scratch 1 f
    scratch (if revalidate then 3 else 0) (pop 1 f)
  | .userdata => scratch 4 f
  | _ => .ok f

def Arg.is_datum : Arg → Bool
  | .datum _ _ _ => true
  | _ => false

/-- `pllua_spi_alloc_argspace` for a count above 99, else the arrays of the function: the size
of the arrays. -/
def argspace (nargs : Int) (arrays : Nat) (f : Frame) : Except (Halt Fault) (Nat × Frame) :=
  if nargs > 99 then do
    let f ← push arrays f
    .ok (nargs.toNat, f)
  else .ok (100, f)

/-- An error of PostgreSQL: `pllua_absorb_pg_error` pushes a function and its argument. -/
def pg_error {α : Type} (f : Frame) : Except (Halt Fault) α := do
  let _ ← scratch 2 f
  .error .error

/-- A loop over the places below `n`. -/
def each_place (size : Nat) : Nat → Step
  | 0 => .ok
  | n + 1 => fun f => do
    let f ← each_place size n f
    access size n f

/-- `pllua_spi_make_statement`: the known types are copied into an array of their own. -/
def pllua_spi_make_statement (size : Nat) (nargs_known : Int) (types : List Oid) (f : Frame) :
    Except (Halt Fault) (List Oid × Frame) := do
  let f ← each_place size nargs_known.toNat f
  let f ← each_place nargs_known.toNat nargs_known.toNat f
  match spi.plan types with
  | none => pg_error f
  | some param_types => .ok (param_types, f)

/-! ## prepare -/

/-- One turn of the loop over the table of types. -/
def read_argtype (size nargs : Nat) (t : ArgType) : Step := fun f =>
  match t with
  | .failing => .error .error
  | .name type => do
    let f ← push 1 f
    let f ← push 2 f
    let f ← call 1 1 f
    let f ← require (type.isSome = true) f
    let f ← scratch 2 (pop 1 f)
    access size nargs f
  | .typeinfo _ => do
    let f ← push 1 f
    let f ← scratch 2 f
    access size nargs f
  | .other metatable => do
    let f ← push 1 f
    let _ ← scratch (if metatable then 2 else 0) f
    .error .error

/-- The loop, to the nil that ends the table. -/
def read_argtypes (size : Nat) : Nat → List ArgType → Step
  | _, [] => push 1
  | nargs, t :: ts => fun f => do
    let f ← read_argtype size nargs t f
    read_argtypes size (nargs + 1) ts f

def ArgType.oid : ArgType → Option Oid
  | .name type => type
  | .typeinfo type => some type
  | _ => none

/-- The loop over the types of the parameters. -/
def read_params : List Oid → Step
  | [] => .ok
  | oid :: oids => fun f =>
    if oid ≠ InvalidOid then do
      let f ← push 2 f
      let f ← call 1 1 f
      let f ← require (spi.lookup oid = true) f
      let f ← scratch 2 f
      read_params oids (pop 1 f)
    else read_params oids f

/-- The arguments of `prepare`. -/
structure Prepare where
  /-- how many there are -/
  top : Nat
  /-- the options are read without an error, if they are given -/
  options : Option Bool
  /-- the entries before the first nil, if there is a table -/
  argtypes : Option (List ArgType)

/-- `pllua_cursor_options`, as far as it uses the stack. -/
def pllua_cursor_options (options : Option Bool) : Step := fun f =>
  match options with
  | none => .ok f
  | some ok => do
    let f ← require (ok = true) f
    scratch 1 f

/-- The table of types, if there is one. -/
def read_table (size : Nat) (argtypes : Option (List ArgType)) : Step :=
  match argtypes with
  | none => .ok
  | some ts => read_argtypes size 0 ts

/-- `pllua_spi_prepare`. The count is 0 where it is compared with 99. -/
def pllua_spi_prepare (p : Prepare) : Except (Halt Fault) Frame := do
  let f ← pllua_cursor_options p.options (enter p.top)
  let f ← require (spi.ending = false) f
  let nargs : Int := 0
  let (size, f) ← argspace nargs 1 f
  let f ← settop 2 f
  let f ← newobject f
  let f ← read_table size p.argtypes f
  let types := (p.argtypes.getD []).filterMap ArgType.oid
  let f ← pllua_spi_enter spi f
  let (param_types, f) ← pllua_spi_make_statement spi size types.length types f
  let f ← push 1 f
  let f ← read_params spi param_types f
  push 1 f

/-! ## execute and open -/

/-- The call of a type on a value, whose result must be a datum of the type. -/
def reconvert (argtype : Oid) (a : Arg) : Step := fun f => do
  let f ← push 2 f
  let f ← call 1 1 f
  let f ← call 1 1 f
  match spi.convert argtype a with
  | some (some type) => do
    let f ← pllua_toanydatum (.datum type true false) f
    require (type = argtype) f
  | _ => .error .error

/-- The value is called with the type, unless it is a datum of the type already. -/
def of_type (argtype : Oid) (a : Arg) : Step := fun f =>
  match a with
  | .datum type current _ =>
    if type = argtype ∧ current = true then .ok f else reconvert spi argtype a (pop 1 f)
  | _ => reconvert spi argtype a f

/-- A value for a parameter. The typeinfo is popped, and the datum goes into the table that
holds it. -/
def convert_value (argtype : Oid) (a : Arg) : Step := fun f =>
  if a = .nil ∨ argtype = InvalidOid then .ok f
  else do
    let f ← push 1 f
    let f ← pllua_toanydatum a f
    let f ← of_type spi argtype a f
    .ok (pop 1 (pop 1 f))

/-- One turn of the loop of `pllua_spi_convert_args`. -/
def convert_arg (values isnull : Nat) (argtype : Oid) (i : Nat) (a : Arg) : Step := fun f => do
  let f ← convert_value spi argtype a f
  let f ← access values i f
  access isnull i f

/-- `pllua_spi_convert_args`: its loop. -/
def convert_args (values isnull : Nat) (argtypes : List Oid) : Nat → List Arg → Step
  | _, [] => .ok
  | i, a :: as => fun f => do
    let f ← convert_arg spi values isnull (argtypes.getD i InvalidOid) i a f
    convert_args values isnull argtypes (i + 1) as f

/-- One turn of the loop that takes the types of the arguments that are datums. -/
def read_type (argtypes i : Nat) (a : Arg) : Step := fun f => do
  let f ← access argtypes i f
  let f ← pllua_toanydatum a f
  if a.is_datum then access argtypes i (pop 1 f) else .ok f

def read_types (argtypes : Nat) : Nat → List Arg → Step
  | _, [] => .ok
  | i, a :: as => fun f => do
    let f ← read_type argtypes i a f
    read_types argtypes (i + 1) as f

def Arg.oid : Arg → Oid
  | .datum type _ _ => type
  | _ => InvalidOid

/-- What a call gets after its first two arguments. -/
structure Given where
  /-- how many arguments there are in all -/
  top : Nat
  /-- the types of the parameters, where the statement is prepared -/
  statement : Option (List Oid)
  /-- the statement is given as text -/
  text : Bool
  args : List Arg
  args_eq : args.length = top - 2

def Given.nargs (g : Given) : Int := (g.top : Int) - 2

/-- The types of the arguments, where the statement is not prepared. -/
def known_types (g : Given) (argtypes : Nat) : Step :=
  if g.statement.isNone then read_types argtypes 0 g.args else .ok

/-- The types of the parameters, of the statement that there is or of one that is made. -/
def param_types_of (g : Given) (argtypes : Nat) (f : Frame) :
    Except (Halt Fault) (List Oid × Frame) :=
  match g.statement with
  | some param_types => .ok (param_types, f)
  | none => pllua_spi_make_statement spi argtypes g.nargs (g.args.map Arg.oid) f

/-- The part that is the same in both functions: the types of the arguments, the room for them,
and the call of `pllua_spi_convert_args`. -/
def pass_args (g : Given) (values isnull argtypes : Nat) (f : Frame) :
    Except (Halt Fault) Frame := do
  let f ← known_types g argtypes f
  let f ← checkstack spi.grows (40 + g.nargs).toNat f
  let f ← push 1 f
  let f ← pllua_spi_enter spi f
  let (param_types, f) ← param_types_of spi g argtypes f
  let f ← require ((param_types.length : Int) = g.nargs) f
  let f ← push 5 f
  let f ← push g.args.length f
  let _ ← convert_args spi values isnull param_types 0 g.args (enter (4 + g.args.length))
  let f := pop (5 + g.args.length) f
  let f ← each_place values g.args.length f
  each_place isnull g.args.length f

/-- `pllua_spi_execute_count`. -/
def pllua_spi_execute_count (count_ok : Bool) (g : Given) : Except (Halt Fault) Frame := do
  let f := enter g.top
  let f ← scratch (if g.statement.isSome then 2 else 0) f
  let f ← require (count_ok = true ∧ (g.text || g.statement.isSome) = true ∧
    spi.ending = false) f
  let (size, f) ← argspace g.nargs 3 f
  let f ← require (g.text = true → spi.encoding_ok = true) f
  let f ← pass_args spi g size size size f
  match spi.execute with
  | none => pg_error f
  | some false => push 1 f
  | some true => do
    let f ← push 3 f
    let f ← call 2 3 f
    let f ← scratch 1 f
    .ok (pop 1 f)

/-- `pllua_spi_cursor_open`. The first argument is the cursor. -/
def pllua_spi_cursor_open (cursor_ok : Bool) (g : Given) : Except (Halt Fault) Frame := do
  let f := enter g.top
  let f ← scratch 2 f
  let f ← scratch (if g.statement.isSome then 2 else 0) f
  let f ← require (cursor_ok = true ∧ (g.text || g.statement.isSome) = true ∧
    spi.ending = false) f
  let (size, f) ← argspace g.nargs 3 f
  let f ← require (g.text = true → spi.encoding_ok = true) f
  -- the uservalue stays
  let f ← push 1 f
  let f ← scratch 1 f
  let f ← pass_args spi g size size size f
  let f ← if spi.opened then .ok f else pg_error f
  let f ← scratch 2 f
  push 1 f

/-- `pllua_spi_execute`, which puts a nil after the first of its arguments. -/
def pllua_spi_execute (g : Given) : Except (Halt Fault) Frame := do
  let f := enter (g.top - 1)
  let f ← require (1 ≤ f.top) f
  let f ← push 1 f
  let f ← push 1 f
  let _ ← pllua_spi_execute_count spi true g
  settop 1 f

/-- `pllua_spi_stmt_getcursor`, which puts a new cursor before its arguments. -/
def pllua_spi_stmt_getcursor (g : Given) : Except (Halt Fault) Frame := do
  let f := enter (g.top - 1)
  let f ← newobject f
  let f ← push 1 f
  let _ ← pllua_spi_cursor_open spi true g
  settop 1 f

end

/-! ## execute and open are safe -/

section
variable {spi : Spi} {f : Frame} {Q : Frame → Prop}

theorem safe_pg_error {α : Type} {P : α → Prop} :
    Safe (pg_error f) P ↔ f.top + 2 ≤ f.limit := by
  unfold pg_error
  rw [safe_bind, safe_scratch, safe_error, and_true]

theorem safe_toanydatum (a : Arg) (hroom : f.top + 4 ≤ f.limit)
    (h : Q { f with top := f.top + if a.is_datum then 1 else 0 }) :
    Safe (pllua_toanydatum a f) Q := by
  unfold pllua_toanydatum
  cases a with
  | nil => exact h
  | plain => exact h
  | userdata => exact (safe_scratch 4 f Q).mpr ⟨hroom, h⟩
  | datum type current revalidate =>
    simp only [safe_bind, safe_push, safe_scratch, pop_top, pop_limit]
    refine ⟨by omega, by omega, by omega, ?_, h⟩
    split <;> omega

/-- Every place of a loop is in the array. -/
theorem safe_each_place {size n : Nat} (hn : n ≤ size) :
    Safe (each_place size n f) Q ↔ Q f := by
  induction n generalizing Q with
  | zero => exact Iff.rfl
  | succ n ih =>
    unfold each_place
    rw [safe_bind, ih (by omega), safe_access]
    exact and_iff_right (by omega)

theorem safe_read_types {argtypes : Nat} (as : List Arg) (i : Nat)
    (hsize : i + as.length ≤ argtypes) (hroom : f.top + 4 ≤ f.limit) (h : Q f) :
    Safe (read_types argtypes i as f) Q := by
  induction as generalizing i with
  | nil => exact h
  | cons a as ih =>
    rw [List.length_cons] at hsize
    have hrest := ih (i + 1) (by omega)
    unfold read_types read_type
    simp only [safe_bind, safe_access]
    refine ⟨by omega, safe_toanydatum a hroom ?_⟩
    cases ha : a.is_datum with
    | true =>
      simp only [if_true, safe_access]
      exact ⟨by omega, hrest⟩
    | false => exact hrest

theorem safe_reconvert (argtype : Oid) (a : Arg) (hroom : f.top + 4 ≤ f.limit) (htop : 1 ≤ f.top)
    (h : Q { f with top := f.top + 1 }) : Safe (reconvert spi argtype a f) Q := by
  unfold reconvert
  simp only [safe_bind, safe_push, safe_call]
  refine ⟨by omega, by omega, by omega, ?_⟩
  split
  · rw [safe_bind]
    refine safe_toanydatum _ (by dsimp only; omega) ?_
    rw [safe_require]
    intro _
    have htop' : f.top + 2 - (1 + 1) + 1 - (1 + 1) + 1 + 1 = f.top + 1 := by omega
    simp only [Arg.is_datum, if_true, htop']
    exact h
  · trivial

/-- A value is converted on five slots and leaves nothing on the stack. -/
theorem safe_convert_value (argtype : Oid) (a : Arg) (hroom : f.top + 5 ≤ f.limit) (h : Q f) :
    Safe (convert_value spi argtype a f) Q := by
  unfold convert_value
  rw [safe_ite]
  refine ⟨fun _ => h, fun hsome => ?_⟩
  simp only [safe_bind, safe_push]
  refine ⟨by omega, safe_toanydatum a (by dsimp only; omega) ?_⟩
  -- the value and its typeinfo are on the stack at the end
  refine Safe.mono (P := fun g => g = { f with top := f.top + 2 }) ?_ ?_
  · cases a with
    | nil => exact absurd (Or.inl rfl) hsome
    | plain => exact safe_reconvert argtype _ (by simp [Arg.is_datum]; omega) (by dsimp only; omega) rfl
    | userdata =>
      exact safe_reconvert argtype _ (by simp [Arg.is_datum]; omega) (by dsimp only; omega) rfl
    | datum type current revalidate =>
      unfold of_type
      rw [safe_ite]
      refine ⟨fun _ => rfl, fun _ => ?_⟩
      exact safe_reconvert argtype _ (by simp [Arg.is_datum]; omega) (by simp [Arg.is_datum]) rfl
  · rintro g rfl
    exact h

theorem safe_convert_arg {values isnull i : Nat} (argtype : Oid) (a : Arg) (hvalues : i < values)
    (hisnull : i < isnull) (hroom : f.top + 5 ≤ f.limit) (h : Q f) :
    Safe (convert_arg spi values isnull argtype i a f) Q := by
  unfold convert_arg
  rw [safe_bind]
  refine safe_convert_value argtype a hroom ?_
  simp only [safe_bind, safe_access]
  exact ⟨hvalues, hisnull, h⟩

theorem safe_convert_args {values isnull : Nat} (argtypes : List Oid) (as : List Arg) (i : Nat)
    (hvalues : i + as.length ≤ values) (hisnull : i + as.length ≤ isnull)
    (hroom : f.top + 5 ≤ f.limit) (h : Q f) :
    Safe (convert_args spi values isnull argtypes i as f) Q := by
  induction as generalizing i with
  | nil => exact h
  | cons a as ih =>
    rw [List.length_cons] at hvalues hisnull
    unfold convert_args
    rw [safe_bind]
    exact safe_convert_arg _ a (by omega) (by omega) hroom (ih (i + 1) (by omega) (by omega))

theorem safe_known_types (g : Given) {argtypes : Nat} (hsize : g.args.length ≤ argtypes)
    (hroom : f.top + 4 ≤ f.limit) (h : Q f) : Safe (known_types g argtypes f) Q := by
  unfold known_types
  split
  · exact safe_read_types g.args 0 (by omega) hroom h
  · exact h

theorem safe_param_types (g : Given) {argtypes : Nat} {P : List Oid × Frame → Prop}
    (hsize : g.args.length ≤ argtypes) (hroom : f.top + 2 ≤ f.limit)
    (h : ∀ param_types, P (param_types, f)) : Safe (param_types_of spi g argtypes f) P := by
  have hargs := g.args_eq
  unfold param_types_of
  split
  · exact h _
  · have hcount : g.nargs.toNat ≤ argtypes := by
      unfold Given.nargs
      omega
    unfold pllua_spi_make_statement
    simp only [safe_bind]
    rw [safe_each_place hcount, safe_each_place (Nat.le_refl _)]
    split
    · exact safe_pg_error.mpr hroom
    · exact h _

/-- The arguments are passed with arrays that have a place for each. One value more is on the
stack then. -/
theorem safe_pass_args (g : Given) {size : Nat} (hsize : g.args.length ≤ size)
    (hroom : f.top + 4 ≤ f.limit)
    (h : ∀ limit, f.top + 38 ≤ limit → Q { top := f.top + 1, limit := limit }) :
    Safe (pass_args spi g size size size f) Q := by
  have hargs := g.args_eq
  have hnargs : (40 + g.nargs).toNat = 38 + g.top := by
    unfold Given.nargs
    omega
  unfold pass_args
  simp only [safe_bind]
  refine safe_known_types g hsize hroom (safe_checkstack _ _ _ _ fun limit hlimit hgrown => ?_)
  rw [hnargs] at hgrown
  unfold pllua_spi_enter
  simp only [safe_push, safe_scratch]
  refine ⟨by omega, by split <;> omega, safe_param_types g hsize ?_ fun param_types => ?_⟩
  · dsimp only
    omega
  simp only [safe_require]
  intro hcount
  refine ⟨by omega, by omega, ?_⟩
  refine safe_convert_args _ _ 0 (by omega) (by omega) ?_ ?_
  · rw [enter_top, enter_limit]
    omega
  rw [safe_each_place hsize, safe_each_place hsize]
  have hpop : f.top + 1 + 5 + g.args.length - (5 + g.args.length) = f.top + 1 := by omega
  unfold pop
  dsimp only
  rw [hpop]
  exact h limit (by omega)

/-- The arrays of the function, or as many places as there are arguments. -/
theorem safe_argspace (g : Given) {P : Nat × Frame → Prop} (hroom : f.top + 3 ≤ f.limit)
    (h : ∀ size n, g.args.length ≤ size → n ≤ 3 → P (size, { f with top := f.top + n })) :
    Safe (argspace g.nargs 3 f) P := by
  have hargs := g.args_eq
  unfold argspace
  rw [safe_ite]
  refine ⟨fun hmany => ?_, fun hfew => ?_⟩
  · simp only [safe_bind, safe_push, safe_ok]
    refine ⟨hroom, h _ 3 ?_ (Nat.le_refl _)⟩
    unfold Given.nargs at *
    omega
  · rw [safe_ok]
    refine h 100 0 ?_ (by omega)
    unfold Given.nargs at *
    omega

theorem execute_count_safe (spi : Spi) (count_ok : Bool) (g : Given) :
    Safe (pllua_spi_execute_count spi count_ok g) fun _ => True := by
  unfold pllua_spi_execute_count
  simp only [safe_bind, safe_scratch, safe_require, enter_top, enter_limit]
  refine ⟨by split <;> omega, fun _ => ?_⟩
  refine safe_argspace g (by simp) fun size n hsize hn _ => ?_
  dsimp only [enter_top, enter_limit]
  refine safe_pass_args g hsize (by dsimp only; omega) fun limit hlimit => ?_
  dsimp only at hlimit
  split
  · exact safe_pg_error.mpr (by dsimp only; omega)
  · simp only [safe_push]
    exact ⟨by omega, trivial⟩
  · simp only [safe_bind, safe_push, safe_call, safe_scratch, safe_ok]
    exact ⟨by omega, by omega, by omega, trivial⟩

theorem cursor_open_safe (spi : Spi) (cursor_ok : Bool) (g : Given) :
    Safe (pllua_spi_cursor_open spi cursor_ok g) fun _ => True := by
  unfold pllua_spi_cursor_open
  simp only [safe_bind, safe_scratch, safe_require, enter_top, enter_limit]
  refine ⟨by omega, by split <;> omega, fun _ => ?_⟩
  refine safe_argspace g (by simp) fun size n hsize hn _ => ?_
  simp only [safe_push, enter_top, enter_limit]
  refine ⟨by omega, by omega, ?_⟩
  refine safe_pass_args g hsize (by dsimp only; omega) fun limit hlimit => ?_
  dsimp only at hlimit ⊢
  cases spi.opened with
  | true =>
    simp only [if_true, safe_bind, safe_ok, safe_scratch, safe_push]
    exact ⟨by omega, by omega, trivial⟩
  | false =>
    simp only [Bool.false_eq_true, if_false, safe_bind, safe_pg_error]
    omega

theorem execute_safe (spi : Spi) (g : Given) :
    Safe (pllua_spi_execute spi g) fun _ => True := by
  unfold pllua_spi_execute
  simp only [safe_bind, safe_require, safe_push, safe_settop]
  simp only [enter_top, enter_limit]
  refine fun _ => ⟨by omega, by omega, ?_⟩
  exact (execute_count_safe spi true g).mono fun _ _ => ⟨by omega, trivial⟩

theorem getcursor_safe (spi : Spi) (g : Given) :
    Safe (pllua_spi_stmt_getcursor spi g) fun _ => True := by
  unfold pllua_spi_stmt_getcursor newobject
  simp only [safe_bind, safe_scratch, safe_push, safe_settop, enter_top, enter_limit]
  refine ⟨by omega, by omega, by omega, ?_⟩
  exact (cursor_open_safe spi true g).mono fun _ _ => ⟨by omega, trivial⟩

end

/-! ## prepare -/

/-- The entry is a type, and stays on the stack. -/
def ArgType.known (t : ArgType) : Bool := t.oid.isSome

/-- The slots for an entry that is no type. -/
def ArgType.slots : ArgType → Nat
  | .name _ => 3
  | .typeinfo _ => 3
  | .other metatable => if metatable then 3 else 1
  | .failing => 0

/-- The types before the end of the table or the first entry that is none. -/
def counted (ts : List ArgType) : Nat := (ts.takeWhile ArgType.known).length

/-- The first entry that is no type. -/
def stopped (ts : List ArgType) : Option ArgType := (ts.dropWhile ArgType.known).head?

section
variable {spi : Spi} {f : Frame} {Q : Frame → Prop}

theorem safe_known_argtype {size nargs : Nat} {t : ArgType} (ht : t.known = true) :
    Safe (read_argtype size nargs t f) Q ↔
      f.top + 3 ≤ f.limit ∧ nargs < size ∧ Q { f with top := f.top + 1 } := by
  cases t with
  | failing => cases ht
  | other metatable => cases ht
  | typeinfo type =>
    simp only [read_argtype, safe_bind, safe_push, safe_scratch, safe_access]
    constructor
    · rintro ⟨-, h3, hsize, hQ⟩
      exact ⟨by omega, hsize, hQ⟩
    · rintro ⟨h3, hsize, hQ⟩
      exact ⟨by omega, by omega, hsize, hQ⟩
  | name type =>
    have htype : type.isSome = true := ht
    have htop : f.top + 1 + 2 - (1 + 1) + 1 - 1 = f.top + 1 := by omega
    simp only [read_argtype, safe_bind, safe_push, safe_call, safe_require, safe_scratch,
      safe_access, htype, forall_const, pop, htop]
    constructor
    · rintro ⟨-, h3, -, -, hsize, hQ⟩
      exact ⟨by omega, hsize, hQ⟩
    · rintro ⟨h3, hsize, hQ⟩
      exact ⟨by omega, by omega, by omega, by omega, hsize, hQ⟩

theorem safe_unknown_argtype {size nargs : Nat} {t : ArgType} (ht : t.known = false)
    (hroom : f.top ≤ f.limit) :
    Safe (read_argtype size nargs t f) Q ↔ f.top + t.slots ≤ f.limit := by
  cases t with
  | typeinfo type => cases ht
  | failing => exact iff_of_true trivial hroom
  | other metatable =>
    simp only [read_argtype, safe_bind, safe_push, safe_scratch, safe_error, ArgType.slots]
    cases metatable <;> simp only [if_true, Bool.false_eq_true, if_false, and_true] <;> omega
  | name type =>
    have htype : type = none := Option.not_isSome_iff_eq_none.mp (by rw [Bool.not_eq_true]; exact ht)
    simp only [read_argtype, safe_bind, safe_push, safe_call, safe_require, htype, ArgType.slots,
      Option.isSome_none, Bool.false_eq_true, false_implies, and_true]
    omega

theorem counted_cons {t : ArgType} (ht : t.known = true) (ts : List ArgType) :
    counted (t :: ts) = counted ts + 1 := by
  unfold counted
  rw [List.takeWhile_cons_of_pos ht, List.length_cons]

theorem counted_stop {t : ArgType} (ht : t.known = false) (ts : List ArgType) :
    counted (t :: ts) = 0 := by
  unfold counted
  rw [List.takeWhile_cons_of_neg (by rw [ht]; exact Bool.false_ne_true), List.length_nil]

theorem stopped_cons {t : ArgType} (ht : t.known = true) (ts : List ArgType) :
    stopped (t :: ts) = stopped ts := by
  unfold stopped
  rw [List.dropWhile_cons_of_pos ht]

theorem stopped_stop {t : ArgType} (ht : t.known = false) (ts : List ArgType) :
    stopped (t :: ts) = some t := by
  unfold stopped
  rw [List.dropWhile_cons_of_neg (by rw [ht]; exact Bool.false_ne_true), List.head?_cons]

/-- The loop over the types: a place of the array and a slot for each, two slots beside the last
one, and those for what ends the loop. -/
theorem safe_read_argtypes {size : Nat} (ts : List ArgType) (nargs : Nat) (hnargs : nargs ≤ size)
    (hroom : f.top ≤ f.limit) :
    Safe (read_argtypes size nargs ts f) Q ↔
      nargs + counted ts ≤ size ∧ (0 < counted ts → f.top + counted ts + 2 ≤ f.limit) ∧
        match stopped ts with
        | some t => f.top + counted ts + t.slots ≤ f.limit
        | none => f.top + counted ts + 1 ≤ f.limit ∧
            Q { f with top := f.top + counted ts + 1 } := by
  induction ts generalizing nargs f with
  | nil =>
    simp only [read_argtypes, safe_push, counted, stopped, List.takeWhile_nil, List.dropWhile_nil,
      List.length_nil, List.head?_nil, Nat.add_zero]
    exact ⟨fun h => ⟨hnargs, fun h0 => absurd h0 (Nat.lt_irrefl 0), h⟩, fun h => h.2.2⟩
  | cons t ts ih =>
    unfold read_argtypes
    rw [safe_bind]
    cases ht : t.known with
    | false =>
      rw [safe_unknown_argtype ht hroom, counted_stop ht, stopped_stop ht]
      exact ⟨fun h => ⟨hnargs, fun h0 => absurd h0 (Nat.lt_irrefl 0), h⟩, fun h => h.2.2⟩
    | true =>
      rw [safe_known_argtype ht, counted_cons ht, stopped_cons ht]
      have hcount : f.top + 1 + counted ts = f.top + (counted ts + 1) := by omega
      constructor
      · rintro ⟨h3, hsize, hrest⟩
        obtain ⟨hfit, htwo, hend⟩ := (ih (nargs + 1) (by omega) (by dsimp only; omega)).mp hrest
        dsimp only at htwo hend
        rw [hcount] at htwo hend
        refine ⟨by omega, fun _ => ?_, hend⟩
        rcases Nat.eq_zero_or_pos (counted ts) with h0 | h0
        · omega
        · exact htwo h0
      · rintro ⟨hfit, htwo, hend⟩
        have h3 := htwo (Nat.succ_pos _)
        refine ⟨by omega, by omega, (ih (nargs + 1) (by omega) (by dsimp only; omega)).mpr ?_⟩
        dsimp only
        rw [hcount]
        exact ⟨by omega, fun _ => h3, hend⟩

/-- The slots for the types of the parameters: a type that is found is looked at on the
stack. -/
def param_slots (spi : Spi) (param_types : List Oid) : Nat :=
  match param_types.find? fun oid => oid ≠ InvalidOid with
  | none => 0
  | some oid => if spi.lookup oid then 3 else 2

theorem safe_read_params (oids : List Oid) (hroom : f.top ≤ f.limit) :
    Safe (read_params spi oids f) Q ↔ f.top + param_slots spi oids ≤ f.limit ∧
      ((∀ oid ∈ oids, oid ≠ InvalidOid → spi.lookup oid = true) → Q f) := by
  induction oids with
  | nil =>
    simp only [read_params, safe_ok, param_slots, List.find?_nil, List.not_mem_nil, false_implies,
      implies_true, true_implies]
    exact ⟨fun h => ⟨hroom, h⟩, fun h => h.2⟩
  | cons oid oids ih =>
    unfold read_params
    by_cases hvalid : oid ≠ InvalidOid
    · have hslots : param_slots spi (oid :: oids) = if spi.lookup oid then 3 else 2 := by
        unfold param_slots
        rw [List.find?_cons_of_pos (by simpa using hvalid)]
      have hpop : pop 1 { f with top := f.top + 2 - (1 + 1) + 1 } = f := by
        unfold pop
        simp
      rw [if_pos hvalid, hslots]
      simp only [safe_bind, safe_push, safe_call, safe_require, safe_scratch, hpop]
      cases hfound : spi.lookup oid with
      | false =>
        simp only [Bool.false_eq_true, if_false, false_implies, and_true]
        refine ⟨fun h => ⟨h.1, fun hall => ?_⟩, fun h => ⟨h.1, by omega⟩⟩
        have hno := hall oid List.mem_cons_self hvalid
        rw [hfound] at hno
        cases hno
      | true =>
        simp only [if_true, forall_const]
        constructor
        · rintro ⟨-, -, h3, hrest⟩
          refine ⟨by omega, fun hall => (ih.mp hrest).2 fun o ho => ?_⟩
          exact hall o (List.mem_cons_of_mem _ ho)
        · rintro ⟨h3, hQ⟩
          refine ⟨by omega, by omega, by omega, ih.mpr ⟨?_, fun hall => hQ ?_⟩⟩
          · unfold param_slots
            split
            · omega
            · split <;> omega
          · intro o ho
            rcases List.mem_cons.mp ho with ho | ho
            · rw [ho]
              exact fun _ => hfound
            · exact hall o ho
    · have hslots : param_slots spi (oid :: oids) = param_slots spi oids := by
        unfold param_slots
        rw [List.find?_cons_of_neg (by simpa using hvalid)]
      rw [if_neg hvalid, hslots, ih]
      refine and_congr_right fun _ => ⟨fun h hall => h ?_, fun h hall => h ?_⟩
      · exact fun o ho => hall o (List.mem_cons_of_mem _ ho)
      · intro o ho
        rcases List.mem_cons.mp ho with ho | ho
        · rw [ho]
          exact fun hv => absurd hv hvalid
        · exact hall o ho

/-- The slots for what follows the table of types. -/
def end_slots (spi : Spi) (types : List Oid) : Nat :=
  match spi.plan types with
  | none => 2
  | some param_types => max 2 (1 + param_slots spi param_types)

/-- The slots above the types: two beside the last type, and those for the entry that is none, or
for the nil and what follows it. -/
def slots_above (spi : Spi) (ts : List ArgType) : Nat :=
  match stopped ts with
  | some t => max 2 t.slots
  | none => max 2 (1 + end_slots spi (ts.filterMap ArgType.oid))

/-- The options are read without an error, and SPI can be called. -/
def Prepare.starts (p : Prepare) (spi : Spi) : Prop :=
  p.options ≠ some false ∧ spi.ending = false

/-- The types up to the end of the table, or up to the first entry that is none, are at most 100,
and they fit on the stack with the plan object, the other two values and the slots above. -/
def Fits (spi : Spi) (p : Prepare) : Prop :=
  p.starts spi → ∀ ts, p.argtypes = some ts →
    counted ts ≤ 100 ∧ 3 + counted ts + slots_above spi ts ≤ p.top + LUA_MINSTACK

theorem types_length {ts : List ArgType} (h : stopped ts = none) :
    (ts.filterMap ArgType.oid).length = counted ts := by
  induction ts with
  | nil => rfl
  | cons t ts ih =>
    cases ht : t.known with
    | false =>
      rw [stopped_stop ht] at h
      cases h
    | true =>
      rw [stopped_cons ht] at h
      obtain ⟨oid, hoid⟩ := Option.isSome_iff_exists.mp ht
      rw [List.filterMap_cons_some hoid, List.length_cons, ih h, counted_cons ht]

theorem safe_make_statement {types : List Oid} {size : Nat} {P : List Oid × Frame → Prop}
    (hsize : types.length ≤ size) :
    Safe (pllua_spi_make_statement spi size types.length types f) P ↔
      (spi.plan types = none → f.top + 2 ≤ f.limit) ∧
        ∀ param_types, spi.plan types = some param_types → P (param_types, f) := by
  have hcount : (types.length : Int).toNat = types.length := Int.toNat_natCast _
  unfold pllua_spi_make_statement
  rw [hcount, safe_bind, safe_each_place hsize, safe_bind, safe_each_place (Nat.le_refl _)]
  cases spi.plan types with
  | none => simp [safe_pg_error]
  | some param_types => simp

theorem param_slots_le (spi : Spi) (oids : List Oid) : param_slots spi oids ≤ 3 := by
  unfold param_slots
  split
  · omega
  · split <;> omega

theorem no_param_slots {oids : List Oid} (h : param_slots spi oids = 0) :
    ∀ oid ∈ oids, oid ≠ InvalidOid → spi.lookup oid = true := by
  intro oid hoid hvalid
  unfold param_slots at h
  split at h
  case h_1 hnone => exact absurd hvalid (by simpa using List.find?_eq_none.mp hnone oid hoid)
  case h_2 => split at h <;> omega

theorem end_slots_le (spi : Spi) (types : List Oid) : end_slots spi types ≤ 4 := by
  unfold end_slots
  split
  · omega
  · have hparam := param_slots_le spi
    rename_i param_types _
    have h3 := hparam param_types
    omega

/-- What follows the table of types. -/
theorem safe_statement {types : List Oid} {size : Nat} (hsize : types.length ≤ size)
    (hroom : f.top ≤ f.limit) :
    (Safe (pllua_spi_enter spi f) fun f =>
      Safe (pllua_spi_make_statement spi size types.length types f) fun r =>
        Safe (push 1 r.2) fun f => Safe (read_params spi r.1 f) fun f =>
          Safe (push 1 f) fun _ => True) ↔ f.top + end_slots spi types ≤ f.limit := by
  unfold pllua_spi_enter end_slots
  rw [safe_scratch, safe_make_statement hsize]
  cases spi.plan types with
  | none =>
    simp only [reduceCtorEq, false_implies, implies_true, and_true, forall_const]
    exact ⟨fun h => h.2, fun h => ⟨by split <;> omega, h⟩⟩
  | some param_types =>
    simp only [reduceCtorEq, false_implies, true_and, Option.some.injEq, forall_eq', safe_push,
      and_true]
    constructor
    · rintro ⟨-, h1, hparams⟩
      obtain ⟨hslots, hend⟩ := (safe_read_params param_types h1).mp hparams
      dsimp only at hslots hend
      have h2 : f.top + 1 + 1 ≤ f.limit := by
        rcases Nat.eq_zero_or_pos (param_slots spi param_types) with h0 | h0
        · exact hend (no_param_slots h0)
        · omega
      omega
    · intro hfit
      have hmax := Nat.le_max_left 2 (1 + param_slots spi param_types)
      have hmax' := Nat.le_max_right 2 (1 + param_slots spi param_types)
      refine ⟨by split <;> omega, by omega, (safe_read_params param_types ?_).mpr ⟨?_, fun _ => ?_⟩⟩
      · dsimp only
        omega
      · dsimp only
        omega
      · dsimp only
        omega

theorem safe_newobject :
    Safe (newobject f) Q ↔ f.top + 2 ≤ f.limit ∧ Q { f with top := f.top + 1 } := by
  unfold newobject
  simp only [safe_bind, safe_push, safe_scratch]
  exact ⟨fun h => ⟨h.2.1, h.2.2⟩, fun h => ⟨by omega, h⟩⟩

/-- `prepare` is safe exactly where the types fit. -/
theorem prepare_safe_iff (spi : Spi) (p : Prepare) :
    Safe (pllua_spi_prepare spi p) (fun _ => True) ↔ Fits spi p := by
  have hoptions : ∀ {P : Frame → Prop}, Safe (pllua_cursor_options p.options (enter p.top)) P ↔
      (p.options ≠ some false → P (enter p.top)) := by
    intro P
    unfold pllua_cursor_options
    cases p.options with
    | none => simp
    | some ok =>
      simp only [safe_bind, safe_require, safe_scratch, enter_top, enter_limit]
      cases ok <;> simp
  have hnone : ¬ (0 : Int) > 99 := by decide
  unfold pllua_spi_prepare Fits Prepare.starts argspace
  simp only [safe_bind, hoptions, safe_require, if_neg hnone, safe_ok, safe_settop, safe_newobject,
    enter_limit, and_imp]
  refine forall_congr' fun _ => forall_congr' fun _ => ?_
  -- the plan object and the two values fit on any stack
  rw [and_iff_right (by omega : 2 ≤ p.top + 20), and_iff_right (by omega : 2 + 2 ≤ p.top + 20)]
  cases hargtypes : p.argtypes with
  | none =>
    refine iff_of_true ?_ fun ts hts => (by cases hts)
    have hlength : ([] : List Oid).length ≤ 100 := Nat.zero_le _
    have h4 := end_slots_le spi []
    rw [read_table, safe_ok]
    refine (safe_statement hlength ?_).mpr ?_
    · dsimp only
      omega
    · dsimp only
      omega
  | some ts =>
    simp only [Option.some.injEq, forall_eq', Option.getD_some]
    unfold read_table slots_above LUA_MINSTACK
    rw [safe_read_argtypes ts 0 (Nat.zero_le _) (by dsimp only; omega)]
    dsimp only
    cases hstopped : stopped ts with
    | some t =>
      dsimp only
      constructor
      · rintro ⟨hplaces, htwo, hslots⟩
        refine ⟨by omega, ?_⟩
        rcases Nat.eq_zero_or_pos (counted ts) with h0 | h0
        · omega
        · have h2 := htwo h0
          omega
      · rintro ⟨hplaces, hslots⟩
        exact ⟨by omega, fun _ => by omega, by omega⟩
    | none =>
      have hlength := types_length hstopped
      dsimp only
      constructor
      · rintro ⟨hplaces, htwo, hnil, hrest⟩
        have htypes : (ts.filterMap ArgType.oid).length ≤ 100 := by omega
        have hend := (safe_statement htypes hnil).mp hrest
        dsimp only at hend
        refine ⟨by omega, ?_⟩
        rcases Nat.eq_zero_or_pos (counted ts) with h0 | h0
        · omega
        · have h2 := htwo h0
          omega
      · rintro ⟨hplaces, hslots⟩
        have htypes : (ts.filterMap ArgType.oid).length ≤ 100 := by omega
        refine ⟨by omega, fun _ => by omega, by omega, (safe_statement htypes ?_).mpr ?_⟩
        · dsimp only
          omega
        · dsimp only
          omega

end

/-! ## All calls -/

inductive Call
  | prepare (p : Prepare)
  | execute (g : Given)
  | execute_count (count_ok : Bool) (g : Given)
  | cursor_open (cursor_ok : Bool) (g : Given)
  | getcursor (g : Given)

def run (spi : Spi) : Call → Except (Halt Fault) Frame
  | .prepare p => pllua_spi_prepare spi p
  | .execute g => pllua_spi_execute spi g
  | .execute_count count_ok g => pllua_spi_execute_count spi count_ok g
  | .cursor_open cursor_ok g => pllua_spi_cursor_open spi cursor_ok g
  | .getcursor g => pllua_spi_stmt_getcursor spi g

/-- The types of a call of `prepare` fit. -/
def Call.fits (spi : Spi) : Call → Prop
  | .prepare p => Fits spi p
  | _ => True

/-- A call never leaves its arrays or its slots exactly where it is not one of `prepare`, or its
types fit. -/
theorem arrays_kept_iff (spi : Spi) (c : Call) :
    Safe (run spi c) (fun _ => True) ↔ c.fits spi := by
  cases c with
  | prepare p => exact prepare_safe_iff spi p
  | execute g => exact iff_of_true (execute_safe spi g) trivial
  | execute_count count_ok g => exact iff_of_true (execute_count_safe spi count_ok g) trivial
  | cursor_open cursor_ok g => exact iff_of_true (cursor_open_safe spi cursor_ok g) trivial
  | getcursor g => exact iff_of_true (getcursor_safe spi g) trivial

/-- A database where each statement has the parameters that were given. -/
def plain_spi : Spi where
  ending := false
  in_function := true
  grows := true
  encoding_ok := true
  plan := some
  lookup := fun _ => true
  convert := fun type _ => some (some type)
  execute := some true
  opened := true

/-- So many times the type `int4`, among so many arguments. -/
def many_types (top n : Nat) : Prepare := ⟨top, none, some (List.replicate n (.typeinfo 23))⟩

/-- Fifteen types are too many for the stack of a call with two arguments, and with more
arguments the type 101 is written behind the array. -/
theorem prepare_leaves_arrays :
    (¬ Safe (run plain_spi (.prepare (many_types 2 15))) fun _ => True) ∧
      faulted (run plain_spi (.prepare (many_types 2 15))) = some .overflow ∧
      faulted (run plain_spi (.prepare (many_types 100 101))) = some .overrun := by
  have hoverflow : faulted (run plain_spi (.prepare (many_types 2 15))) = some .overflow := by
    decide +kernel
  exact ⟨not_safe_of_faulted hoverflow, hoverflow, by decide +kernel⟩

end pllua.spi_arguments
