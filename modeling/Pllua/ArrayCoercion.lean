-- Casts from one array type to another (datum.c). The converter is made once and
-- kept. It has a place for the cast function of the elements and one for their
-- typmod function, and fills them in when it is used first.
import Pllua.Runs

open pllua.runs

namespace pllua.coercion

/-! ## The database -/

abbrev Oid := Nat

def InvalidOid : Oid := 0

def OidIsValid (oid : Oid) : Bool := oid ≠ InvalidOid

/-- `CoercionPathType`, as far as elements have one. -/
inductive CoercionPathType
  | RELABELTYPE | FUNC | COERCEVIAIO
deriving DecidableEq, Repr

open CoercionPathType

/-- The functions of the database: `V` are the values. -/
structure Db (V E : Type) where
  strict : Oid → Bool
  /-- the function on a value, a typmod and whether the cast is explicit -/
  call : Oid → Option V → Int → Bool → Except E (Option V)
  /-- the output function of the source elements and the input function of the others -/
  output : V → Except E String
  input : String → Int → Except E V

/-- `FmgrInfo`. -/
structure FmgrInfo where
  fn_oid : Oid
  fn_strict : Bool
deriving DecidableEq, Repr

/-- A record as it is allocated. -/
def blank : FmgrInfo := ⟨InvalidOid, false⟩

/-- Why a use does not come to its end. -/
inductive Stop (E : Type)
  | error (e : E)
  /-- a record was read that does not exist, or one that was not filled in was called -/
  | fault
deriving DecidableEq, Repr

/-- An array with its dimensions, the lower bounds and the elements in row-major order. -/
structure Arr (V : Type) where
  dims : List Nat
  lbounds : List Int
  elems : List (Option V)
deriving DecidableEq, Repr

/-! ## The converter -/

/-- The closure: the path, the functions, and the two places. -/
structure Converter where
  elempath : CoercionPathType
  fnoid : Oid
  fnoid2 : Oid
  typmod : Int
  fn : Option FmgrInfo
  fn2 : Option FmgrInfo
deriving DecidableEq, Repr

/-- What `find_coercion_pathway` and the catalog say about the elements. -/
structure Cast where
  elempathtype : CoercionPathType
  funcid : Oid
  nargs : Nat
  basetypmod : Int
  typmod_funcid : Oid
  /-- a function comes with the path that needs one -/
  func : OidIsValid funcid = true ↔ elempathtype = FUNC

/-- `pllua_typeconv_create` for a cast of arrays, and what `pllua_typeconv_array_coerce` takes
from its upvalues. -/
def pllua_typeconv_create (i : Cast) : Converter :=
  have typmod_arg := OidIsValid i.funcid && i.nargs > 1
  have upvalue3 := match i.elempathtype with
    | RELABELTYPE => none
    | FUNC => some i.funcid
    | COERCEVIAIO => some InvalidOid
  have upvalue5 := !typmod_arg && 0 ≤ i.basetypmod
  { elempath := match upvalue3 with
      | none => RELABELTYPE
      | some oid => if OidIsValid oid then FUNC else COERCEVIAIO
    fnoid := upvalue3.getD InvalidOid
    fnoid2 := if upvalue5 then i.typmod_funcid else InvalidOid
    typmod := i.basetypmod
    fn := none
    fn2 := none }

/-- There is a typmod function of its own. -/
def Converter.separate_typmod (c : Converter) : Bool :=
  decide (0 ≤ c.typmod) && OidIsValid c.fnoid2

variable {V E : Type}

/-- A use of the converter. -/
structure Use (V E : Type) where
  value : Option (Arr V)
  /-- the error of `pllua_pgfunc_init` for each function, if it is called now -/
  init_error : Option E
  init_error2 : Option E

/-- There is something in the place, and it is filled in. -/
def ready (p : Option FmgrInfo) : Bool :=
  match p with
  | some fn => OidIsValid fn.fn_oid
  | none => false

section
variable (db : Db V E)

/-- `pllua_pgfunc_init`: what is in the place, and the error. A record stays there empty when
the function cannot be looked up. -/
def pllua_pgfunc_init (fnoid : Oid) (e : Option E) : FmgrInfo × Option E :=
  match e with
  | none => (⟨fnoid, db.strict fnoid⟩, none)
  | some e => (blank, some e)

/-- A call through a record. -/
def FunctionCallInvoke (fn : FmgrInfo) (v : Option V) (typmod : Int) :
    Except (Stop E) (Option V) :=
  if OidIsValid fn.fn_oid then
    match db.call fn.fn_oid v typmod false with
    | .ok v => .ok v
    | .error e => .error (.error e)
  else .error .fault

def via_io (v : Option V) (typmod : Int) : Except (Stop E) (Option V) :=
  match v with
  | none => .ok none
  | some v =>
    match db.output v with
    | .error e => .error (.error e)
    | .ok str =>
      match db.input str typmod with
      | .error e => .error (.error e)
      | .ok v => .ok (some v)

/-- The call is made unless the value is null and the function is strict. -/
def strict_call (fn : Option FmgrInfo) (v : Option V) (typmod : Int) :
    Except (Stop E) (Option V) :=
  match fn with
  | none => .error .fault
  | some fn => if v.isSome || !fn.fn_strict then FunctionCallInvoke db fn v typmod else .ok none

/-- The part of the loop for the path `RELABELTYPE`, to which `FUNC` falls through. -/
def typmod_coerce (separate_typmod : Bool) (fn2 : Option FmgrInfo) (v : Option V) (typmod : Int) :
    Except (Stop E) (Option V) :=
  if separate_typmod then
    match fn2 with
    | none => .error .fault
    | some fn2 => if v.isSome || !fn2.fn_strict then FunctionCallInvoke db fn2 v typmod else .ok v
  else .ok v

/-- One turn of the loop. -/
def coerce_element (elempath : CoercionPathType) (fn fn2 : Option FmgrInfo)
    (separate_typmod : Bool) (typmod : Int) (v : Option V) : Except (Stop E) (Option V) :=
  match elempath with
  | COERCEVIAIO => via_io db v typmod
  | RELABELTYPE => typmod_coerce db separate_typmod fn2 v typmod
  | FUNC =>
    match strict_call db fn v (if separate_typmod then -1 else typmod) with
    | .error e => .error e
    | .ok v => typmod_coerce db separate_typmod fn2 v typmod

/-- The loop. -/
def coerce_elements (f : Option V → Except (Stop E) (Option V)) :
    List (Option V) → Except (Stop E) (List (Option V))
  | [] => .ok []
  | v :: vs =>
    match f v with
    | .error e => .error e
    | .ok w =>
      match coerce_elements f vs with
      | .error e => .error e
      | .ok ws => .ok (w :: ws)

/-- `pllua_typeinfo_raw_coerce_array` on an array, once both records are looked at. -/
def coerce_array (c : Converter) (fn fn2 : Option FmgrInfo) (arr : Arr V) :
    Except (Stop E) (Option (Arr V)) :=
  match coerce_elements (coerce_element db c.elempath fn fn2 c.separate_typmod c.typmod)
    arr.elems with
  | .error e => .error e
  | .ok elems => .ok (some { arr with elems := elems })

/-- `pllua_typeinfo_raw_coerce_array`. The test for the second function looks at the first
record when the second one exists. -/
def pllua_typeinfo_raw_coerce_array (c : Converter) (u : Use V E) :
    Except (Stop E) (Option (Arr V)) × Converter :=
  match u.value with
  | none => (.ok none, c)
  | some arr =>
    have fn := if c.elempath = FUNC then c.fn else none
    have fn2 := if c.separate_typmod then c.fn2 else none
    if OidIsValid c.fnoid && !ready fn then
      have init := pllua_pgfunc_init db c.fnoid u.init_error
      have c := { c with fn := some init.1 }
      match init.2 with
      | some e => (.error (.error e), c)
      | none => second_function c u arr (some init.1) fn2
    else second_function c u arr fn fn2
where
  /-- The test for the second function, and the loop. -/
  second_function (c : Converter) (u : Use V E) (arr : Arr V) (fn fn2 : Option FmgrInfo) :
      Except (Stop E) (Option (Arr V)) × Converter :=
    match OidIsValid c.fnoid2, fn2, fn with
    | false, _, _ => (coerce_array db c fn fn2 arr, c)
    | true, some _, none => (.error .fault, c)
    | true, some fn2, some fn' =>
      if OidIsValid fn'.fn_oid then (coerce_array db c fn (some fn2) arr, c)
      else init_second c u arr fn
    | true, none, _ => init_second c u arr fn
  init_second (c : Converter) (u : Use V E) (arr : Arr V) (fn : Option FmgrInfo) :
      Except (Stop E) (Option (Arr V)) × Converter :=
    have init := pllua_pgfunc_init db c.fnoid2 u.init_error2
    have c := { c with fn2 := some init.1 }
    match init.2 with
    | some e => (.error (.error e), c)
    | none => (coerce_array db c fn (some init.1) arr, c)

end

/-! ## The scalar coercion -/

section
variable (db : Db V E)

/-- `pllua_typeinfo_raw_coerce`. -/
def pllua_typeinfo_raw_coerce (fnoid : Oid) (v : Option V) (typmod : Int) : Except E (Option V) :=
  if v.isNone && db.strict fnoid then .ok v else db.call fnoid v typmod false

/-- A value by itself, as `pllua_typeconv_scalar_coerce_func` and
`pllua_typeconv_scalar_coerce_via_io` cast it. -/
def scalar_coerce (c : Converter) (v : Option V) : Except E (Option V) :=
  match c.elempath, v with
  | COERCEVIAIO, none => .ok none
  | COERCEVIAIO, some v => do
    let str ← db.output v
    let w ← db.input str c.typmod
    .ok (some w)
  | _, v => do
    let w ← if OidIsValid c.fnoid then
        pllua_typeinfo_raw_coerce db c.fnoid v (if c.separate_typmod then -1 else c.typmod)
      else .ok v
    if c.separate_typmod then pllua_typeinfo_raw_coerce db c.fnoid2 w c.typmod else .ok w

/-- The array of the scalar coercions. -/
def expected (c : Converter) (arr : Arr V) : Except (Stop E) (Option (Arr V)) :=
  match arr.elems.mapM (scalar_coerce db c) with
  | .ok elems => .ok (some { arr with elems := elems })
  | .error e => .error (.error e)

/-- A use tries to look a function up, and cannot. -/
def InitFails (c : Converter) (u : Use V E) (e : E) : Prop :=
  (c.elempath = FUNC ∧ ready c.fn = false ∧ u.init_error = some e) ∨
    (OidIsValid c.fnoid2 = true ∧ c.fn2 = none ∧ u.init_error2 = some e)

/-- A use gives the array of the scalar coercions, and null for null, unless a function cannot
be looked up. It never reads a record that does not exist or calls one that was not filled in. -/
def Meets (c : Converter) (u : Use V E) : Prop :=
  match u.value with
  | none => (pllua_typeinfo_raw_coerce_array db c u).1 = .ok none
  | some arr => (pllua_typeinfo_raw_coerce_array db c u).1 = expected db c arr ∨
      ∃ e, InitFails c u e ∧ (pllua_typeinfo_raw_coerce_array db c u).1 = .error (.error e)

/-- No element gets as far as the typmod function: the cast function cannot be looked up, or
there is no element, or the cast of the first one fails. -/
def Idle (c : Converter) (u : Use V E) (arr : Arr V) : Prop :=
  (ready c.fn = false ∧ u.init_error.isSome) ∨
    ∀ v, arr.elems.head? = some v → ∃ e, pllua_typeinfo_raw_coerce db c.fnoid v (-1) = .error e

/-- Where there is a typmod function of its own, nothing is in its place yet, or the path has a
cast function, and the record in the place is filled in or not needed. -/
def Sound (c : Converter) (u : Use V E) : Prop :=
  ∀ arr fn2, u.value = some arr → OidIsValid c.fnoid2 = true → c.fn2 = some fn2 →
    c.elempath = FUNC ∧ (OidIsValid fn2.fn_oid = true ∨ Idle db c u arr)

def step (c : Converter) (u : Use V E) : Converter := (pllua_typeinfo_raw_coerce_array db c u).2

/-- The record of a function. -/
def filled (fnoid : Oid) : FmgrInfo := ⟨fnoid, db.strict fnoid⟩

/-- The law of a converter: a record in a place is the one of its function, or blank. -/
structure Kept (c : Converter) : Prop where
  func : OidIsValid c.fnoid = true ↔ c.elempath = FUNC
  typmod : OidIsValid c.fnoid2 = true → 0 ≤ c.typmod
  fn : ∀ fn, c.fn = some fn → fn = filled db c.fnoid ∨ fn = blank
  fn2 : ∀ fn, c.fn2 = some fn → fn = filled db c.fnoid2 ∨ fn = blank

theorem kept_create (i : Cast) : Kept db (pllua_typeconv_create i) := by
  have hfunc := i.func
  refine ⟨?_, ?_, fun _ h => (by cases h), fun _ h => (by cases h)⟩
  · unfold pllua_typeconv_create
    cases hpath : i.elempathtype with
    | FUNC =>
      have hvalid : OidIsValid i.funcid = true := hfunc.mpr hpath
      simp [hvalid]
    | RELABELTYPE => simp [OidIsValid]
    | COERCEVIAIO => simp [OidIsValid]
  · unfold pllua_typeconv_create
    intro h
    dsimp only at h ⊢
    split at h
    case isTrue h5 =>
      rw [Bool.and_eq_true, decide_eq_true_eq] at h5
      exact h5.2
    case isFalse => cases h

end

/-! ## One element -/

section
variable {db : Db V E} {c : Converter}

theorem invoke_filled {oid : Oid} (hvalid : OidIsValid oid = true) (v : Option V) (typmod : Int) :
    FunctionCallInvoke db (filled db oid) v typmod =
      (db.call oid v typmod false).mapError Stop.error := by
  have hf : OidIsValid (filled db oid).fn_oid = true := hvalid
  unfold FunctionCallInvoke
  rw [if_pos hf]
  unfold filled
  cases db.call oid v typmod false <;> rfl

theorem strict_call_filled {oid : Oid} (hvalid : OidIsValid oid = true) (v : Option V)
    (typmod : Int) :
    strict_call db (some (filled db oid)) v typmod =
      (pllua_typeinfo_raw_coerce db oid v typmod).mapError Stop.error := by
  unfold strict_call pllua_typeinfo_raw_coerce
  simp only [invoke_filled hvalid]
  cases v with
  | some v => rfl
  | none =>
    cases hs : db.strict oid with
    | true => simp [filled, hs, Except.mapError]
    | false => simp [filled, hs]

/-- A strict function that is not called leaves the null that it was to be called with. -/
theorem typmod_coerce_eq (fn : Option FmgrInfo) (v : Option V) (typmod : Int) :
    typmod_coerce db true fn v typmod = strict_call db fn v typmod := by
  cases fn with
  | none => rfl
  | some fn => cases v <;> rfl

theorem separate_eq (h : Kept db c) : c.separate_typmod = OidIsValid c.fnoid2 := by
  unfold Converter.separate_typmod
  cases hv : OidIsValid c.fnoid2 with
  | false => exact Bool.and_false _
  | true => simp [h.typmod hv]

/-- One turn of the loop is the scalar coercion, where the records that it uses are filled
in. -/
theorem coerce_element_filled (h : Kept db c) {fn fn2 : Option FmgrInfo}
    (hfn : c.elempath = FUNC → fn = some (filled db c.fnoid))
    (hfn2 : OidIsValid c.fnoid2 = true → c.elempath ≠ COERCEVIAIO →
      fn2 = some (filled db c.fnoid2)) (v : Option V) :
    coerce_element db c.elempath fn fn2 c.separate_typmod c.typmod v =
      (scalar_coerce db c v).mapError Stop.error := by
  have hsep := separate_eq h
  have htypmod : c.elempath ≠ COERCEVIAIO → ∀ w,
      typmod_coerce db c.separate_typmod fn2 w c.typmod =
        (if c.separate_typmod then pllua_typeinfo_raw_coerce db c.fnoid2 w c.typmod
          else .ok w).mapError Stop.error := by
    intro hpath w
    rw [hsep]
    cases hv : OidIsValid c.fnoid2 with
    | false => rfl
    | true =>
      rw [hfn2 hv hpath, typmod_coerce_eq, strict_call_filled hv]
      rfl
  unfold coerce_element scalar_coerce
  cases hpath : c.elempath with
  | COERCEVIAIO =>
    cases v with
    | none => rfl
    | some v =>
      unfold via_io
      dsimp only
      cases db.output v with
      | error e => rfl
      | ok str =>
        cases hi : db.input str c.typmod with
        | error e => simp [bind, Except.bind, hi, Except.mapError]
        | ok w => simp [bind, Except.bind, hi, Except.mapError]
  | RELABELTYPE =>
    have hno : OidIsValid c.fnoid = false := by
      rw [Bool.eq_false_iff]
      intro hv
      rw [h.func.mp hv] at hpath
      cases hpath
    have ht := htypmod (by rw [hpath]; exact fun h => by cases h) v
    simp only [hno, Bool.false_eq_true, if_false, bind, Except.bind]
    exact ht
  | FUNC =>
    have hv : OidIsValid c.fnoid = true := h.func.mpr hpath
    have ht := htypmod (by rw [hpath]; exact fun h => by cases h)
    simp only [hv, if_true, bind, Except.bind, hfn hpath, strict_call_filled hv]
    cases pllua_typeinfo_raw_coerce db c.fnoid v (if c.separate_typmod then -1 else c.typmod) with
    | error e => rfl
    | ok w => exact ht w

/-- The loop over elements that each are coerced like a scalar. -/
theorem coerce_elements_mapM {f : Option V → Except (Stop E) (Option V)}
    {g : Option V → Except E (Option V)} (h : ∀ v, f v = (g v).mapError Stop.error)
    (vs : List (Option V)) : coerce_elements f vs = (vs.mapM g).mapError Stop.error := by
  induction vs with
  | nil => rfl
  | cons v vs ih =>
    unfold coerce_elements
    rw [h v, ih, List.mapM_cons]
    cases g v with
    | error e => rfl
    | ok w =>
      cases vs.mapM g with
      | error e => simp [bind, Except.bind, Except.mapError]
      | ok ws => simp [bind, Except.bind, Except.mapError, pure, Except.pure]

theorem coerce_array_filled (h : Kept db c) {fn fn2 : Option FmgrInfo}
    (hfn : c.elempath = FUNC → fn = some (filled db c.fnoid))
    (hfn2 : OidIsValid c.fnoid2 = true → c.elempath ≠ COERCEVIAIO →
      fn2 = some (filled db c.fnoid2)) (arr : Arr V) :
    coerce_array db c fn fn2 arr = expected db c arr := by
  unfold coerce_array expected
  rw [coerce_elements_mapM (coerce_element_filled h hfn hfn2)]
  cases arr.elems.mapM (scalar_coerce db c) with
  | error e => rfl
  | ok elems => rfl

/-- What is expected is never a fault. -/
theorem expected_ne_fault (db : Db V E) (c : Converter) (arr : Arr V) :
    expected db c arr ≠ .error .fault := by
  unfold expected
  cases arr.elems.mapM (scalar_coerce db c) with
  | error e => exact fun h => by cases h
  | ok elems => exact fun h => by cases h

/-- A typmod function whose record is not filled in: the array is coerced if no element gets
as far. -/
theorem coerce_array_blank (h : Kept db c) (hpath : c.elempath = FUNC)
    (hv2 : OidIsValid c.fnoid2 = true) (arr : Arr V) :
    ((∀ v, arr.elems.head? = some v →
        ∃ e, pllua_typeinfo_raw_coerce db c.fnoid v (-1) = .error e) →
      coerce_array db c (some (filled db c.fnoid)) (some blank) arr = expected db c arr) ∧
    ((∃ v w, arr.elems.head? = some v ∧
        pllua_typeinfo_raw_coerce db c.fnoid v (-1) = .ok w) →
      coerce_array db c (some (filled db c.fnoid)) (some blank) arr = .error .fault) := by
  have hv : OidIsValid c.fnoid = true := h.func.mpr hpath
  have hsep : c.separate_typmod = true := by rw [separate_eq h, hv2]
  have hcast : ∀ v, coerce_element db c.elempath (some (filled db c.fnoid)) (some blank)
      c.separate_typmod c.typmod v =
        match pllua_typeinfo_raw_coerce db c.fnoid v (-1) with
        | .error e => .error (.error e)
        | .ok _ => .error .fault := by
    intro v
    unfold coerce_element
    rw [hpath, hsep]
    simp only [if_true, strict_call_filled hv]
    cases pllua_typeinfo_raw_coerce db c.fnoid v (-1) with
    | error e => rfl
    | ok w => simp [Except.mapError, typmod_coerce, blank, FunctionCallInvoke, OidIsValid]
  constructor
  · intro hidle
    cases helems : arr.elems with
    | nil => simp [coerce_array, expected, helems, coerce_elements, pure, Except.pure]
    | cons v vs =>
      obtain ⟨e, he⟩ := hidle v (by rw [helems]; rfl)
      have hscalar : scalar_coerce db c v = .error e := by
        unfold scalar_coerce
        rw [hpath, hsep]
        simp [hv, he, bind, Except.bind]
      unfold coerce_array expected
      rw [helems, List.mapM_cons, hscalar, coerce_elements, hcast, he]
      rfl
  · rintro ⟨v, w, hhead, hw⟩
    cases helems : arr.elems with
    | nil =>
      rw [helems] at hhead
      cases hhead
    | cons v' vs =>
      rw [helems] at hhead
      cases hhead
      unfold coerce_array
      rw [helems, coerce_elements, hcast, hw]

/-! ## One use -/

/-- What a ready record is. -/
theorem ready_filled {p : Option FmgrInfo} {oid : Oid}
    (hkept : ∀ fn, p = some fn → fn = filled db oid ∨ fn = blank) (h : ready p = true) :
    p = some (filled db oid) := by
  cases p with
  | none => cases h
  | some fn =>
    rcases hkept fn rfl with hf | hf
    · rw [hf]
    · rw [hf] at h
      cases h

theorem second_none (u : Use V E) (arr : Arr V) (fn fn2 : Option FmgrInfo)
    (h : OidIsValid c.fnoid2 = false) :
    pllua_typeinfo_raw_coerce_array.second_function db c u arr fn fn2 =
      (coerce_array db c fn fn2 arr, c) := by
  unfold pllua_typeinfo_raw_coerce_array.second_function
  rw [h]

/-- The second function is looked up when its place is empty. -/
theorem second_init (u : Use V E) (arr : Arr V) (fn : Option FmgrInfo)
    (h : OidIsValid c.fnoid2 = true) :
    (pllua_typeinfo_raw_coerce_array.second_function db c u arr fn none).1 =
      match u.init_error2 with
      | some e => .error (.error e)
      | none => coerce_array db c fn (some (filled db c.fnoid2)) arr := by
  unfold pllua_typeinfo_raw_coerce_array.second_function
  rw [h]
  cases fn <;>
  · unfold pllua_typeinfo_raw_coerce_array.init_second pllua_pgfunc_init
    cases u.init_error2 <;> rfl

/-- With both records there, no more is looked up. -/
theorem second_kept (u : Use V E) (arr : Arr V) {fn : FmgrInfo} (fn2 : FmgrInfo)
    (hfn : OidIsValid fn.fn_oid = true) (h : OidIsValid c.fnoid2 = true) :
    pllua_typeinfo_raw_coerce_array.second_function db c u arr (some fn) (some fn2) =
      (coerce_array db c (some fn) (some fn2) arr, c) := by
  unfold pllua_typeinfo_raw_coerce_array.second_function
  rw [h]
  simp only [hfn, if_true]

/-- A record there for the second function and none for the first. -/
theorem second_fault (u : Use V E) (arr : Arr V) (fn2 : FmgrInfo)
    (h : OidIsValid c.fnoid2 = true) :
    pllua_typeinfo_raw_coerce_array.second_function db c u arr none (some fn2) =
      (.error .fault, c) := by
  unfold pllua_typeinfo_raw_coerce_array.second_function
  rw [h]

/-- A use on a path without a cast function. -/
theorem use_without_cast (h : Kept db c) (hpath : c.elempath ≠ FUNC) (u : Use V E) (arr : Arr V)
    (hu : u.value = some arr) : Meets db c u ↔ Sound db c u := by
  have hno : OidIsValid c.fnoid = false := by
    rw [Bool.eq_false_iff]
    exact fun hv => hpath (h.func.mp hv)
  have hrun : pllua_typeinfo_raw_coerce_array db c u =
      pllua_typeinfo_raw_coerce_array.second_function db c u arr none
        (if OidIsValid c.fnoid2 then c.fn2 else none) := by
    unfold pllua_typeinfo_raw_coerce_array
    rw [hu]
    simp only [hno, Bool.false_and, Bool.false_eq_true, if_false, if_neg hpath, separate_eq h]
  unfold Meets Sound
  rw [hu, hrun]
  dsimp only
  cases hv : OidIsValid c.fnoid2 with
  | false =>
    rw [second_none u arr none _ hv]
    refine iff_of_true (Or.inl ?_) fun _ _ _ h => by cases h
    exact coerce_array_filled h (fun hp => absurd hp hpath)
      (fun hv' => by rw [hv] at hv'; cases hv') arr
  | true =>
    rw [if_pos rfl]
    cases hfn2 : c.fn2 with
    | none =>
      rw [second_init u arr none hv]
      refine iff_of_true ?_ fun _ _ _ _ h => by cases h
      cases he : u.init_error2 with
      | some e => exact Or.inr ⟨e, Or.inr ⟨hv, hfn2, he⟩, rfl⟩
      | none =>
        exact Or.inl (coerce_array_filled h (fun hp => absurd hp hpath) (fun _ _ => rfl) arr)
    | some fn2 =>
      rw [second_fault u arr fn2 hv]
      refine iff_of_false ?_ fun hs => hpath (hs arr fn2 rfl rfl rfl).1
      rintro (he | ⟨e, -, he⟩)
      · exact expected_ne_fault db c arr he.symm
      · cases he

/-- What follows once the cast function is there. -/
theorem second_with_cast (h : Kept db c) (hpath : c.elempath = FUNC) (u : Use V E) (arr : Arr V) :
    ((pllua_typeinfo_raw_coerce_array.second_function db c u arr (some (filled db c.fnoid))
        (if OidIsValid c.fnoid2 then c.fn2 else none)).1 = expected db c arr ∨
      ∃ e, (OidIsValid c.fnoid2 = true ∧ c.fn2 = none ∧ u.init_error2 = some e) ∧
        (pllua_typeinfo_raw_coerce_array.second_function db c u arr (some (filled db c.fnoid))
          (if OidIsValid c.fnoid2 then c.fn2 else none)).1 = .error (.error e)) ↔
    ∀ fn2, OidIsValid c.fnoid2 = true → c.fn2 = some fn2 →
      OidIsValid fn2.fn_oid = true ∨ ∀ v, arr.elems.head? = some v →
        ∃ e, pllua_typeinfo_raw_coerce db c.fnoid v (-1) = .error e := by
  have hfn : OidIsValid (filled db c.fnoid).fn_oid = true := h.func.mpr hpath
  cases hv : OidIsValid c.fnoid2 with
  | false =>
    rw [second_none u arr _ _ hv]
    refine iff_of_true (Or.inl ?_) fun _ h => by cases h
    exact coerce_array_filled h (fun _ => rfl) (fun hv' => by rw [hv] at hv'; cases hv') arr
  | true =>
    rw [if_pos rfl]
    cases hfn2 : c.fn2 with
    | none =>
      rw [second_init u arr _ hv]
      refine iff_of_true ?_ fun _ _ h => by cases h
      cases he : u.init_error2 with
      | some e => exact Or.inr ⟨e, ⟨rfl, rfl, rfl⟩, rfl⟩
      | none => exact Or.inl (coerce_array_filled h (fun _ => rfl) (fun _ _ => rfl) arr)
    | some fn2 =>
      rw [second_kept u arr fn2 hfn hv]
      rcases h.fn2 fn2 hfn2 with hf | hf
      · have hvalid : OidIsValid fn2.fn_oid = true := by rw [hf]; exact hv
        refine iff_of_true (Or.inl ?_) fun f _ hf' => ?_
        · rw [hf]
          exact coerce_array_filled h (fun _ => rfl) (fun _ _ => rfl) arr
        · cases hf'
          exact Or.inl hvalid
      · rw [hf]
        obtain ⟨hidle, hreach⟩ := coerce_array_blank h hpath hv arr
        rcases Classical.em (∀ v, arr.elems.head? = some v →
          ∃ e, pllua_typeinfo_raw_coerce db c.fnoid v (-1) = .error e) with hall | hall
        · exact iff_of_true (Or.inl (hidle hall)) fun _ _ _ => Or.inr hall
        · have hsome : ∃ v w, arr.elems.head? = some v ∧
              pllua_typeinfo_raw_coerce db c.fnoid v (-1) = .ok w := by
            simp only [not_forall] at hall
            obtain ⟨v, hhead, hno⟩ := hall
            cases hc : pllua_typeinfo_raw_coerce db c.fnoid v (-1) with
            | error e => exact absurd ⟨e, hc⟩ hno
            | ok w => exact ⟨v, w, hhead, hc⟩
          refine iff_of_false ?_ fun hs => ?_
          · rw [hreach hsome]
            rintro (he | ⟨e, -, he⟩)
            · exact expected_ne_fault db c arr he.symm
            · cases he
          · rcases hs blank rfl rfl with hb | hb
            · cases hb
            · exact hall hb

/-- A use that gets past the look-up of the cast function meets the condition as its rest
does. -/
theorem meets_of_second (hpath : c.elempath = FUNC) {u : Use V E} {arr : Arr V}
    (hu : u.value = some arr) (hcast : ready c.fn = false → u.init_error = none)
    (hsecond : ((pllua_typeinfo_raw_coerce_array db c u).1 = expected db c arr ∨
        ∃ e, (OidIsValid c.fnoid2 = true ∧ c.fn2 = none ∧ u.init_error2 = some e) ∧
          (pllua_typeinfo_raw_coerce_array db c u).1 = .error (.error e)) ↔
      ∀ fn2, OidIsValid c.fnoid2 = true → c.fn2 = some fn2 →
        OidIsValid fn2.fn_oid = true ∨ ∀ v, arr.elems.head? = some v →
          ∃ e, pllua_typeinfo_raw_coerce db c.fnoid v (-1) = .error e) :
    Meets db c u ↔ Sound db c u := by
  constructor
  · intro hmeets arr' fn2 harr hv hfn2
    rw [hu] at harr
    cases harr
    unfold Meets at hmeets
    rw [hu] at hmeets
    have hrest : (pllua_typeinfo_raw_coerce_array db c u).1 = expected db c arr ∨
        ∃ e, (OidIsValid c.fnoid2 = true ∧ c.fn2 = none ∧ u.init_error2 = some e) ∧
          (pllua_typeinfo_raw_coerce_array db c u).1 = .error (.error e) := by
      rcases hmeets with he | ⟨e, ⟨-, hno, herr⟩ | hinit, he⟩
      · exact Or.inl he
      · rw [hcast hno] at herr
        cases herr
      · exact Or.inr ⟨e, hinit, he⟩
    refine ⟨hpath, ?_⟩
    rcases hsecond.mp hrest fn2 hv hfn2 with hf | hidle
    · exact Or.inl hf
    · exact Or.inr (Or.inr hidle)
  · intro hsound
    have hrest := hsecond.mpr fun fn2 hv hfn2 => by
      rcases (hsound arr fn2 hu hv hfn2).2 with hf | ⟨hno, herr⟩ | hidle
      · exact Or.inl hf
      · rw [hcast hno] at herr
        cases herr
      · exact Or.inr hidle
    unfold Meets
    rw [hu]
    rcases hrest with he | ⟨e, hinit, he⟩
    · exact Or.inl he
    · exact Or.inr ⟨e, Or.inr hinit, he⟩

/-- A use on the path with a cast function. -/
theorem use_with_cast (h : Kept db c) (hpath : c.elempath = FUNC) (u : Use V E) (arr : Arr V)
    (hu : u.value = some arr) : Meets db c u ↔ Sound db c u := by
  have hv : OidIsValid c.fnoid = true := h.func.mpr hpath
  cases hready : ready c.fn with
  | true =>
    have hrun : pllua_typeinfo_raw_coerce_array db c u =
        pllua_typeinfo_raw_coerce_array.second_function db c u arr (some (filled db c.fnoid))
          (if OidIsValid c.fnoid2 then c.fn2 else none) := by
      unfold pllua_typeinfo_raw_coerce_array
      rw [hu]
      simp only [if_pos hpath, hready, Bool.not_true, Bool.and_false, Bool.false_eq_true,
        if_false, separate_eq h]
      rw [ready_filled h.fn hready]
    refine meets_of_second hpath hu (fun hno => ?_) ?_
    · rw [hready] at hno
      cases hno
    · rw [hrun]
      exact second_with_cast h hpath u arr
  | false =>
    cases he : u.init_error with
    | some e =>
      have hrun : (pllua_typeinfo_raw_coerce_array db c u).1 = .error (.error e) := by
        unfold pllua_typeinfo_raw_coerce_array
        rw [hu]
        simp only [hv, if_pos hpath, hready, Bool.not_false, Bool.and_true, if_true, he,
          pllua_pgfunc_init]
      refine iff_of_true ?_ fun arr' fn2 _ _ _ => ?_
      · unfold Meets
        rw [hu]
        exact Or.inr ⟨e, Or.inl ⟨hpath, hready, he⟩, hrun⟩
      · refine ⟨hpath, Or.inr (Or.inl ⟨hready, ?_⟩)⟩
        rw [he]
        rfl
    | none =>
      -- the rest of the use is one of a converter that has the function
      have hkept : Kept db { c with fn := some (filled db c.fnoid) } :=
        ⟨h.func, h.typmod, fun _ hf => Or.inl (Option.some.inj hf).symm, h.fn2⟩
      have hrun : pllua_typeinfo_raw_coerce_array db c u =
          pllua_typeinfo_raw_coerce_array.second_function db
            { c with fn := some (filled db c.fnoid) } u arr (some (filled db c.fnoid))
            (if OidIsValid c.fnoid2 then c.fn2 else none) := by
        unfold pllua_typeinfo_raw_coerce_array
        rw [hu]
        simp only [hv, if_pos hpath, hready, Bool.not_false, Bool.and_true, if_true, he,
          separate_eq h, pllua_pgfunc_init]
        rfl
      refine meets_of_second hpath hu (fun _ => he) ?_
      rw [hrun]
      exact second_with_cast hkept hpath u arr

/-- A use gives what it should exactly where the second place is sound. -/
theorem meets_iff_sound (h : Kept db c) (u : Use V E) : Meets db c u ↔ Sound db c u := by
  cases hu : u.value with
  | none =>
    refine iff_of_true ?_ fun _ _ harr => ?_
    · unfold Meets pllua_typeinfo_raw_coerce_array
      rw [hu]
    · rw [hu] at harr
      cases harr
  | some arr =>
    by_cases hpath : c.elempath = FUNC
    · exact use_with_cast h hpath u arr hu
    · exact use_without_cast h hpath u arr hu

end

/-! ## All uses -/

section
variable {db : Db V E} {c : Converter}

theorem Kept.set_fn (h : Kept db c) (e : Option E) :
    Kept db { c with fn := some (pllua_pgfunc_init db c.fnoid e).1 } := by
  refine ⟨h.func, h.typmod, fun fn hfn => ?_, h.fn2⟩
  cases hfn
  cases e with
  | none => exact Or.inl rfl
  | some e => exact Or.inr rfl

theorem Kept.init_second (h : Kept db c) (u : Use V E) (arr : Arr V) (fn : Option FmgrInfo) :
    Kept db (pllua_typeinfo_raw_coerce_array.init_second db c u arr fn).2 := by
  have hset : Kept db { c with fn2 := some (pllua_pgfunc_init db c.fnoid2 u.init_error2).1 } := by
    refine ⟨h.func, h.typmod, h.fn, fun fn2 hfn2 => ?_⟩
    cases hfn2
    cases u.init_error2 with
    | none => exact Or.inl rfl
    | some e => exact Or.inr rfl
  unfold pllua_typeinfo_raw_coerce_array.init_second
  dsimp only
  split
  · exact hset
  · exact hset

theorem Kept.second_function (h : Kept db c) (u : Use V E) (arr : Arr V)
    (fn fn2 : Option FmgrInfo) :
    Kept db (pllua_typeinfo_raw_coerce_array.second_function db c u arr fn fn2).2 := by
  unfold pllua_typeinfo_raw_coerce_array.second_function
  split
  · exact h
  · exact h
  · split
    · exact h
    · exact Kept.init_second h u arr _
  · exact Kept.init_second h u arr _

/-- A use keeps the law of the converter. -/
theorem Kept.step (h : Kept db c) (u : Use V E) : Kept db (step db c u) := by
  unfold coercion.step pllua_typeinfo_raw_coerce_array
  cases u.value with
  | none => exact h
  | some arr =>
    dsimp only
    generalize (if c.elempath = FUNC then c.fn else none) = fn
    generalize (if c.separate_typmod = true then c.fn2 else none) = fn2
    by_cases hinit : (OidIsValid c.fnoid && !ready fn) = true
    · rw [if_pos hinit]
      cases (pllua_pgfunc_init db c.fnoid u.init_error).2 with
      | some e => exact h.set_fn u.init_error
      | none => exact Kept.second_function (h.set_fn u.init_error) u arr _ fn2
    · rw [if_neg hinit]
      exact Kept.second_function h u arr fn fn2

end

/-- In all uses of a converter, the first and every later one: the array of the scalar coercions
comes exactly where the place of the typmod function is sound. -/
theorem array_coerced_iff (db : Db V E) (i : Cast) (us : List (Use V E)) :
    Each (step db) (fun c u => Meets db c u ↔ Sound db c u) (pllua_typeconv_create i) us :=
  each_of_keeps (I := Kept db) (fun _ u h => Kept.step h u) (fun _ u h => meets_iff_sound h u)
    (kept_create db i) us

/-- `varchar(varchar,int4,bool)`. -/
def varchar_oid : Oid := 669

/-- The cast from `text[]` to a domain over `varchar(4)[]`. -/
def text_to_varchar : Cast := ⟨RELABELTYPE, InvalidOid, 0, 8, varchar_oid, by decide⟩

/-- A database of strings, with `varchar` alone. -/
def varchar_db : Db (List Char) String where
  strict := fun _ => true
  call := fun _ v typmod _ =>
    match v with
    | some s => if s.length + 4 ≤ typmod then .ok (some s) else .error "value too long for type"
    | none => .ok none
  output := fun s => .ok (String.ofList s)
  input := fun s _ => .ok s.toList

/-- The array `{ab}`. -/
def ab : Use (List Char) String := ⟨some ⟨[1], [1], [some ['a', 'b']]⟩, none, none⟩

/-- The first use is good, and the next one reads the record of a cast function that there is
not. -/
theorem second_varchar_array_faults :
    Meets varchar_db (pllua_typeconv_create text_to_varchar) ab ∧
      ¬ Each (step varchar_db) (Meets varchar_db) (pllua_typeconv_create text_to_varchar)
        [ab, ab] := by
  refine ⟨Or.inl rfl, fun h => ?_⟩
  have hfault : (pllua_typeinfo_raw_coerce_array varchar_db
      (step varchar_db (pllua_typeconv_create text_to_varchar) ab) ab).1 = .error .fault := rfl
  rcases h.2.1 with he | ⟨e, -, he⟩
  · rw [hfault] at he
    cases he
  · rw [hfault] at he
    cases he

end pllua.coercion
