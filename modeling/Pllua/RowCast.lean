-- The casts of rows in datum.c: how pllua_typeconv_create matches the columns of
-- two row types, how pllua_typeconv_row_coerce takes a row apart, and how
-- pllua_typeinfo_row_call puts the new row together.
import Pllua.TypeInfo

open pllua.catalog pllua.typeinfo

namespace pllua.rowcast

/-! ## Row types and rows -/

/-- The typeinfo of a row type: its fields go with its descriptor. -/
structure RowType where
  typeinfo : Typeinfo
  tupdesc : TupleDesc
  tupdesc_eq : typeinfo.tupdesc = some tupdesc
  natts_eq : typeinfo.natts = tupdesc.natts
  arity_eq : typeinfo.arity = TupleDesc.arity tupdesc
  hasoid_eq : typeinfo.hasoid = tupdesc.hasoid

/-- What the type cache builds for a type with a descriptor is a row type. -/
theorem rowtype_of_catalog {cat : Catalog} {oid : Oid} {typmod : Int} {t : Typeinfo}
    {in_tupdesc : Option TupleDesc} {desc : TupleDesc}
    (h : read_catalog cat oid typmod in_tupdesc = some t) (hd : t.tupdesc = some desc) :
    ∃ r : RowType, r.typeinfo = t ∧ r.tupdesc = desc := by
  unfold read_catalog at h
  refine ⟨⟨t, desc, hd, ?_, ?_, ?_⟩, rfl, rfl⟩
  all_goals
    simp only at h
    split at h
    · split at h
      · obtain ⟨d, -, rfl⟩ := Option.map_eq_some_iff.mp h
        cases hd
        rfl
      · cases h
        simp_all
    · obtain ⟨pt, -, rfl⟩ := Option.map_eq_some_iff.mp h
      simp_all

/-- A row: a value for each attribute number, and an oid where the row type has them. -/
structure Row (δ : Type) (d : TupleDesc) where
  oid : Oid
  columns : List (Option δ)
  length_eq : columns.length = d.natts

/-- `pllua_datum` with the typeinfo in its metatable. -/
structure Datum (δ : Type) where
  typeoid : Oid
  typmod : Int
  modified : Bool
  value : δ

/-- An entry of the table of a deformed row. -/
inductive Deformed (δ : Type)
  /-- false for a dropped column, true for a null -/
  | boolean (b : Bool)
  | datum (d : Datum δ)

/-! ## Code of PostgreSQL and of other types -/

/-- The length coercion of a type, as `pllua_typeinfo_coerce_typmod` calls it. -/
inductive LengthCoercion (δ : Type)
  /-- `pllua_typeinfo_raw_coerce` with the typmod function -/
  | func (fn_strict : Bool) (call : Int → Option δ → Except String (Option δ))
  /-- `pllua_typeinfo_raw_coerce_array`, which takes an array to an array -/
  | array (call : Int → δ → Except String δ)

/-- What the casts of rows call. -/
structure Fmgr (δ : Type) where
  /-- the typmod function of a type, if it has one -/
  length_coercion : Oid → Option (LengthCoercion δ)
  /-- the call of a typeinfo as a constructor, with one datum -/
  construct : Oid → Datum δ → Except String (Datum δ)
  domain_check : Oid → List (Option δ) → Except String Unit
  /-- the method `name` of a typeinfo -/
  name : Typeinfo → Except String String

section
variable {δ : Type} (fm : Fmgr δ)

/-- `pllua_typeinfo_coerce_typmod`. -/
def pllua_typeinfo_coerce_typmod (coltype : Oid) (typmod : Int) (val : Option δ) :
    Except String (Option δ) :=
  match fm.length_coercion coltype with
  | none => .ok val
  | some c =>
    if typmod < 0 then .ok val
    else
      match c, val with
      | .func fn_strict call, val =>
        if val.isNone && fn_strict then .ok val else call typmod val
      | .array _, none => .ok none
      | .array call, some v => (call typmod v).map some

/-- `pllua_datum_deform_tuple`: the table of the columns. -/
def pllua_datum_deform_tuple : List Attribute → List (Option δ) → List (Deformed δ)
  | att :: atts, val :: vals =>
    (if att.attisdropped then .boolean false
    else
      match val with
      | none => .boolean true
      | some value =>
        .datum ⟨att.atttypid, if att.atttypid ≠ RECORDOID then att.atttypmod else -1, false,
          value⟩) :: pllua_datum_deform_tuple atts vals
  | _, _ => []

/-! ## The constructor of a row type -/

/-- The value of one column in `pllua_typeinfo_row_call`. -/
def column_value (att : Attribute) (arg : Option (Datum δ)) : Except String (Option δ) := do
  let d ← match arg with
    | none => pure none
    | some d =>
      if d.typeoid = att.atttypid ∧ d.modified = false then pure (some d)
      else
        let d ← fm.construct att.atttypid d
        if d.typeoid = att.atttypid ∧ d.modified = false then pure (some d)
        else throw "inconsistency"
  let val := d.map (·.value)
  if att.atttypid ≠ RECORDOID ∧ 0 ≤ att.atttypmod ∧ d.map (·.typmod) ≠ some att.atttypmod then
    pllua_typeinfo_coerce_typmod fm att.atttypid att.atttypmod val
  else pure val

/-- The loop of `pllua_typeinfo_row_call` over the columns. There is an argument for
each live column, since their number has been checked. -/
def column_values : List Attribute → List (Option (Datum δ)) → Except String (List (Option δ))
  | [], _ => .ok []
  | att :: atts, args =>
    if att.attisdropped then (column_values atts args).map (none :: ·)
    else
      match column_value fm att (args.headD none) with
      | .error e => .error e
      | .ok val => (column_values atts args.tail).map (val :: ·)

theorem column_values_length {atts : List Attribute} {args : List (Option (Datum δ))}
    {vals : List (Option δ)} (h : column_values fm atts args = .ok vals) :
    vals.length = atts.length := by
  induction atts generalizing args vals with
  | nil =>
    cases h
    rfl
  | cons att atts ih =>
    unfold column_values at h
    split at h
    · cases hr : column_values fm atts args with
      | error e =>
        rw [hr] at h
        cases h
      | ok vs =>
        rw [hr] at h
        cases h
        simp [ih hr]
    · split at h
      · cases h
      · cases hr : column_values fm atts args.tail with
        | error e =>
          rw [hr] at h
          cases h
        | ok vs =>
          rw [hr] at h
          cases h
          simp [ih hr]

/-- A single nil counts as no argument. -/
def drop_nil : List (Option (Datum δ)) → List (Option (Datum δ))
  | [none] => []
  | args => args

theorem drop_nil_cases (args : List (Option (Datum δ))) :
    drop_nil args = args ∨ args = [none] ∧ drop_nil args = [] := by
  unfold drop_nil
  split
  · exact Or.inr ⟨rfl, rfl⟩
  · exact Or.inl rfl

/-- The arguments of `pllua_typeinfo_row_call` once their number is checked. They are datums
or nil here, not tables. -/
def row_call_args (t : RowType) (args : List (Option (Datum δ))) :
    Except String (List (Option (Datum δ))) :=
  let nargs := (drop_nil args).length
  if nargs = 0 then .ok (List.replicate t.typeinfo.arity none)
  else if nargs ≠ t.typeinfo.arity then
    .error s!"incorrect number of arguments for type constructor (expected {t.typeinfo.arity} got {nargs})"
  else .ok (drop_nil args)

/-- `pllua_typeinfo_row_call`. -/
def pllua_typeinfo_row_call (t : RowType) (args : List (Option (Datum δ))) :
    Except String (Row δ t.tupdesc) :=
  match row_call_args t args with
  | .error e => .error e
  | .ok args =>
    match h : column_values fm t.tupdesc.attrs args with
    | .error e => .error e
    | .ok vals => .ok ⟨InvalidOid, vals, column_values_length fm h⟩

/-! ## The cast from a row type to another -/

/-- The function that `pllua_typeconv_create` makes for two row types. -/
inductive Closure
  | row_coerce (droplist : Option (List Bool))
  | error (srcname dstname : String)
deriving DecidableEq, Repr

/-- The loop of the row cast in `pllua_typeconv_create`: the flags of the droplist, or none
when source columns are left over. -/
def match_columns (sametype : Bool) : List Attribute → List Attribute → Option (List Bool)
  | [], _ => some []
  | _ :: _, [] => none
  | s_att :: ss, d_att :: ds =>
    if s_att.attisdropped then
      (match_columns sametype ss (if sametype && d_att.attisdropped then ds else d_att :: ds)).map
        (false :: ·)
    else if d_att.attisdropped then
      if sametype then (match_columns sametype ss ds).map (true :: ·)
      else match_columns sametype (s_att :: ss) ds
    else
      -- the next source column meets the same destination column again
      (match_columns sametype ss (d_att :: ds)).map (false :: ·)
termination_by ss ds => ss.length + ds.length
decreasing_by
  · split
    · simp_wf
      omega
    · simp_wf
  · simp_wf; omega
  · simp_wf
  · simp_wf

/-- `pllua_typeconv_create` for two row types. -/
def pllua_typeconv_create (src_t dst_t : RowType) : Except String Closure :=
  if dst_t.typeinfo.modified || dst_t.typeinfo.obsolete then
    .error "cannot cast value to modified or obsolete type"
  else
    let sametype := src_t.typeinfo.basetype ≠ RECORDOID &&
      src_t.typeinfo.basetype = dst_t.typeinfo.basetype
    match match_columns sametype src_t.tupdesc.attrs dst_t.tupdesc.attrs with
    | some droplist => .ok (.row_coerce (if droplist.any id then some droplist else none))
    | none => do
      let srcname ← fm.name src_t.typeinfo
      let dstname ← fm.name dst_t.typeinfo
      return .error srcname dstname

/-- The loop of `pllua_typeconv_row_coerce` over the source columns: the arguments for the
constructor. -/
def push_columns : List Attribute → List Bool → List (Deformed δ) → List (Option (Datum δ))
  | att :: atts, droplist, c :: cs =>
    if att.attisdropped || droplist.headD false then push_columns atts droplist.tail cs
    else
      (match c with
      | .boolean _ => none
      | .datum d => some d) :: push_columns atts droplist.tail cs
  | _, _, _ => []

/-- `pllua_typeconv_row_coerce`. -/
def pllua_typeconv_row_coerce (src_t dst_t : RowType) (droplist : Option (List Bool))
    (row : Row δ src_t.tupdesc) : Except String (Row δ dst_t.tupdesc) :=
  if dst_t.typeinfo.modified || dst_t.typeinfo.obsolete then
    .error "cannot cast value to modified or obsolete type"
  else
    let args := push_columns src_t.tupdesc.attrs (droplist.getD [])
      (pllua_datum_deform_tuple src_t.tupdesc.attrs row.columns)
    let args := args ++ List.replicate (dst_t.typeinfo.arity - args.length) none
    match pllua_typeinfo_row_call fm dst_t args with
    | .error e => .error e
    | .ok newd =>
      let newd := if dst_t.typeinfo.hasoid && src_t.typeinfo.hasoid then { newd with oid := row.oid }
        else newd
      if dst_t.typeinfo.basetype ≠ dst_t.typeinfo.typeoid then
        (fm.domain_check dst_t.typeinfo.typeoid newd.columns).map fun _ => newd
      else .ok newd

/-- `pllua_typeinfo_call_datum`: the cast is looked up, or made, and called. -/
def pllua_typeinfo_call_datum (src_t dst_t : RowType) (row : Row δ src_t.tupdesc) :
    Except String (Row δ dst_t.tupdesc) :=
  match pllua_typeconv_create fm src_t dst_t with
  | .error e => .error e
  | .ok (.row_coerce droplist) => pllua_typeconv_row_coerce fm src_t dst_t droplist row
  | .ok (.error srcname dstname) => .error s!"cannot cast from type {srcname} to {dstname}"

end

end pllua.rowcast
