-- Messages and errors of Lua code (elog.c), and the error objects that are caught (error.c). A
-- report keeps its SQLSTATE only where that goes with its level, and an error that is raised again
-- from its fields has the same ones.
import Mathlib.Logic.Relation
import Pllua.SqlStates

open pllua.constructors (c_int map_eq_ok)
open pllua.rowtext (CString)
open pllua.sqlstate

namespace pllua.reports

/-! ## Levels and codes -/

/-- The levels of `elog.h`, lowest first. -/
inductive Elevel
  | DEBUG5 | DEBUG4 | DEBUG3 | DEBUG2 | DEBUG1 | LOG | COMMERROR | INFO | NOTICE | WARNING
  | ERROR | FATAL | PANIC
deriving DecidableEq, Repr

/-- `elevel >= ERROR` -/
def Elevel.is_error : Elevel → Bool
  | ERROR | FATAL | PANIC => true
  | _ => false

def elevels : List (String × Elevel) :=
  [("debug", .DEBUG1), ("log", .LOG), ("info", .INFO), ("notice", .NOTICE), ("warning", .WARNING),
    ("error", .ERROR)]

/-- `pllua_push_severity` -/
def pllua_push_severity (elevel : Elevel) (uppercase : Bool) : String :=
  match elevel with
  | .DEBUG5 | .DEBUG4 | .DEBUG3 | .DEBUG2 | .DEBUG1 => if uppercase then "DEBUG" else "debug"
  | .LOG | .COMMERROR => if uppercase then "LOG" else "log"
  | .INFO => if uppercase then "INFO" else "info"
  | .NOTICE => if uppercase then "NOTICE" else "notice"
  | .WARNING => if uppercase then "WARNING" else "warning"
  | .ERROR => if uppercase then "ERROR" else "error"
  | .FATAL => if uppercase then "FATAL" else "fatal"
  | .PANIC => if uppercase then "PANIC" else "panic"

def ERRCODE_TO_CATEGORY (ec : Int) : Int := ec % 2 ^ 12

/-- A code by its characters. -/
def code (s : String) : Int := sqlstate_of (s.toList.map fun c => c.toNat.toUInt8)

/-- The cases of the switch in `pllua_p_elog`: no errors. -/
def is_success (ec : Int) : Bool :=
  ERRCODE_TO_CATEGORY ec == code "00000" || ERRCODE_TO_CATEGORY ec == code "01000" ||
    ERRCODE_TO_CATEGORY ec == code "02000"

/-! ## Reports -/

/-- A value on the stack, by its type and the text that `luaL_tolstring` makes of it. -/
structure Arg where
  text : List UInt8
  /-- the fields of a table, each with its text unless it is nil -/
  fields : Option (String → Option (List UInt8))

/-- What `pllua_elog` is called with. -/
structure Report where
  elevel : Elevel
  hidecontext : Bool
  e_code : Int
  e_message : CString
  e_detail : Option CString
  e_hint : Option CString
  e_column : Option CString
  e_constraint : Option CString
  e_datatype : Option CString
  e_table : Option CString
  e_schema : Option CString

/-- A string as C takes it. -/
def c_string (s : List UInt8) : CString :=
  ⟨c_text s, fun h => by simpa using List.mem_takeWhile_imp h⟩

def ascii (s : String) : List UInt8 := s.toList.map fun c => c.toNat.toUInt8

variable (ecodes : List Condition)

/-- The arguments of `pllua_p_elog` after the level. -/
def elog_args (elevel : Elevel) (args : List Arg) (t : Errcodes) :
    Except String Report × Errcodes :=
  let report := fun e_code message detail hint => Report.mk elevel false e_code message detail hint
    none none none none none
  match args with
  | [⟨_, some fields⟩] =>
    let field := fun name => (fields name).map c_string
    let (e_code, t) :=
      match field "sqlstate" with
      | none => (0, t)
      | some str => pllua_get_sqlstate ecodes t str
    (.ok
      { elevel, hidecontext := false, e_code
        e_message := (field "message").getD (c_string (ascii "(no message given)"))
        e_detail := field "detail", e_hint := field "hint", e_column := field "column"
        e_constraint := field "constraint", e_datatype := field "datatype"
        e_table := field "table", e_schema := field "schema" }, t)
  | [message] => (.ok (report 0 (c_string message.text) none none), t)
  | sqlstate :: message :: rest =>
    let (e_code, t') := pllua_get_sqlstate ecodes t (c_string sqlstate.text)
    match rest with
    | [] => (.ok (report e_code (c_string message.text) none none), t')
    | [detail] => (.ok (report e_code (c_string message.text) (c_string detail.text) none), t')
    | [detail, hint] =>
      (.ok (report e_code (c_string message.text) (c_string detail.text) (c_string hint.text)), t')
    | _ => (.error "wrong number of parameters to elog", t)
  | [] => (.error "wrong number of parameters to elog", t)

/-- The code has to go with the level. -/
def consistent (r : Report) : Report :=
  if is_success r.e_code = r.elevel.is_error then { r with e_code := 0 } else r

/-- `pllua_p_elog`, with the level of the closure, or none for `elog`, which takes it from its
first argument. -/
def pllua_p_elog (upvalue : Option Elevel) (args : List Arg) (t : Errcodes) :
    Except String Report × Errcodes :=
  let (r, t) :=
    match upvalue, args with
    | some elevel, args => elog_args ecodes elevel args t
    | none, [] => (.error "unknown elevel for elog()", t)
    | none, level :: args =>
      match elevels.find? fun (e : String × Elevel) => ascii e.1 = c_text level.text with
      | none => (.error "unknown elevel for elog()", t)
      | some (_, elevel) => elog_args ecodes elevel args t
  (r.map consistent, t)

/-! ## Errors -/

/-- `ErrorData` -/
structure ErrorData where
  elevel : Elevel
  sqlerrcode : Int
  message : Option CString
  detail : Option CString
  hint : Option CString
  context : Option CString
  message_id : Option CString
  schema_name : Option CString
  table_name : Option CString
  column_name : Option CString
  datatype_name : Option CString
  constraint_name : Option CString
  cursorpos : Int
  internalpos : Int
  internalquery : Option CString
  filename : Option CString
  lineno : Int
  funcname : Option CString

/-- Where `ereport` stands, and what the callbacks for the context say. -/
structure Site where
  filename : CString
  lineno : Int
  funcname : CString
  context : Option CString

/-- `errstart` of PostgreSQL, which gives a report its first code. -/
structure Errstart where
  default_code : Elevel → Int
  error : ∀ {elevel}, elevel.is_error = true → default_code elevel = code "XX000"
  warning : default_code .WARNING = code "01000"
  other : ∀ {elevel}, elevel.is_error = false → elevel ≠ .WARNING →
    default_code elevel = code "00000"

/-- The `ereport` of `pllua_elog`. -/
def pllua_elog (pg : Errstart) (site : Site) (r : Report) : ErrorData where
  elevel := r.elevel
  sqlerrcode := if r.e_code ≠ 0 then r.e_code else pg.default_code r.elevel
  message := some r.e_message
  detail := r.e_detail
  hint := r.e_hint
  context := if r.hidecontext then none else site.context
  message_id := some (c_string (ascii "%s"))
  schema_name := r.e_schema
  table_name := r.e_table
  column_name := r.e_column
  datatype_name := r.e_datatype
  constraint_name := r.e_constraint
  cursorpos := 0
  internalpos := 0
  internalquery := none
  filename := some site.filename
  lineno := site.lineno
  funcname := some site.funcname

/-- `pllua_push_errcode`, with the table of the codes in the upvalue. -/
def pllua_push_errcode (errcode : Int) (t : Errcodes) : Value × Errcodes :=
  match gettable ecodes t (.integer (Int64.ofInt errcode)) with
  | (.nil, t) => (.string (pllua_decode_sqlstate errcode).2, t)
  | found => found

/-- `PUSHSTR` -/
def PUSHSTR (s : Option CString) : Value := (s.map fun s => Value.string s.val).getD .nil

/-- `pllua_errobject_index` -/
def pllua_errobject_index (e : ErrorData) (key : String) (t : Errcodes) : Value × Errcodes :=
  match key with
  | "category" => pllua_push_errcode ecodes (ERRCODE_TO_CATEGORY e.sqlerrcode) t
  | "context" => (PUSHSTR e.context, t)
  | "column" => (PUSHSTR e.column_name, t)
  | "constraint" => (PUSHSTR e.constraint_name, t)
  | "datatype" => (PUSHSTR e.datatype_name, t)
  | "detail" => (PUSHSTR e.detail, t)
  | "errcode" => pllua_push_errcode ecodes e.sqlerrcode t
  | "hint" => (PUSHSTR e.hint, t)
  | "internal_position" => (.integer e.internalpos, t)
  | "internal_query" => (PUSHSTR e.internalquery, t)
  | "message" => (PUSHSTR e.message, t)
  | "message_id" => (PUSHSTR e.message_id, t)
  | "pg_source_file" => (PUSHSTR e.filename, t)
  | "pg_source_function" => (PUSHSTR e.funcname, t)
  | "pg_source_line" => (.integer e.lineno, t)
  | "position" => (.integer e.cursorpos, t)
  | "schema" => (PUSHSTR e.schema_name, t)
  | "severity" => (.string (ascii (pllua_push_severity e.elevel false)), t)
  | "sqlstate" => (.string (pllua_decode_sqlstate e.sqlerrcode).2, t)
  | "table" => (PUSHSTR e.table_name, t)
  | _ => (.nil, t)

/-! ## Levels and classes -/

/-- The class of the code is one of those that are no errors. -/
def Code.Success (c : Code) : Prop := c.s.take 2 ∈ [ascii "00", ascii "01", ascii "02"]

instance (c : Code) : Decidable (Code.Success c) :=
  inferInstanceAs (Decidable (_ ∈ [_, _, _]))

theorem category_code (c : Code) :
    ERRCODE_TO_CATEGORY (sqlstate_of c.s) =
      PGSIXBIT (c.s.getD 0 0) + PGSIXBIT (c.s.getD 1 0) * 2 ^ 6 := by
  have six (k : Nat) : 0 ≤ PGSIXBIT (c.s.getD k 0) ∧ PGSIXBIT (c.s.getD k 0) < 64 := by
    unfold PGSIXBIT
    omega
  have h0 := six 0
  have h1 := six 1
  unfold ERRCODE_TO_CATEGORY sqlstate_of MAKE_SQLSTATE
  omega

theorem is_success_iff (c : Code) : is_success (sqlstate_of c.s) = true ↔ Code.Success c := by
  obtain ⟨s, hs⟩ := c
  match s, hs with
  | [c0, c1, c2, c3, c4], hs =>
    have h0 := sixbit_of_code_char (hs.2 c0 (by simp))
    have h1 := sixbit_of_code_char (hs.2 c1 (by simp))
    have hcat := category_code ⟨[c0, c1, c2, c3, c4], hs⟩
    have hcodes : code "00000" = 0 ∧ code "01000" = 64 ∧ code "02000" = 128 := by decide
    have hclasses : [ascii "00", ascii "01", ascii "02"] = [[48, 48], [48, 49], [48, 50]] := by
      decide
    simp only [List.getD_cons_zero, List.getD_cons_succ] at hcat
    unfold is_success Code.Success
    rw [hcat, hclasses, hcodes.1, hcodes.2.1, hcodes.2.2]
    simp only [Bool.or_eq_true, beq_iff_eq, List.take_succ_cons, List.take_zero, List.mem_cons,
      List.cons.injEq, and_true, List.not_mem_nil, or_false, ← UInt8.toNat_inj]
    have h48 : (48 : UInt8).toNat = 48 := rfl
    have h49 : (49 : UInt8).toNat = 49 := rfl
    have h50 : (50 : UInt8).toNat = 50 := rfl
    omega

/-- The integer of a code. -/
def Coded (ec : Int) : Prop := ∃ c : Code, ec = sqlstate_of c.s

theorem coded_zero : Coded 0 := ⟨⟨ascii "00000", by decide⟩, by decide⟩

theorem default_code_coded (pg : Errstart) (elevel : Elevel) :
    ∃ c : Code, pg.default_code elevel = sqlstate_of c.s ∧
      (Code.Success c ↔ elevel.is_error = false) := by
  cases herr : elevel.is_error with
  | true =>
    rw [pg.error herr]
    exact ⟨⟨ascii "XX000", by decide⟩, by decide, by decide⟩
  | false =>
    by_cases hwarning : elevel = .WARNING
    · rw [hwarning, pg.warning]
      exact ⟨⟨ascii "01000", by decide⟩, by decide, by decide⟩
    · rw [pg.other herr hwarning]
      exact ⟨⟨ascii "00000", by decide⟩, by decide, by decide⟩

variable {ecodes}

theorem get_sqlstate_coded {t : Errcodes} (h : Open ecodes t) (str : CString) :
    Coded (pllua_get_sqlstate ecodes t str).1 := by
  rw [get_sqlstate_open ecodes h]
  split
  · rename_i hcode
    exact ⟨⟨str.val, hcode⟩, rfl⟩
  · cases named ecodes str.val with
    | none => exact coded_zero
    | some c => exact ⟨c, rfl⟩

theorem elog_args_coded {t t' : Errcodes} (h : Open ecodes t) {elevel : Elevel} {args : List Arg}
    {r : Report} (hr : elog_args ecodes elevel args t = (.ok r, t')) :
    Coded r.e_code := by
  unfold elog_args at hr
  split at hr
  · rename_i text fields
    cases hsql : (fields "sqlstate").map c_string with
    | none =>
      simp only [hsql] at hr
      cases hr
      exact coded_zero
    | some str =>
      simp only [hsql] at hr
      cases hr
      exact get_sqlstate_coded h str
  · cases hr
    exact coded_zero
  · rename_i sqlstate message rest
    have hcode := get_sqlstate_coded h (c_string sqlstate.text)
    generalize pllua_get_sqlstate ecodes t (c_string sqlstate.text) = got at hr hcode
    dsimp only at hr
    split at hr
    · cases hr
      exact hcode
    · cases hr
      exact hcode
    · cases hr
      exact hcode
    · cases hr
  · cases hr

theorem p_elog_coded {t t' : Errcodes} (h : Open ecodes t) {upvalue : Option Elevel}
    {args : List Arg} {r : Report} (hr : pllua_p_elog ecodes upvalue args t = (.ok r, t')) :
    ∃ r₀, Coded r₀.e_code ∧ r = consistent r₀ := by
  have hargs : ∀ (elevel : Elevel) (args : List Arg),
      (elog_args ecodes elevel args t).1.map consistent = .ok r →
        ∃ r₀, Coded r₀.e_code ∧ r = consistent r₀ := by
    intro elevel args hr
    obtain ⟨r₀, hr₀, hr⟩ := map_eq_ok hr
    exact ⟨r₀, elog_args_coded h (Prod.ext hr₀ rfl), hr.symm⟩
  have hr := congrArg Prod.fst hr
  unfold pllua_p_elog at hr
  cases upvalue with
  | some elevel => exact hargs elevel args hr
  | none =>
    cases args with
    | nil => cases hr
    | cons level args =>
      cases hlevel : elevels.find? fun (e : String × Elevel) => ascii e.1 = c_text level.text with
      | none =>
        simp only [hlevel] at hr
        cases hr
      | some found =>
        simp only [hlevel] at hr
        exact hargs found.2 args hr

theorem index_sqlstate (e : ErrorData) (t : Errcodes) :
    pllua_errobject_index ecodes e "sqlstate" t =
      (.string (pllua_decode_sqlstate e.sqlerrcode).2, t) := rfl

theorem consistent_code (pg : Errstart) {r : Report} (h : Coded r.e_code) (site : Site) :
    ∃ c : Code, (pllua_elog pg site (consistent r)).sqlerrcode = sqlstate_of c.s ∧
      (Code.Success c ↔ (consistent r).elevel.is_error = false) := by
  have dropped : ∀ r : Report, r.e_code = 0 →
      (pllua_elog pg site r).sqlerrcode = pg.default_code r.elevel := by
    intro r hzero
    dsimp only [pllua_elog]
    rw [if_neg (not_not.mpr hzero)]
  unfold consistent
  by_cases hmismatch : is_success r.e_code = r.elevel.is_error
  · rw [if_pos hmismatch, dropped _ rfl]
    exact default_code_coded pg r.elevel
  · rw [if_neg hmismatch]
    by_cases hzero : r.e_code = 0
    · rw [dropped r hzero]
      exact default_code_coded pg r.elevel
    · obtain ⟨c, hc⟩ := h
      refine ⟨c, ?_, ?_⟩
      · dsimp only [pllua_elog]
        rw [if_pos hzero, hc]
      · rw [← is_success_iff, ← hc]
        cases hs : is_success r.e_code <;> cases he : r.elevel.is_error <;> simp_all

/-- Whatever was looked up before and whatever the arguments are, the code that is reported goes
with the level, and is the one that the error object shows. -/
theorem the_code_goes_with_the_level (pg : Errstart) {uses : List Use} {upvalue : Option Elevel}
    {args : List Arg} {r : Report} {t' : Errcodes}
    (hr : pllua_p_elog ecodes upvalue args (after ecodes uses) = (.ok r, t')) (site : Site)
    (t : Errcodes) :
    ∃ c : Code, (pllua_elog pg site r).sqlerrcode = sqlstate_of c.s ∧
      (Code.Success c ↔ (pllua_elog pg site r).elevel.is_error = false) ∧
      (pllua_errobject_index ecodes (pllua_elog pg site r) "sqlstate" t).1 = .string c.s := by
  obtain ⟨r₀, hcode, rfl⟩ := p_elog_coded (after_open ecodes uses) hr
  obtain ⟨c, hc, hlevel⟩ := consistent_code pg hcode site
  refine ⟨c, hc, hlevel, ?_⟩
  rw [index_sqlstate, hc, decode_code]

/-- `elog("warning", "22012", "no")` -/
def a_warning : List Arg :=
  [⟨ascii "warning", none⟩, ⟨ascii "22012", none⟩, ⟨ascii "no", none⟩]

/-- The codes of PostgreSQL. -/
def postgresql : Errstart where
  default_code elevel :=
    if elevel.is_error then code "XX000"
    else if elevel = .WARNING then code "01000"
    else code "00000"
  error h := if_pos h
  warning := rfl
  other h hne := by rw [if_neg (by rw [h]; nofun), if_neg hne]

def nowhere : Site where
  filename := c_string []
  lineno := 0
  funcname := c_string []
  context := none

theorem a_warning_is_no_division :
    ∃ r t', pllua_p_elog [division_by_zero] none a_warning (after [division_by_zero] []) =
        (.ok r, t') ∧
      ∃ c : Code, (pllua_elog postgresql nowhere r).sqlerrcode = sqlstate_of c.s ∧
        Code.Success c := by
  refine ⟨_, _, rfl, ?_⟩
  obtain ⟨c, hc, hlevel, -⟩ := the_code_goes_with_the_level postgresql
    (show pllua_p_elog [division_by_zero] none a_warning (after [division_by_zero] []) = (.ok _, _)
      from rfl) nowhere .new
  exact ⟨c, hc, hlevel.mpr rfl⟩

/-! ## Errors that are raised again -/

/-- The text of a field in a table. -/
def Value.text : Value → Option (List UInt8)
  | .string s => some s
  | _ => none

variable (ecodes) in
/-- A table of the fields of an error, as `error` takes it. -/
def fields_of (e : ErrorData) (t : Errcodes) : Arg where
  text := []
  fields := some fun name => Value.text (pllua_errobject_index ecodes e name t).1

variable (ecodes) in
/-- `error` of a table of the fields of a caught error, and the error that is caught then. The
table of the codes was used in between. -/
def Again (pg : Errstart) (e e' : ErrorData) : Prop :=
  ∃ (uses uses' : List Use) (r : Report) (t : Errcodes) (site : Site),
    pllua_p_elog ecodes (some .ERROR) [fields_of ecodes e (after ecodes uses)]
      (after ecodes uses') = (.ok r, t) ∧ e' = pllua_elog pg site r

def no_message : CString := c_string (ascii "(no message given)")

/-- What is the same in an error that is raised again. -/
structure Raised (e e' : ErrorData) (c : Code) : Prop where
  elevel : e'.elevel = .ERROR
  sqlerrcode : e'.sqlerrcode = if Code.Success c then code "XX000" else sqlstate_of c.s
  message : e'.message = some (e.message.getD no_message)
  detail : e'.detail = e.detail
  hint : e'.hint = e.hint
  column : e'.column_name = e.column_name
  constraint : e'.constraint_name = e.constraint_name
  datatype : e'.datatype_name = e.datatype_name
  table : e'.table_name = e.table_name
  schema : e'.schema_name = e.schema_name

theorem c_string_val (s : CString) : c_string s.val = s :=
  Subtype.ext (c_text_no_zero s.property)

@[simp] theorem text_PUSHSTR (s : Option CString) :
    (Value.text (PUSHSTR s)).map c_string = s := by
  cases s with
  | none => rfl
  | some s => exact congrArg some (c_string_val s)

theorem again_code {t : Errcodes} (h : Open ecodes t) (c : Code) :
    (pllua_get_sqlstate ecodes t (c_string c.s)).1 = sqlstate_of c.s := by
  have hc : c_string c.s = c.str := c_string_val c.str
  rw [hc, get_sqlstate_open ecodes h]
  exact if_pos c.is_code

/-- An error has the code that it is raised with, unless that is one of no error. -/
theorem error_code (pg : Errstart) (c : Code) :
    (let e_code := if is_success (sqlstate_of c.s) = true then 0 else sqlstate_of c.s
     if e_code ≠ 0 then e_code else pg.default_code .ERROR) =
      if Code.Success c then code "XX000" else sqlstate_of c.s := by
  dsimp only
  by_cases hsuccess : Code.Success c
  · rw [if_pos ((is_success_iff c).mpr hsuccess), if_pos hsuccess, ← @pg.error .ERROR rfl]
    rfl
  · have hzero : sqlstate_of c.s ≠ 0 := by
      intro hzero
      have hno : is_success 0 = true := by decide
      exact hsuccess ((is_success_iff c).mp (hzero ▸ hno))
    rw [if_neg (mt (is_success_iff c).mp hsuccess), if_neg hsuccess, if_pos hzero]

theorem consistent_eq (r : Report) :
    consistent r =
      { r with e_code := if is_success r.e_code = r.elevel.is_error then 0 else r.e_code } := by
  unfold consistent
  split <;> rfl

theorem fields_shown (e : ErrorData) (t : Errcodes) :
    let field := fun name => (Value.text (pllua_errobject_index ecodes e name t).1).map c_string
    field "sqlstate" = some (c_string (pllua_decode_sqlstate e.sqlerrcode).2) ∧
      field "message" = e.message ∧ field "detail" = e.detail ∧ field "hint" = e.hint ∧
      field "column" = e.column_name ∧ field "constraint" = e.constraint_name ∧
      field "datatype" = e.datatype_name ∧ field "table" = e.table_name ∧
      field "schema" = e.schema_name :=
  ⟨rfl, text_PUSHSTR _, text_PUSHSTR _, text_PUSHSTR _, text_PUSHSTR _, text_PUSHSTR _,
    text_PUSHSTR _, text_PUSHSTR _, text_PUSHSTR _⟩

theorem again_raised {pg : Errstart} {e e' : ErrorData} {c : Code}
    (hc : e.sqlerrcode = sqlstate_of c.s) (h : Again ecodes pg e e') : Raised e e' c := by
  obtain ⟨uses, uses', r, t, site, hr, rfl⟩ := h
  have hcode := again_code (after_open ecodes uses') c
  obtain ⟨hsql, hmessage, hdetail, hhint, hcolumn, hconstraint, hdatatype, htable, hschema⟩ :=
    @fields_shown ecodes e (after ecodes uses)
  rw [hc, decode_code] at hsql
  simp only [pllua_p_elog, elog_args, fields_of, hsql, hmessage, hdetail, hhint, hcolumn,
    hconstraint, hdatatype, htable, hschema, hcode] at hr
  obtain ⟨hr, -⟩ := Prod.mk.inj hr
  cases hr
  rw [consistent_eq]
  exact
    { elevel := rfl
      sqlerrcode := error_code pg c
      message := rfl
      detail := rfl
      hint := rfl
      column := rfl
      constraint := rfl
      datatype := rfl
      table := rfl
      schema := rfl }

/-- The code of an error that is raised again is one that stays. -/
theorem Raised.code_of {e e' : ErrorData} {c : Code} (h : Raised e e' c) :
    ∃ c' : Code, e'.sqlerrcode = sqlstate_of c'.s ∧ ¬ Code.Success c' := by
  by_cases hsuccess : Code.Success c
  · refine ⟨⟨ascii "XX000", by decide⟩, ?_, by decide⟩
    rw [h.sqlerrcode, if_pos hsuccess]
    rfl
  · refine ⟨c, ?_, hsuccess⟩
    rw [h.sqlerrcode, if_neg hsuccess]

theorem Raised.trans {e e' e'' : ErrorData} {c c' : Code} (h : Raised e e' c)
    (hc' : e'.sqlerrcode = sqlstate_of c'.s) (hstays : ¬ Code.Success c')
    (h' : Raised e' e'' c') : Raised e e'' c where
  elevel := h'.elevel
  sqlerrcode := by rw [h'.sqlerrcode, if_neg hstays, ← hc', h.sqlerrcode]
  message := by rw [h'.message, h.message]; rfl
  detail := h'.detail.trans h.detail
  hint := h'.hint.trans h.hint
  column := h'.column.trans h.column
  constraint := h'.constraint.trans h.constraint
  datatype := h'.datatype.trans h.datatype
  table := h'.table.trans h.table
  schema := h'.schema.trans h.schema

theorem run_raised {pg : Errstart} {e e' : ErrorData} {c : Code}
    (hc : e.sqlerrcode = sqlstate_of c.s) (h : Relation.TransGen (Again ecodes pg) e e') :
    Raised e e' c := by
  induction h with
  | single hagain => exact again_raised hc hagain
  | tail _ hagain ih =>
    obtain ⟨c', hc', hstays⟩ := ih.code_of
    exact ih.trans hc' hstays (again_raised hc' hagain)

/-- A code has the same name in the table at all times. -/
theorem push_errcode_open {t t' : Errcodes} (h : Open ecodes t) (h' : Open ecodes t')
    (errcode : Int) :
    (pllua_push_errcode ecodes errcode t).1 = (pllua_push_errcode ecodes errcode t').1 := by
  have shown : ∀ t, Open ecodes t → (pllua_push_errcode ecodes errcode t).1 =
      if found ecodes (.integer (Int64.ofInt errcode)) = .nil
      then .string (pllua_decode_sqlstate errcode).2
      else found ecodes (.integer (Int64.ofInt errcode)) := by
    intro t ht
    have hfound := (gettable_open ecodes ht (.integer (Int64.ofInt errcode))).1
    unfold pllua_push_errcode
    generalize gettable ecodes t (.integer (Int64.ofInt errcode)) = got at hfound
    obtain ⟨v, t₁⟩ := got
    rw [← hfound]
    cases v <;> rfl
  rw [shown t h, shown t' h']

/-- However often an error is raised again from its fields, and whatever was looked up in between,
its level, code and fields are the ones that the first time gives. -/
theorem an_error_stays_the_same {pg : Errstart} {e e' : ErrorData} {c : Code}
    (hc : e.sqlerrcode = sqlstate_of c.s) (h : Relation.TransGen (Again ecodes pg) e e') :
    Raised e e' c ∧
    (¬ Code.Success c → ∀ (uses uses' : List Use),
      ∀ key ∈ ["category", "column", "constraint", "datatype", "detail", "errcode", "hint",
          "schema", "sqlstate", "table"],
        (pllua_errobject_index ecodes e' key (after ecodes uses')).1 =
          (pllua_errobject_index ecodes e key (after ecodes uses)).1) := by
  have hraised := run_raised hc h
  refine ⟨hraised, fun hstays uses uses' => ?_⟩
  have hcode : e'.sqlerrcode = e.sqlerrcode := by
    rw [hraised.sqlerrcode, if_neg hstays, hc]
  have errcode := push_errcode_open (after_open ecodes uses') (after_open ecodes uses)
  simp only [List.forall_mem_cons]
  refine ⟨?_, congrArg PUSHSTR hraised.column, congrArg PUSHSTR hraised.constraint,
    congrArg PUSHSTR hraised.datatype, congrArg PUSHSTR hraised.detail, ?_,
    congrArg PUSHSTR hraised.hint, congrArg PUSHSTR hraised.schema, ?_,
    congrArg PUSHSTR hraised.table, List.forall_mem_nil _⟩
  · have hcategory := errcode (ERRCODE_TO_CATEGORY e'.sqlerrcode)
    exact hcategory.trans (by rw [hcode]; rfl)
  · exact (errcode e'.sqlerrcode).trans (by rw [hcode]; rfl)
  · rw [index_sqlstate, index_sqlstate, hcode]

/-- `error("22012", "no")`, caught -/
def a_division : ErrorData :=
  pllua_elog postgresql nowhere
    { elevel := .ERROR, hidecontext := false, e_code := code "22012"
      e_message := c_string (ascii "no"), e_detail := none, e_hint := none, e_column := none
      e_constraint := none, e_datatype := none, e_table := none, e_schema := none }

theorem a_division_stays : Raised a_division a_division ⟨ascii "22012", by decide⟩ := by
  have again : Again [division_by_zero] postgresql a_division a_division :=
    ⟨[], [.error (c_string (ascii "division_by_zero"))], _, _, nowhere, rfl, rfl⟩
  exact (an_error_stays_the_same (by decide) (.tail (.single again) again)).1

end pllua.reports
