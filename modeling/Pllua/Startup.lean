-- The start of an interpreter, before the database can be used: the user's on_init
-- string runs with the functions that the modules of phase 1 register.
import Pllua.ProtectedCalls
import Pllua.Runs

open pllua.runs
open pllua.errors (Value ErrorData ErrorObject ErrorRef Thrown pending_error_violation)

namespace pllua.startup

/-! ## The registered functions -/

/-- The C functions that the modules register. -/
inductive CFunction
  | pllua_t_pcall | pllua_t_xpcall | pllua_t_lpcall | pllua_subtransaction | pllua_t_coresume
  | pllua_t_warn | pllua_p_print | pllua_p_elog
  | pllua_errobject_type | pllua_errobject_errcode | pllua_errobject_category
  | pllua_errobject_gc | pllua_errobject_tostring | pllua_errobject_index
  | pllua_errcodes_index | pllua_errcodes_newindex
  | pllua_get_path
  | pllua_trusted_allow | pllua_trusted_remove | pllua_trusted_mode_direct
  | pllua_trusted_mode_scopy | pllua_trusted_mode_sproxy | pllua_trusted_mode_outer
  | pllua_t_load | pllua_t_require | pllua_package_preload_search | pllua_package_allowed_search
  | pllua_stack_check_wrapper
deriving DecidableEq, Repr

/-- The tables that the functions are registered in. -/
inductive Table
  | errfuncs | errfuncs2 | glob_errfuncs | co_errfuncs | errobj_mt | errtab_mt
  | print | path_funcs
  | trusted_funcs | trusted_modes_funcs | sandbox_funcs | package | searchers
  | stack_wrap_list
  | elog
deriving DecidableEq, Repr

def Table.funcs : Table → List (String × CFunction)
  | .errfuncs => [("pcall", .pllua_t_pcall), ("xpcall", .pllua_t_xpcall),
      ("spcall", .pllua_t_pcall), ("sxpcall", .pllua_t_xpcall), ("lpcall", .pllua_t_lpcall),
      ("subtransaction", .pllua_subtransaction), ("type", .pllua_errobject_type)]
  | .errfuncs2 => [("errcode", .pllua_errobject_errcode), ("category", .pllua_errobject_category)]
  | .glob_errfuncs => [("warn", .pllua_t_warn), ("pcall", .pllua_t_pcall),
      ("xpcall", .pllua_t_xpcall), ("lpcall", .pllua_t_lpcall)]
  | .co_errfuncs => [("resume", .pllua_t_coresume)]
  | .errobj_mt => [("__gc", .pllua_errobject_gc), ("__tostring", .pllua_errobject_tostring),
      ("__index", .pllua_errobject_index)]
  | .errtab_mt => [("__index", .pllua_errcodes_index), ("__newindex", .pllua_errcodes_newindex)]
  | .print => [("print", .pllua_p_print)]
  | .path_funcs => ["bin", "doc", "etc", "html", "include", "includeserver", "lib", "libdir",
      "locale", "man", "pkginclude", "pkglib", "share"].map fun name => (name, .pllua_get_path)
  | .trusted_funcs => [("_allow", .pllua_trusted_allow), ("remove", .pllua_trusted_remove)]
  | .trusted_modes_funcs => [("direct", .pllua_trusted_mode_direct),
      ("scopy", .pllua_trusted_mode_scopy), ("sproxy", .pllua_trusted_mode_sproxy),
      ("copy", .pllua_trusted_mode_outer), ("proxy", .pllua_trusted_mode_outer)]
  | .sandbox_funcs => [("load", .pllua_t_load)]
  | .package => [("require", .pllua_t_require)]
  | .searchers => [("preload", .pllua_package_preload_search),
      ("allowed", .pllua_package_allowed_search)]
  | .stack_wrap_list => [("format", .pllua_stack_check_wrapper),
      ("gsub", .pllua_stack_check_wrapper), ("concat", .pllua_stack_check_wrapper)]
  | .elog => ["debug", "log", "info", "notice", "warning", "error", "elog"].map
      fun name => (name, .pllua_p_elog)

/-! ## The state -/

/-- Calls into PostgreSQL. -/
inductive Op
  | BeginInternalSubTransaction
  | ReleaseCurrentSubTransaction
  | RollbackAndReleaseCurrentSubTransaction
  | SPI_connect
  | ereport
  | FreeErrorData
deriving DecidableEq, Repr

def Op.needs_database : Op → Bool
  | .ereport | .FreeErrorData => false
  | _ => true

/-- The calls under way. -/
inductive Frame
  /-- the on_init string -/
  | on_init
  /-- a C function that calls a Lua function without protection, or a metamethod -/
  | call
  /-- `load`, whose reader function runs in protected mode -/
  | load
  | lpcall
  /-- `handling` says that the message handler runs on top -/
  | lxpcall (handling : Bool)
  | resume (co : Nat) (wrapped : Bool)
  /-- `pllua_t_pcall_guts`. `aborted` says that the error function runs on top. -/
  | guts (is_xpcall aborted : Bool)
  /-- a finalizer -/
  | gc
deriving DecidableEq, Repr

inductive Thread
  | suspended (frames : List Frame)
  | running
  | dead
deriving DecidableEq, Repr

inductive Control
  | lua (st : List Frame)
  | throw (t : Thrown) (st : List Frame)
  /-- phase 1 is over -/
  | waiting
  /-- `lua_close` -/
  | closing
deriving DecidableEq, Repr

/-- `pllua_interpreter`, as far as the functions read it. -/
structure Interp where
  db_ready : Bool
  active_error : ErrorRef
deriving DecidableEq, Repr

structure Machine where
  control : Control
  /-- what `pllua_getinterpreter` gives -/
  interp : Option Interp
  /-- `pllua_pending_error` -/
  pending : Bool
  threads : Nat → Thread
  next_error : Nat
  /-- whether the module pllua.elog is loaded -/
  elog : Bool
  /-- the calls into PostgreSQL, the last one first -/
  ops : List Op

/-- What memory, the C stack, PostgreSQL and the arguments decide in one step. -/
structure Luck where
  too_deep : Bool
  /-- the error of an argument that is not valid -/
  badarg : Option Value
  pg_error : Option ErrorData
  no_object : Bool
  /-- Lua does not call a message handler inside a message handler -/
  no_handler : Bool
  /-- the error of a finalizer is thrown by the collector -/
  gc_throws : Bool
  /-- the coroutine to be resumed -/
  co : Nat

def Machine.emit (m : Machine) (op : Op) : Machine := { m with ops := op :: m.ops }

def Machine.to (m : Machine) (control : Control) : Machine := { m with control }

def Machine.set_thread (m : Machine) (co : Nat) (t : Thread) : Machine :=
  { m with threads := Function.update m.threads co t }

def Machine.raise (m : Machine) (v : Value) (st : List Frame) : Machine :=
  m.to (.throw (.raised v) st)

/-- Back to the code below. Below the finalizers that `lua_close` calls is no code. -/
def Machine.back (m : Machine) (st : List Frame) : Machine :=
  match st with
  | [] => m.to .closing
  | st => m.to (.lua st)

/-! ## Errors -/

def Machine.set_active (m : Machine) (r : ErrorRef) : Machine :=
  { m with interp := m.interp.map fun i => { i with active_error := r } }

/-- `pllua_register_error`. -/
def pllua_register_error (o : ErrorObject) (m : Machine) : Machine :=
  match m.interp with
  | some ⟨true, .noref⟩ => m
  | some ⟨true, _⟩ => m.set_active (.ref o)
  | _ => m

/-- `pllua_get_active_error`. -/
def pllua_get_active_error (m : Machine) : Option ErrorObject :=
  match m.interp with
  | some ⟨_, .noref⟩ => some .recursive
  | some ⟨_, .ref o⟩ => some o
  | _ => none

/-- `pllua_absorb_pg_error`. -/
def pllua_absorb_pg_error (luck : Luck) (e : ErrorData) (m : Machine) : ErrorObject × Machine :=
  if luck.no_object then (.recursive, m.set_active .noref)
  else
    let o := .object m.next_error e
    (o, pllua_register_error o { m with next_error := m.next_error + 1 })

/-- `pllua_rethrow_from_pg`. -/
def pllua_rethrow_from_pg (luck : Luck) (e : ErrorData) (st : List Frame) (m : Machine) : Machine :=
  let (o, m) := pllua_absorb_pg_error luck e m
  ({ m with pending := true }).raise (.error o) st

/-- `pllua_elog`, which may run with an error pending. -/
def pllua_elog (luck : Luck) (st : List Frame) (m : Machine) : Machine :=
  let m := m.emit .ereport
  match luck.pg_error with
  | none => m.back st
  | some e => pllua_rethrow_from_pg luck e st m

/-! ## Protected calls -/

/-- The error of `PLLUA_CHECK_PG_STACK_DEPTH`. -/
def stack_depth_exceeded : Value := .string "stack depth exceeded"

/-- The checks before a protected call. -/
def checked (luck : Luck) (st : List Frame) (m : Machine) (enter : Machine) : Machine :=
  if luck.too_deep then m.raise stack_depth_exceeded st
  else
    match luck.badarg with
    | some v => m.raise v st
    | none => enter

/-- `pllua_t_pcall_guts` up to the call of the protected function. -/
def pllua_t_pcall_guts (is_xpcall : Bool) (luck : Luck) (st : List Frame) (m : Machine) : Machine :=
  checked luck st m <|
    if m.pending then m.raise pending_error_violation st
    else
      let m := m.emit .BeginInternalSubTransaction
      match luck.pg_error with
      | some e =>
        let (o, m) := pllua_absorb_pg_error luck e m
        m.raise (.error o) st
      | none => m.to (.lua (.guts is_xpcall false :: st))

/-- `pllua_t_lpcall` up to the call. -/
def pllua_t_lpcall (luck : Luck) (st : List Frame) (m : Machine) : Machine :=
  checked luck st m (m.to (.lua (.lpcall :: st)))

/-- `pllua_t_lxpcall` up to the call. -/
def pllua_t_lxpcall (luck : Luck) (st : List Frame) (m : Machine) : Machine :=
  checked luck st m (m.to (.lua (.lxpcall false :: st)))

def Machine.db_ready (m : Machine) : Bool :=
  match m.interp with
  | some i => i.db_ready
  | none => false

/-- `pllua_t_pcall`. -/
def pllua_t_pcall (luck : Luck) (st : List Frame) (m : Machine) : Machine :=
  if m.db_ready then pllua_t_pcall_guts false luck st m else pllua_t_lpcall luck st m

/-- `pllua_t_xpcall`. -/
def pllua_t_xpcall (luck : Luck) (st : List Frame) (m : Machine) : Machine :=
  if m.db_ready then pllua_t_pcall_guts true luck st m else pllua_t_lxpcall luck st m

/-- `pllua_subtransaction`. It has one argument in any case. -/
def pllua_subtransaction (luck : Luck) (st : List Frame) (m : Machine) : Machine :=
  if m.interp.isNone then
    m.raise (.string "cannot create subtransaction inside on_init string") st
  else pllua_t_pcall_guts false { luck with badarg := none } st m

/-- `pllua_subxact_abort`. -/
def pllua_subxact_abort (m : Machine) : Machine :=
  { m.emit .RollbackAndReleaseCurrentSubTransaction with pending := false }

/-- The end of `finishpcall` when the call has failed. -/
def finishpcall (v : Value) (st : List Frame) (m : Machine) : Machine :=
  match v, pllua_get_active_error m with
  | .error o, _ => m.raise (.error o) st
  | _, some o => m.raise (.error o) st
  | _, none => m.back st

/-- The end of `pllua_t_pcall_guts` when the call has failed. -/
def guts_failed (aborted : Bool) (luck : Luck) (st : List Frame) (m : Machine) : Machine :=
  if aborted then
    match pllua_get_active_error m with
    | some o => m.raise (.error o) st
    | none => m.back st
  else
    let m := pllua_subxact_abort m
    match luck.pg_error with
    | some e =>
      let (o, m) := pllua_absorb_pg_error luck e m
      m.raise (.error o) st
    | none => (m.set_active .refnil).back st

/-! ## Coroutines -/

/-- `pllua_t_coresume`, and `coroutine.wrap`. -/
def pllua_t_coresume (wrapped : Bool) (luck : Luck) (st : List Frame) (m : Machine) : Machine :=
  match luck.badarg, m.threads luck.co with
  | some v, _ => m.raise v st
  | none, .suspended frames =>
    (m.set_thread luck.co .running).to (.lua (frames ++ .resume luck.co wrapped :: st))
  | none, _ => if wrapped then m.raise (.string "cannot resume dead coroutine") st else m.back st

/-- The frames of a coroutine that yields. Only `lpcall` and `lxpcall` can be left. -/
def yielded : List Frame → Option (List Frame × Nat × List Frame)
  | .resume co _ :: st => some ([], co, st)
  | .lpcall :: st => (yielded st).map fun (frames, co, st) => (.lpcall :: frames, co, st)
  | .lxpcall false :: st =>
    (yielded st).map fun (frames, co, st) => (.lxpcall false :: frames, co, st)
  | _ => none

def lua_yield (st : List Frame) (m : Machine) : Machine :=
  match yielded st with
  | some (frames, co, st) => (m.set_thread co (.suspended frames)).back st
  | none => m.raise (.string "attempt to yield across a C-call boundary") st

/-! ## Steps -/

/-- A C function of a module is called. A function that only computes may raise an error
for its arguments, and one that calls other functions may call any. -/
def run_cfunction (luck : Luck) (st : List Frame) (m : Machine) : CFunction → Machine
  | .pllua_t_pcall => pllua_t_pcall luck st m
  | .pllua_t_xpcall => pllua_t_xpcall luck st m
  | .pllua_t_lpcall => pllua_t_lpcall luck st m
  | .pllua_subtransaction => pllua_subtransaction luck st m
  | .pllua_t_coresume => pllua_t_coresume false luck st m
  | .pllua_t_warn | .pllua_p_print | .pllua_p_elog =>
    match luck.badarg with
    | some v => m.raise v st
    | none => pllua_elog luck st m
  | .pllua_errobject_gc =>
    if m.pending then m.raise pending_error_violation st
    else (m.emit .FreeErrorData).back st
  | .pllua_trusted_allow | .pllua_trusted_mode_scopy | .pllua_trusted_mode_sproxy
  | .pllua_trusted_mode_outer | .pllua_t_load | .pllua_t_require
  | .pllua_package_allowed_search | .pllua_stack_check_wrapper =>
    checked luck st m (m.to (.lua (.call :: st)))
  | .pllua_errcodes_newindex => m.raise (.string "errcodes table is immutable") st
  | _ =>
    match luck.badarg with
    | some v => m.raise v st
    | none => m.back st

/-- The Lua function on top returns. -/
def return_lua (v : Value) (luck : Luck) (m : Machine) : List Frame → Machine
  | [] => m.to .closing
  | .on_init :: _ => { m.to .waiting with elog := true }
  | .lxpcall true :: st => m.to (.throw (.handled v) (.lxpcall false :: st))
  | .guts true true :: st => m.to (.throw (.handled v) (.guts true true :: st))
  | .guts _ _ :: st =>
    match luck.pg_error with
    | none => (m.emit .ReleaseCurrentSubTransaction).back st
    | some e =>
      let (o, m) := pllua_absorb_pg_error luck e (m.emit .ReleaseCurrentSubTransaction)
      (pllua_subxact_abort m).raise (.error o) st
  | .resume co _ :: st => (m.set_thread co .dead).back st
  | _ :: st => m.back st

/-- A Lua error meets the next call. -/
def unwind (luck : Luck) (t : Thrown) (m : Machine) : List Frame → Machine
  | [] => m.to .closing
  | .on_init :: _ => (m.emit .ereport).to .closing
  | .call :: st => m.to (.throw t st)
  | .load :: st => m.back st
  | .lpcall :: st => finishpcall t.value st m
  | .lxpcall handling :: st =>
    match t with
    | .raised _ =>
      if handling && luck.no_handler then m.to (.throw .errerr (.lxpcall true :: st))
      else m.to (.lua (.lxpcall true :: st))
    | t => finishpcall t.value st m
  | .guts is_xpcall aborted :: st =>
    match is_xpcall, t with
    | true, .raised _ =>
      if aborted then
        if luck.no_handler then m.to (.throw .errerr (.guts true true :: st))
        else m.to (.lua (.guts true true :: st))
      else ((pllua_subxact_abort m).set_active .refnil).to (.lua (.guts true true :: st))
    | _, _ => guts_failed aborted luck st m
  | .resume co wrapped :: st =>
    let m := m.set_thread co .dead
    match wrapped, t.value with
    | true, v => m.raise v st
    | false, .error o => m.raise (.error o) st
    | false, _ => m.back st
  | .gc :: st => if luck.gc_throws then m.to (.throw t st) else (m.emit .ereport).back st

/-- What the user's code does. -/
inductive Action
  /-- a function of a module -/
  | call (table : Table) (name : String) (luck : Luck)
  /-- a function of the base libraries that calls another one, or a metamethod -/
  | enter
  | load
  | wrapped_resume (luck : Luck)
  | yield
  /-- the collector calls a finalizer -/
  | gc
  | error (v : Value)
  | memory
  | ret (v : Value) (luck : Luck)
  /-- the error goes on -/
  | unwind (luck : Luck)
  /-- the interpreter is destroyed before it was used -/
  | close

/-- The function that a name stands for. -/
def Machine.lookup (m : Machine) (table : Table) (name : String) : Option CFunction :=
  if table = .elog && !m.elog then none else table.funcs.lookup name

def step_lua (st : List Frame) (m : Machine) : Action → Machine
  | .call table name luck =>
    match m.lookup table name with
    | some f => run_cfunction luck st m f
    | none => m.raise (.string "attempt to call a nil value") st
  | .enter => m.to (.lua (.call :: st))
  | .load => m.to (.lua (.load :: st))
  | .wrapped_resume luck => pllua_t_coresume true luck st m
  | .yield => lua_yield st m
  | .gc => m.to (.lua (.gc :: st))
  | .error v => m.raise v st
  | .memory => m.to (.throw .errmem st)
  | .ret v luck => return_lua v luck m st
  | _ => m

/-- One step. An action that does not fit what runs changes nothing. -/
def step (m : Machine) (a : Action) : Machine :=
  match m.control, a with
  | .lua st, a => step_lua st m a
  | .throw t st, .unwind luck => unwind luck t m st
  | .waiting, .close => m.to .closing
  | .closing, .gc => m.to (.lua [.gc])
  | _, _ => m

/-- `pllua_newstate_phase1` when it has loaded the modules. -/
def start : Machine where
  control := .lua [.on_init]
  interp := some ⟨false, .refnil⟩
  pending := false
  threads := fun _ => .suspended []
  next_error := 0
  elog := false
  ops := []

/-! ## The law -/

/-- The action calls `pllua_subtransaction`, under whatever name. -/
def attempts (m : Machine) : Action → Option Luck
  | .call table name luck =>
    match m.control with
    | .lua _ => if m.lookup table name = some .pllua_subtransaction then some luck else none
    | _ => none
  | _ => none

/-- No step has gone to the database, and a step that tries to open a subtransaction
raises a Lua error. -/
structure Safe (m : Machine) (a : Action) : Prop where
  ops : ∀ op ∈ (step m a).ops, op.needs_database = false
  raises : (attempts m a).isSome → ∃ v st, (step m a).control = .throw (.raised v) st

/-- The condition: what stops `pllua_subtransaction` is the depth of the C stack, or an
error that is pending. -/
def Refused (m : Machine) (a : Action) : Prop :=
  ∀ luck, attempts m a = some luck → luck.too_deep = true ∨ m.pending = true

/-! ## The invariant -/

def Frame.is_guts : Frame → Bool
  | .guts _ _ => true
  | _ => false

/-- No subtransaction is open. -/
def Plain (st : List Frame) : Prop := ∀ f ∈ st, f.is_guts = false

def Control.stack : Control → List Frame
  | .lua st => st
  | .throw _ st => st
  | _ => []

structure Inv (m : Machine) : Prop where
  unready : ∃ active_error, m.interp = some ⟨false, active_error⟩
  stack : Plain m.control.stack
  threads : ∀ co frames, m.threads co = .suspended frames → Plain frames
  ops : ∀ op ∈ m.ops, op.needs_database = false

theorem plain_nil : Plain [] := nofun

theorem plain_cons {f : Frame} {st : List Frame} :
    Plain (f :: st) ↔ f.is_guts = false ∧ Plain st := List.forall_mem_cons

theorem plain_append {st st' : List Frame} : Plain (st ++ st') ↔ Plain st ∧ Plain st' :=
  List.forall_mem_append

section
variable {m : Machine}

theorem Inv.to (h : Inv m) {control : Control} (hc : Plain control.stack) : Inv (m.to control) :=
  ⟨h.unready, hc, h.threads, h.ops⟩

theorem Inv.raise (h : Inv m) {st : List Frame} (hst : Plain st) (v : Value) :
    Inv (m.raise v st) := h.to hst

theorem Inv.back (h : Inv m) {st : List Frame} (hst : Plain st) : Inv (m.back st) := by
  unfold Machine.back
  split
  · exact h.to plain_nil
  · exact h.to hst

theorem Inv.emit (h : Inv m) {op : Op} (hop : op.needs_database = false) : Inv (m.emit op) :=
  ⟨h.unready, h.stack, h.threads, List.forall_mem_cons.mpr ⟨hop, h.ops⟩⟩

theorem Inv.set_active (h : Inv m) (r : ErrorRef) : Inv (m.set_active r) := by
  obtain ⟨active_error, hi⟩ := h.unready
  exact ⟨⟨r, by simp [Machine.set_active, hi]⟩, h.stack, h.threads, h.ops⟩

theorem Inv.set_pending (h : Inv m) (b : Bool) : Inv { m with pending := b } :=
  ⟨h.unready, h.stack, h.threads, h.ops⟩

theorem Inv.set_thread (h : Inv m) (co : Nat) {t : Thread}
    (ht : ∀ frames, t = .suspended frames → Plain frames) : Inv (m.set_thread co t) := by
  refine ⟨h.unready, h.stack, ?_, h.ops⟩
  intro co' frames hf
  by_cases hco : co' = co
  · subst hco
    simp only [Machine.set_thread, Function.update_self] at hf
    exact ht frames hf
  · simp only [Machine.set_thread, Function.update_of_ne hco] at hf
    exact h.threads co' frames hf

/-- No error is registered while the database is not ready. -/
theorem Inv.absorb (h : Inv m) (luck : Luck) (e : ErrorData) :
    Inv (pllua_absorb_pg_error luck e m).2 := by
  unfold pllua_absorb_pg_error
  split
  · exact h.set_active .noref
  · obtain ⟨active_error, hi⟩ := h.unready
    have hsame : pllua_register_error (.object m.next_error e)
        { m with next_error := m.next_error + 1 } = { m with next_error := m.next_error + 1 } := by
      unfold pllua_register_error
      simp only [hi]
    simp only [hsame]
    exact ⟨h.unready, h.stack, h.threads, h.ops⟩

theorem Inv.rethrow (h : Inv m) (luck : Luck) (e : ErrorData) {st : List Frame} (hst : Plain st) :
    Inv (pllua_rethrow_from_pg luck e st m) :=
  ((h.absorb luck e).set_pending true).raise hst _

theorem Inv.elog (h : Inv m) (luck : Luck) {st : List Frame} (hst : Plain st) :
    Inv (pllua_elog luck st m) := by
  have hop : Inv (m.emit .ereport) := h.emit rfl
  unfold pllua_elog
  simp only
  split
  · exact hop.back hst
  · exact hop.rethrow luck _ hst

theorem Inv.checked (h : Inv m) (luck : Luck) {st : List Frame} (hst : Plain st) {enter : Machine}
    (he : Inv enter) : Inv (checked luck st m enter) := by
  unfold startup.checked
  split
  · exact h.raise hst _
  · split
    · exact h.raise hst _
    · exact he

/-- The protected calls of a start-up are the light ones. -/
theorem Inv.pcall (h : Inv m) (luck : Luck) {st : List Frame} (hst : Plain st) :
    Inv (pllua_t_pcall luck st m) ∧ Inv (pllua_t_xpcall luck st m) ∧
      Inv (pllua_t_lpcall luck st m) := by
  obtain ⟨active_error, hi⟩ := h.unready
  have hready : m.db_ready = false := by
    unfold Machine.db_ready
    simp only [hi]
  have hlp : Inv (pllua_t_lpcall luck st m) :=
    h.checked luck hst (h.to (plain_cons.mpr ⟨rfl, hst⟩))
  have hlx : Inv (pllua_t_lxpcall luck st m) :=
    h.checked luck hst (h.to (plain_cons.mpr ⟨rfl, hst⟩))
  unfold pllua_t_pcall pllua_t_xpcall
  simp only [hready, Bool.false_eq_true, if_false]
  exact ⟨hlp, hlx, hlp⟩

theorem Inv.finishpcall (h : Inv m) (v : Value) {st : List Frame} (hst : Plain st) :
    Inv (finishpcall v st m) := by
  unfold startup.finishpcall
  split
  · exact h.raise hst _
  · exact h.raise hst _
  · exact h.back hst

theorem Inv.coresume (h : Inv m) (wrapped : Bool) (luck : Luck) {st : List Frame} (hst : Plain st) :
    Inv (pllua_t_coresume wrapped luck st m) := by
  unfold pllua_t_coresume
  split
  · exact h.raise hst _
  · rename_i frames _ hco
    have hf := h.threads luck.co frames hco
    have hrun : Inv (m.set_thread luck.co .running) := by
      apply h.set_thread
      intro frames' he
      cases he
    apply hrun.to
    exact plain_append.mpr ⟨hf, plain_cons.mpr ⟨rfl, hst⟩⟩
  · split
    · exact h.raise hst _
    · exact h.back hst

theorem plain_yielded {st : List Frame} (hst : Plain st) {frames st' : List Frame} {co : Nat}
    (hy : yielded st = some (frames, co, st')) : Plain frames ∧ Plain st' := by
  induction st using yielded.induct generalizing frames with
  | case1 co' wrapped st =>
    cases hy
    exact ⟨plain_nil, (plain_cons.mp hst).2⟩
  | case2 st ih =>
    simp only [yielded, Option.map_eq_some_iff, Prod.mk.injEq, Prod.exists] at hy
    obtain ⟨frames', co', st'', hy, rfl, rfl, rfl⟩ := hy
    obtain ⟨h1, h2⟩ := ih (plain_cons.mp hst).2 hy
    exact ⟨plain_cons.mpr ⟨rfl, h1⟩, h2⟩
  | case3 st ih =>
    simp only [yielded, Option.map_eq_some_iff, Prod.mk.injEq, Prod.exists] at hy
    obtain ⟨frames', co', st'', hy, rfl, rfl, rfl⟩ := hy
    obtain ⟨h1, h2⟩ := ih (plain_cons.mp hst).2 hy
    exact ⟨plain_cons.mpr ⟨rfl, h1⟩, h2⟩
  | case4 st h1 h2 h3 =>
    rw [yielded] at hy
    · cases hy
    · exact h1
    · exact h2
    · exact h3

theorem Inv.yield (h : Inv m) {st : List Frame} (hst : Plain st) : Inv (lua_yield st m) := by
  unfold lua_yield
  split
  · rename_i frames co st' hy
    obtain ⟨h1, h2⟩ := plain_yielded hst hy
    apply (h.set_thread co _).back h2
    intro frames' he
    cases he
    exact h1
  · exact h.raise hst _

/-! ## Steps keep the invariant -/

/-- Every registered function but one. -/
theorem Inv.run_cfunction (h : Inv m) (luck : Luck) {st : List Frame} (hst : Plain st)
    {f : CFunction} (hf : f ≠ .pllua_subtransaction) : Inv (run_cfunction luck st m f) := by
  have hcall : Inv (startup.checked luck st m (m.to (.lua (.call :: st)))) :=
    h.checked luck hst (h.to (plain_cons.mpr ⟨rfl, hst⟩))
  have helog : Inv (match luck.badarg with
      | some v => m.raise v st
      | none => pllua_elog luck st m) := by
    split
    · exact h.raise hst _
    · exact h.elog luck hst
  have hcompute : Inv (match luck.badarg with
      | some v => m.raise v st
      | none => m.back st) := by
    split
    · exact h.raise hst _
    · exact h.back hst
  cases f with
  | pllua_subtransaction => exact absurd rfl hf
  | pllua_t_pcall => exact (h.pcall luck hst).1
  | pllua_t_xpcall => exact (h.pcall luck hst).2.1
  | pllua_t_lpcall => exact (h.pcall luck hst).2.2
  | pllua_t_coresume => exact h.coresume false luck hst
  | pllua_t_warn => exact helog
  | pllua_p_print => exact helog
  | pllua_p_elog => exact helog
  | pllua_errobject_gc =>
    unfold startup.run_cfunction
    simp only
    split
    · exact h.raise hst _
    · exact (h.emit rfl).back hst
  | pllua_errcodes_newindex => exact h.raise hst _
  | pllua_trusted_allow => exact hcall
  | pllua_trusted_mode_scopy => exact hcall
  | pllua_trusted_mode_sproxy => exact hcall
  | pllua_trusted_mode_outer => exact hcall
  | pllua_t_load => exact hcall
  | pllua_t_require => exact hcall
  | pllua_package_allowed_search => exact hcall
  | pllua_stack_check_wrapper => exact hcall
  | _ => exact hcompute

theorem Inv.return_lua (h : Inv m) (v : Value) (luck : Luck) {st : List Frame} (hst : Plain st) :
    Inv (return_lua v luck m st) := by
  cases st with
  | nil => exact h.to plain_nil
  | cons f st =>
    obtain ⟨hf, hrest⟩ := plain_cons.mp hst
    cases f with
    | on_init =>
      have hw : Inv (m.to .waiting) := h.to plain_nil
      exact ⟨hw.unready, hw.stack, hw.threads, hw.ops⟩
    | call => exact h.back hrest
    | load => exact h.back hrest
    | lpcall => exact h.back hrest
    | gc => exact h.back hrest
    | lxpcall handling =>
      cases handling with
      | false => exact h.back hrest
      | true => exact h.to (plain_cons.mpr ⟨rfl, hrest⟩)
    | resume co wrapped =>
      have hdead : Inv (m.set_thread co .dead) := by
        apply h.set_thread
        intro frames he
        cases he
      exact hdead.back hrest
    | guts => cases hf

theorem Inv.unwind (h : Inv m) (luck : Luck) (t : Thrown) {st : List Frame} (hst : Plain st) :
    Inv (unwind luck t m st) := by
  cases st with
  | nil => exact h.to plain_nil
  | cons f st =>
    obtain ⟨hf, hrest⟩ := plain_cons.mp hst
    cases f with
    | on_init => exact (h.emit rfl).to plain_nil
    | call => exact h.to hrest
    | load => exact h.back hrest
    | lpcall => exact h.finishpcall _ hrest
    | lxpcall handling =>
      have hlx : Plain (.lxpcall true :: st) := plain_cons.mpr ⟨rfl, hrest⟩
      cases t with
      | raised v =>
        unfold startup.unwind
        simp only
        split
        · exact h.to hlx
        · exact h.to hlx
      | handled v => exact h.finishpcall _ hrest
      | errmem => exact h.finishpcall _ hrest
      | errerr => exact h.finishpcall _ hrest
    | resume co wrapped =>
      have hdead : Inv (m.set_thread co .dead) := by
        apply h.set_thread
        intro frames he
        cases he
      unfold startup.unwind
      simp only
      split
      · exact hdead.raise hrest _
      · exact hdead.raise hrest _
      · exact hdead.back hrest
    | gc =>
      unfold startup.unwind
      simp only
      split
      · exact h.to hrest
      · exact (h.emit rfl).back hrest
    | guts => cases hf

/-- A call of `pllua_subtransaction` that is stopped raises an error. -/
theorem refused_raises {luck : Luck} {st : List Frame}
    (hr : luck.too_deep = true ∨ m.pending = true) (h : Inv m) :
    ∃ v, pllua_subtransaction luck st m = m.raise v st := by
  obtain ⟨active_error, hi⟩ := h.unready
  unfold pllua_subtransaction pllua_t_pcall_guts startup.checked
  simp only [hi, Option.isNone_some, Bool.false_eq_true, if_false]
  split
  · exact ⟨_, rfl⟩
  · rename_i hdeep
    have hpending := hr.resolve_left hdeep
    simp only [hpending, if_true]
    exact ⟨_, rfl⟩

/-- One that is not stopped goes to the database. -/
theorem let_in_begins {luck : Luck} {st : List Frame} (hdeep : luck.too_deep = false)
    (hpending : m.pending = false) (h : Inv m) :
    .BeginInternalSubTransaction ∈ (pllua_subtransaction luck st m).ops := by
  obtain ⟨active_error, hi⟩ := h.unready
  unfold pllua_subtransaction pllua_t_pcall_guts startup.checked
  simp only [hi, hdeep, hpending, Option.isNone_some, Bool.false_eq_true, if_false]
  split
  · unfold pllua_absorb_pg_error
    split
    · exact List.mem_cons_self
    · have hreg : ∀ o m', (pllua_register_error o m').ops = m'.ops := by
        intro o m'
        unfold pllua_register_error
        split
        · rfl
        · rfl
        · rfl
      simp only [Machine.raise, Machine.to, hreg]
      exact List.mem_cons_self
  · exact List.mem_cons_self

/-- What the user's code keeps, if it lets no subtransaction in. -/
theorem Inv.step_lua (h : Inv m) {st : List Frame} (hc : m.control = .lua st) {a : Action}
    (hr : Refused m a) : Inv (step_lua st m a) := by
  have hst : Plain st := by
    have hplain := h.stack
    rw [hc] at hplain
    exact hplain
  cases a with
  | call table name luck =>
    unfold startup.step_lua
    simp only
    split
    · rename_i f hf
      by_cases hsub : f = .pllua_subtransaction
      · subst hsub
        have ha : attempts m (.call table name luck) = some luck := by
          unfold attempts
          simp only [hc, hf, if_true]
        obtain ⟨v, hv⟩ := refused_raises (hr luck ha) h
        have hrun : startup.run_cfunction luck st m .pllua_subtransaction = m.raise v st := hv
        rw [hrun]
        exact h.raise hst v
      · exact h.run_cfunction luck hst hsub
    · exact h.raise hst _
  | enter => exact h.to (plain_cons.mpr ⟨rfl, hst⟩)
  | load => exact h.to (plain_cons.mpr ⟨rfl, hst⟩)
  | wrapped_resume luck => exact h.coresume true luck hst
  | yield => exact h.yield hst
  | gc => exact h.to (plain_cons.mpr ⟨rfl, hst⟩)
  | error v => exact h.raise hst v
  | memory => exact h.to hst
  | ret v luck => exact h.return_lua v luck hst
  | unwind luck => exact h
  | close => exact h

theorem Inv.step (h : Inv m) {a : Action} (hr : Refused m a) : Inv (step m a) := by
  cases hc : m.control with
  | lua st =>
    have hstep : startup.step m a = startup.step_lua st m a := by
      unfold startup.step
      rw [hc]
    rw [hstep]
    exact h.step_lua hc hr
  | throw t st =>
    have hst : Plain st := by
      have hplain := h.stack
      rw [hc] at hplain
      exact hplain
    unfold startup.step
    rw [hc]
    cases a with
    | unwind luck => exact h.unwind luck t hst
    | _ => exact h
  | waiting =>
    unfold startup.step
    rw [hc]
    cases a with
    | close => exact h.to plain_nil
    | _ => exact h
  | closing =>
    unfold startup.step
    rw [hc]
    cases a with
    | gc => exact h.to (plain_cons.mpr ⟨rfl, plain_nil⟩)
    | _ => exact h

/-- An attempt is a call of `pllua_subtransaction`. -/
theorem step_of_attempt {a : Action} {luck : Luck} (ha : attempts m a = some luck) :
    ∃ st, step m a = pllua_subtransaction luck st m := by
  cases a with
  | call table name luck' =>
    unfold attempts at ha
    simp only at ha
    split at ha
    · rename_i st hc
      split at ha
      · rename_i hl
        cases ha
        refine ⟨st, ?_⟩
        unfold step
        simp only [hc, step_lua, hl]
        rfl
      · cases ha
    · cases ha
  | _ => cases ha

/-- A step is safe exactly if it lets no subtransaction in. -/
theorem Inv.safe (h : Inv m) (a : Action) : Safe m a ↔ Refused m a := by
  constructor
  · intro hs luck ha
    by_contra hr
    obtain ⟨hdeep, hpending⟩ : luck.too_deep = false ∧ m.pending = false := by
      simpa using hr
    obtain ⟨st, hstep⟩ := step_of_attempt ha
    have hbegin := @let_in_begins m luck st hdeep hpending h
    rw [← hstep] at hbegin
    exact absurd (hs.ops _ hbegin) (by decide)
  · intro hr
    refine ⟨(h.step hr).ops, ?_⟩
    intro hsome
    obtain ⟨luck, ha⟩ := Option.isSome_iff_exists.mp hsome
    obtain ⟨st, hstep⟩ := step_of_attempt ha
    obtain ⟨v, hv⟩ := @refused_raises m luck st (hr luck ha) h
    rw [hstep, hv]
    exact ⟨v, st, rfl⟩

end

theorem inv_start : Inv start where
  unready := ⟨.refnil, rfl⟩
  stack := plain_cons.mpr ⟨rfl, plain_nil⟩
  threads := by
    intro co frames hf
    cases hf
    exact plain_nil
  ops := nofun

/-- No program of an on_init string gets to the database, and each attempt to open a
subtransaction raises an error, exactly if no attempt is let in. -/
theorem a_start_up_stays_out_of_the_database_if_no_subtransaction_is_let_in (as : List Action) :
    Each step Safe start as ↔ Each step Refused start as := by
  have hall : ∀ m, Inv m → (Each step Safe m as ↔ Each step Refused m as) := by
    induction as with
    | nil => exact fun _ _ => Iff.rfl
    | cons a as ih =>
      intro m hm
      constructor
      · rintro ⟨hs, hrest⟩
        have hr := (hm.safe a).mp hs
        exact ⟨hr, (ih _ (hm.step hr)).mp hrest⟩
      · rintro ⟨hr, hrest⟩
        exact ⟨(hm.safe a).mpr hr, (ih _ (hm.step hr)).mpr hrest⟩
  exact hall start inv_start

def good_luck : Luck := ⟨false, none, none, false, false, false, 0⟩

/-- `require 'pllua.error'.subtransaction(f)` in an on_init string. -/
theorem an_on_init_string_begins_a_subtransaction :
    (step start (.call .errfuncs "subtransaction" good_luck)).ops =
        [.BeginInternalSubTransaction] ∧
      (step start (.call .errfuncs "subtransaction" good_luck)).control =
        .lua [.guts false false, .on_init] ∧
      ¬ Each step Safe start [.call .errfuncs "subtransaction" good_luck] := by
  refine ⟨by decide, by decide, ?_⟩
  intro h
  have hop := h.1.ops .BeginInternalSubTransaction (by decide)
  exact absurd hop (by decide)

end pllua.startup
