-- The protected calls of error.c and how errors pass through them: a machine
-- whose steps are the choices of the user's Lua code and of PostgreSQL code,
-- and the work of the C functions between them.
import Pllua.ErrorState

namespace pllua.errors

/-! ## The C stack -/

/-- How far the body of a `pllua_t_pcall_guts` is. -/
inductive Phase
  /-- the protected function runs -/
  | body
  /-- `pllua_intercept_error` has set its recursion flag, and the error function does
  not run -/
  | intercept
  /-- The error function runs. `aborted` says that the subtransaction was aborted before,
  and `errors` are the errors of the error function itself that it is called for as its
  own message handler, the last one first. -/
  | handler (aborted : Bool) (errors : List Value)
deriving DecidableEq, Repr

/-- The calls that are under way, innermost first. The index says which code can run
on top: PostgreSQL code or Lua code. -/
inductive Stack : Side → Type
  | base : Stack .pg
  /-- code of PostgreSQL or of another language that catches errors in a subtransaction,
  which it begins and ends without fail -/
  | exception (id : XactId) (st : Stack .pg) : Stack .pg
  /-- a `PLLUA_TRY` block in a C function that Lua code calls -/
  | pgcall (st : Stack .lua) : Stack .pg
  /-- `pllua_initial_protected_call`, with the `active_error` it saves -/
  | activation (saved : ErrorRef) (st : Stack .pg) : Stack .lua
  /-- `pllua_t_lpcall` -/
  | lpcall (st : Stack .lua) : Stack .lua
  /-- `pllua_t_coresume` -/
  | resume (co : Nat) (st : Stack .lua) : Stack .lua
  /-- `pllua_t_pcall_guts`. The value of `subxact_stack_top` at its entry is kept for the
  laws only. -/
  | guts (is_xpcall : Bool) (phase : Phase) (id : XactId) (entry : Option XactId)
      (st : Stack .lua) : Stack .lua
deriving DecidableEq, Repr

/-- Whether a message handler is running somewhere in the stack. -/
def Stack.in_handler : {side : Side} → Stack side → Bool
  | _, .base => false
  | _, .exception _ st => st.in_handler
  | _, .pgcall st => st.in_handler
  | _, .activation _ st => st.in_handler
  | _, .lpcall st => st.in_handler
  | _, .resume _ st => st.in_handler
  | _, .guts _ phase _ _ st => phase ≠ .body || st.in_handler

/-- A Lua error on its way to the next protected call. -/
inductive Thrown
  /-- `LUA_ERRRUN`, and the message handler is not called yet -/
  | raised (v : Value)
  /-- `LUA_ERRRUN` with the result of the message handler -/
  | handled (v : Value)
  /-- `LUA_ERRMEM`, which has no message handler -/
  | errmem
  /-- `LUA_ERRERR` -/
  | errerr
deriving DecidableEq, Repr

def Thrown.value : Thrown → Value
  | .raised v => v
  | .handled v => v
  | .errmem => .string "not enough memory"
  | .errerr => .string "error in error handling"

/-- What runs: Lua code, PostgreSQL code, or an error passing through the stack. A
PostgreSQL error knows whether it was rethrown from a Lua error object. -/
inductive Control
  | lua (st : Stack .lua)
  | throw (t : Thrown) (st : Stack .lua)
  | pg (st : Stack .pg)
  | ereport (e : ErrorData) (from_lua : Bool) (st : Stack .pg)
deriving DecidableEq, Repr

structure Machine where
  control : Control
  state : State

/-! ## Steps of the user's code and of PostgreSQL -/

inductive Action
  /-- the Lua function on top returns; the value counts for an error function -/
  | ret (v : Value) (luck : Luck)
  | error (v : Value)
  /-- Lua runs out of memory -/
  | memory
  | lpcall
  | resume (co : Nat) (luck : Luck)
  | yield (luck : Luck)
  /-- `pcall` or `subtransaction` -/
  | pcall (luck : Luck)
  | xpcall (luck : Luck)
  /-- a call of a C function that goes to PostgreSQL -/
  | pgcall
  /-- a C function that may run with an error pending raises a PostgreSQL error: the
  hook for interrupts, or one of the functions of elog -/
  | interrupt (e : ErrorData) (luck : Luck)
  /-- PostgreSQL calls a Lua function -/
  | activation
  /-- PostgreSQL or another language begins a block that catches errors -/
  | exception
  /-- the PostgreSQL code on top returns -/
  | done
  | ereport (e : ErrorData)
  /-- the error meets the next call on the stack -/
  | unwind (luck : Luck)

section
variable (luajit : Bool)

/-- `pllua_t_pcall_guts` up to the call of the protected function. -/
def pllua_t_pcall_guts (is_xpcall : Bool) (luck : Luck) (st : Stack .lua) (s : State) : Machine :=
  if s.pending = true then ⟨.throw (.raised pending_error_violation) st, s⟩
  else
    let id := s.next_xact
    let entry := s.subxact_stack_top
    let s := { s with
      next_xact := id + 1
      subxacts := Function.update s.subxacts id ⟨entry, false⟩ }
    match luck.begin_error with
    | some e =>
      let (o, s) := pllua_absorb_pg_error luck.no_object e (begin_failed luck id s)
      ⟨.throw (.raised (.error o)) st, s⟩
    | none =>
      let s := BeginInternalSubTransaction id s
      ⟨.lua (.guts is_xpcall .body id entry st), { s with
        subxacts := Function.update s.subxacts id ⟨entry, true⟩
        subxact_stack_top := some id }⟩

/-- The rest of `pllua_t_pcall_guts` when the protected function has returned. -/
def guts_returned (luck : Luck) (id : XactId) (st : Stack .lua) (s : State) : Machine :=
  let s := s.emit (.returned id)
  match luck.release_error with
  | none =>
    let s := ReleaseCurrentSubTransaction s
    let s := { s with subxact_stack_top := (s.subxacts id).prev }
    ⟨.lua st, if (pllua_get_active_error s).isSome then s.emit .assert_failed else s⟩
  | some e =>
    let s := release_failed luck (s.emit (.release_failed id))
    let (o, s) := pllua_absorb_pg_error luck.no_object e s
    if (s.subxacts id).onstack then
      match pllua_subxact_abort .lua luck s with
      | (.lua_error v, s) => ⟨.throw (.raised v) st, s⟩
      | (_, s) => ⟨.throw (.raised (.error o)) st, s⟩
    else ⟨.throw (.raised (.error o)) st, s⟩

/-- The rest of `pllua_t_pcall_guts` when the call has failed with the value. -/
def guts_failed (luck : Luck) (v : Value) (id : XactId) (st : Stack .lua) (s : State) : Machine :=
  if (s.subxacts id).onstack then
    match pllua_subxact_abort .pg luck s with
    | (.pg_error e, s) =>
      -- the catch block: the subtransaction is off the stack by now
      let (o, s) := pllua_absorb_pg_error luck.no_object e s
      ⟨.throw (.raised (.error o)) st, s⟩
    | (_, s) => ⟨.lua st, (pllua_deregister_error s).emit (.caught v)⟩
  else
    match pllua_get_active_error s with
    | some o => ⟨.throw (.raised (.error o)) st, s⟩
    | none => ⟨.lua st, s.emit (.caught v)⟩

/-- `pllua_intercept_error` when its recursion flag is not set: it aborts the
subtransaction, and then calls the error function. -/
def pllua_intercept_error (luck : Luck) (v : Value) (id : XactId) (entry : Option XactId)
    (st : Stack .lua) (s : State) : Machine :=
  match pllua_subxact_abort .lua luck s with
  | (.lua_error v', s) => ⟨.throw (.raised v') (.guts true .intercept id entry st), s⟩
  | (_, s) =>
    ⟨.lua (.guts true (.handler true []) id entry st),
      (pllua_deregister_error s).emit (.handler v)⟩

/-- A Lua error meets a `pllua_t_pcall_guts`. -/
def throw_at_guts (luck : Luck) (is_xpcall : Bool) (phase : Phase) (id : XactId)
    (entry : Option XactId) (st : Stack .lua) (t : Thrown) (s : State) : Machine :=
  match phase, t with
  | .body, .raised v =>
    if is_xpcall then
      if luck.no_handler && st.in_handler then
        guts_failed luck Thrown.errerr.value id st s
      else pllua_intercept_error luck v id entry st s
    else guts_failed luck v id st s
  | .body, t => guts_failed luck t.value id st s
  | .intercept, .raised v =>
    -- an error in the message handler, which LuaJIT does not call again
    if luajit || luck.no_handler then guts_failed luck Thrown.errerr.value id st s
    else
      ⟨.lua (.guts is_xpcall (.handler false []) id entry st), s.emit (.handler v)⟩
  | .intercept, t => guts_failed luck t.value id st s
  | .handler aborted errors, .raised v =>
    if luck.no_handler then
      ⟨.throw .errerr (.guts is_xpcall (.handler aborted errors) id entry st), s⟩
    else
      ⟨.lua (.guts is_xpcall (.handler aborted (v :: errors)) id entry st), s.emit (.handler v)⟩
  | .handler _ _, t =>
    -- the protected call in the message handler fails, and its value is the result
    ⟨.throw (.handled t.value) (.guts is_xpcall .intercept id entry st), s⟩

/-- `finishpcall` when the call has failed. On LuaJIT the active error is not looked at. -/
def finishpcall (v : Value) (st : Stack .lua) (s : State) : Machine :=
  match v with
  | .error o => ⟨.throw (.raised (.error o)) st, s⟩
  | v =>
    match if luajit then none else pllua_get_active_error s with
    | some o => ⟨.throw (.raised (.error o)) st, s⟩
    | none => ⟨.lua st, s.emit (.reported v)⟩

/-- The end of `pllua_t_coresume` when the coroutine has failed. -/
def coresume_failed (co : Nat) (v : Value) (st : Stack .lua) (s : State) : Machine :=
  let s := s.set_coroutine co .dead
  match v with
  | .error o => ⟨.throw (.raised (.error o)) st, s⟩
  | v => ⟨.lua st, s.emit (.reported v)⟩

/-- The end of `pllua_initial_protected_call`, and the catch block of its caller, when
the call has failed. -/
def activation_failed (luck : Luck) (t : Thrown) (saved : ErrorRef) (st : Stack .pg) (s : State) :
    Machine :=
  let (e, s) := pllua_rethrow_from_lua (t = .errmem) luck.no_registration t.value
    (s.set_active saved)
  ⟨.ereport e t.value.is_error st, pllua_error_cleanup s⟩

/-- A Lua error meets the next call. -/
def unwind_lua (luck : Luck) (t : Thrown) : Stack .lua → State → Machine
  | .activation saved st, s => activation_failed luck t saved st s
  | .lpcall st, s => finishpcall luajit t.value st s
  | .resume co st, s => coresume_failed co t.value st s
  | .guts is_xpcall phase id entry st, s => throw_at_guts luajit luck is_xpcall phase id entry st t s

/-- A PostgreSQL error meets the next call. -/
def unwind_pg (luck : Luck) (e : ErrorData) : Stack .pg → State → Machine
  | .base, s => ⟨.pg .base, s⟩
  | .exception _ st, s => ⟨.pg st, RollbackAndReleaseCurrentSubTransaction s⟩
  | .pgcall st, s =>
    let (o, s) := pllua_rethrow_from_pg luck.no_object e s
    ⟨.throw (.raised (.error o)) st, s⟩

/-- The end of `pllua_t_coresume` when the coroutine has returned or yielded. -/
def coresume_done (luck : Luck) (st : Stack .lua) (s : State) : Machine :=
  ⟨.lua st, if luck.no_room then s.emit (.reported (.string "too many results to resume")) else s⟩

/-- The Lua function on top returns. -/
def return_lua (v : Value) (luck : Luck) : Stack .lua → State → Machine
  | .activation saved st, s =>
    let failed := (pllua_get_active_error s).isSome
    let s := s.set_active saved
    ⟨.pg st, if failed then s.emit .assert_failed else s⟩
  | .lpcall st, s => ⟨.lua st, s⟩
  | .resume co st, s => coresume_done luck st (s.set_coroutine co .dead)
  | .guts is_xpcall (.handler _ []) id entry st, s =>
    ⟨.throw (.handled v) (.guts is_xpcall .intercept id entry st), s⟩
  | .guts is_xpcall (.handler aborted (_ :: _)) id entry st, s =>
    ⟨.throw (.handled v) (.guts is_xpcall (.handler aborted []) id entry st), s⟩
  | .guts _ _ id _ st, s => guts_returned luck id st s

/-- The PostgreSQL code on top returns. -/
def return_pg : Stack .pg → State → Machine
  | .base, s => ⟨.pg .base, s⟩
  | .exception id st, s => ⟨.pg st, ReleaseCurrentSubTransaction (s.emit (.returned id))⟩
  | .pgcall st, s => ⟨.lua st, s⟩

/-- The calls of `lpcall` that a yield leaves in the coroutine, and what is below its
resume. No other call can be left, and on LuaJIT not even `lpcall`. -/
def yield_to : {side : Side} → Stack side → Option (Nat × Nat × Stack .lua)
  | _, .resume co st => some (0, co, st)
  | _, .lpcall st =>
    if luajit then none
    else (yield_to st).map fun (n, co, st) => (n + 1, co, st)
  | _, _ => none

/-- `n` calls of `lpcall` on the stack. -/
def push_lpcalls : Nat → Stack .lua → Stack .lua
  | 0, st => st
  | n + 1, st => .lpcall (push_lpcalls n st)

/-- The coroutine does not run, and `coroutine.resume` says why. -/
def resume_refused (why : String) (st : Stack .lua) (s : State) : Machine :=
  ⟨.lua st, s.emit (.reported (.string why))⟩

/-- `pllua_t_coresume` up to the run of the coroutine. -/
def pllua_t_coresume (luck : Luck) (co : Nat) (st : Stack .lua) (s : State) : Machine :=
  if luck.no_room then resume_refused "too many arguments to resume" st s
  else
    match s.coroutines co with
    | .suspended n =>
      if luck.c_overflow then resume_refused "C stack overflow" st s
      else ⟨.lua (push_lpcalls n (.resume co st)), s.set_coroutine co .running⟩
    | .running => resume_refused "cannot resume non-suspended coroutine" st s
    | .dead => resume_refused "cannot resume dead coroutine" st s

/-- `lua_yield` in a coroutine. -/
def lua_yield (luck : Luck) (st : Stack .lua) (s : State) : Machine :=
  match yield_to luajit st with
  | some (n, co, st) => coresume_done luck st (s.set_coroutine co (.suspended n))
  | none => ⟨.throw (.raised (.string "attempt to yield across a C-call boundary")) st, s⟩

/-- `PLLUA_TRY`. -/
def pllua_try (st : Stack .lua) (s : State) : Machine :=
  if s.pending = true then ⟨.throw (.raised pending_error_violation) st, s⟩
  else ⟨.pg (.pgcall st), s⟩

/-- What the user's Lua code does. -/
def step_lua (st : Stack .lua) (s : State) : Action → Machine
  | .ret v luck => return_lua v luck st s
  | .error v => ⟨.throw (.raised v) st, s⟩
  | .memory => ⟨.throw .errmem st, s⟩
  | .lpcall => ⟨.lua (.lpcall st), s⟩
  | .resume co luck => pllua_t_coresume luck co st s
  | .yield luck => lua_yield luajit luck st s
  | .pcall luck => pllua_t_pcall_guts false luck st s
  | .xpcall luck => pllua_t_pcall_guts true luck st s
  | .pgcall => pllua_try st s
  | .interrupt e luck =>
    let (o, s) := pllua_rethrow_from_pg luck.no_object e s
    ⟨.throw (.raised (.error o)) st, s⟩
  | _ => ⟨.lua st, s⟩

/-- What PostgreSQL code does. -/
def step_pg (st : Stack .pg) (s : State) : Action → Machine
  | .activation => ⟨.lua (.activation s.active_error st), s.set_active .refnil⟩
  | .exception =>
    ⟨.pg (.exception s.next_xact st),
      BeginInternalSubTransaction s.next_xact { s with next_xact := s.next_xact + 1 }⟩
  | .done => return_pg st s
  | .ereport e => ⟨.ereport e false st, s⟩
  | _ => ⟨.pg st, s⟩

/-- One step. An action that does not fit what runs changes nothing. -/
def step (m : Machine) (a : Action) : Machine :=
  match m.control, a with
  | .lua st, a => step_lua luajit st m.state a
  | .pg st, a => step_pg st m.state a
  | .throw t st, .unwind luck => unwind_lua luajit luck t st m.state
  | .ereport e _ st, .unwind luck => unwind_pg luck e st m.state
  | _, _ => m

end

/-- A session before the first call. -/
def start : Machine where
  control := .pg .base
  state :=
    { pending := false, active_error := .refnil, subxact_stack_top := none
      subxacts := fun _ => ⟨none, false⟩, nest := [], coroutines := fun _ => .suspended 0
      next_xact := 0, next_error := 0, log := [] }

end pllua.errors
