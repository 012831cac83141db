-- The error state of error.c: error objects, the active error of an activation,
-- the pending flag, the stack of subtransactions, and the functions on them.
import Mathlib.Logic.Function.Basic
import Pllua.Brackets

namespace pllua.errors

/-! ## Errors -/

/-- What an `ErrorData` says: an error of PostgreSQL, or one made from a Lua error. -/
inductive ErrorData
  | ereport (n : Nat)
  | message (s : String)
deriving DecidableEq, Repr

/-- An object of the type `PLLUA_ERROR_OBJECT`. -/
inductive ErrorObject
  /-- `PLLUA_RECURSIVE_ERROR`, made in advance -/
  | recursive
  | object (id : Nat) (edata : ErrorData)
deriving DecidableEq, Repr

def ErrorObject.edata : ErrorObject → ErrorData
  | .recursive => .message "Unexpected error in error handling"
  | .object _ edata => edata

/-- A Lua value, as far as errors tell them apart. -/
inductive Value
  | string (s : String)
  | error (o : ErrorObject)
  | other (type id : Nat)
deriving DecidableEq, Repr

/-- `pllua_isobject(L, -1, PLLUA_ERROR_OBJECT)`. -/
def Value.is_error : Value → Bool
  | .error _ => true
  | _ => false

/-- The error that `pllua_errmsg` describes. -/
def pllua_errmsg : Value → ErrorData
  | .string s => .message ("pllua: " ++ s)
  | .error _ => .message "pllua: (error is not a string: type=7)"
  | .other type _ => .message ("pllua: (error is not a string: type=" ++ toString type ++ ")")

/-- The registry reference in `active_error`. -/
inductive ErrorRef
  | refnil
  | noref
  | ref (o : ErrorObject)
deriving DecidableEq, Repr

/-! ## The state -/

abbrev XactId := Nat

/-- `pllua_subxact`, as far as it decides anything. -/
structure Subxact where
  prev : Option XactId
  onstack : Bool
deriving DecidableEq, Repr

/-- A coroutine. A suspended one has the calls of `lpcall` that it is inside of. -/
inductive Coroutine
  | suspended (lpcalls : Nat)
  | running
  | dead
deriving DecidableEq, Repr

/-- What happens, for the laws. Nothing in the code reads it. -/
inductive Event
  | began (id : XactId)
  /-- the body of a subtransaction returned normally -/
  | returned (id : XactId)
  | release_failed (id : XactId)
  | released (id : XactId)
  | rolled_back (id : XactId)
  /-- the user's error handler is called -/
  | handler (arg : Value)
  /-- `lpcall` or `coroutine.resume` returns false and a value -/
  | reported (v : Value)
  /-- `pcall`, `xpcall` or `subtransaction` returns false and a value -/
  | caught (v : Value)
  /-- an assertion that no error is active fails -/
  | assert_failed
deriving DecidableEq, Repr

/-- The variables of error.c, the active error of `cur_activation`, the subtransactions
of PostgreSQL (innermost first) and the coroutines. -/
structure State where
  /-- `pllua_pending_error` -/
  pending : Bool
  active_error : ErrorRef
  subxact_stack_top : Option XactId
  /-- the `pllua_subxact` variables on the C stack -/
  subxacts : XactId → Subxact
  nest : List XactId
  coroutines : Nat → Coroutine
  next_xact : XactId
  next_error : Nat
  log : List Event

def State.emit (s : State) (e : Event) : State := { s with log := e :: s.log }

def State.set_active (s : State) (r : ErrorRef) : State := { s with active_error := r }

def State.set_pending (s : State) (b : Bool) : State := { s with pending := b }

def State.set_coroutine (s : State) (co : Nat) (c : Coroutine) : State :=
  { s with coroutines := Function.update s.coroutines co c }

/-- What may fail in one step, since memory, PostgreSQL or the C stack decides it. -/
structure Luck where
  begin_error : Option ErrorData
  release_error : Option ErrorData
  rollback_error : Option ErrorData
  /-- `CopyErrorData` fails, or there is no memory for the error object -/
  no_object : Bool
  /-- the same for the error of a rollback -/
  no_rollback_object : Bool
  /-- `pllua_register_error` fails in `pllua_rethrow_from_lua` -/
  no_registration : Bool
  /-- Lua does not call a message handler inside a message handler -/
  no_handler : Bool
  /-- `lua_checkstack` in `pllua_t_coresume` finds no room -/
  no_room : Bool
  /-- the C stack of Lua is used up in `lua_resume` -/
  c_overflow : Bool
  /-- what PostgreSQL has done when one of its functions raises an error: a begin has begun
  the subtransaction, a release has ended it, a rollback has left it as it was -/
  begin_leaves : Bool
  release_ends : Bool
  rollback_leaves : Bool

/-- Nothing fails. -/
def good_luck : Luck :=
  { begin_error := none, release_error := none, rollback_error := none
    no_object := false, no_rollback_object := false, no_registration := false
    no_handler := false, no_room := false, c_overflow := false
    begin_leaves := false, release_ends := false, rollback_leaves := false }

/-! ## The active error -/

/-- `pllua_register_error`. -/
def pllua_register_error (o : ErrorObject) (s : State) : State :=
  match s.active_error with
  | .noref => s
  | _ => s.set_active (.ref o)

/-- `pllua_register_recursive_error`. -/
def pllua_register_recursive_error (s : State) : ErrorObject × State :=
  (.recursive, s.set_active .noref)

/-- `pllua_deregister_error`. -/
def pllua_deregister_error (s : State) : State := s.set_active .refnil

/-- `pllua_get_active_error`. -/
def pllua_get_active_error (s : State) : Option ErrorObject :=
  match s.active_error with
  | .refnil => none
  | .noref => some .recursive
  | .ref o => some o

/-- `pllua_newerror`. -/
def pllua_newerror (e : ErrorData) (s : State) : ErrorObject × State :=
  let o := .object s.next_error e
  (o, pllua_register_error o { s with next_error := s.next_error + 1 })

/-! ## From one side to the other -/

/-- `pllua_absorb_pg_error`: the object it leaves on the Lua stack. -/
def pllua_absorb_pg_error (no_object : Bool) (e : ErrorData) (s : State) : ErrorObject × State :=
  if no_object then pllua_register_recursive_error s else pllua_newerror e s

/-- `pllua_rethrow_from_pg` in Lua context: the object it throws. In the context of
PostgreSQL the error just goes on. -/
def pllua_rethrow_from_pg (no_object : Bool) (e : ErrorData) (s : State) : ErrorObject × State :=
  let (o, s) := pllua_absorb_pg_error no_object e s
  (o, s.set_pending true)

/-- `pllua_rethrow_from_lua` in the context of PostgreSQL: the error it raises. In Lua
context the value just goes on. -/
def pllua_rethrow_from_lua (no_memory no_registration : Bool) (v : Value) (s : State) :
    ErrorData × State :=
  if no_memory then (.message "pllua: out of memory", s)
  else
    match v with
    | .error o =>
      if no_registration then
        let (o, s) := pllua_register_recursive_error s
        (o.edata, s)
      else (o.edata, pllua_register_error o s)
    | v => (pllua_errmsg v, s)

/-- `pllua_error_cleanup`. The record it clears is the copy that was handed back. -/
def pllua_error_cleanup (s : State) : State := s.set_pending false

/-- The error of `pllua_pending_error_violation`. -/
def pending_error_violation : Value :=
  .string "cannot call into PostgreSQL with pending errors"

/-! ## Subtransactions -/

/-- `BeginInternalSubTransaction`. -/
def BeginInternalSubTransaction (id : XactId) (s : State) : State :=
  { s with nest := id :: s.nest, log := .began id :: s.log }

/-- `ReleaseCurrentSubTransaction`. -/
def ReleaseCurrentSubTransaction (s : State) : State :=
  match s.nest with
  | [] => s
  | id :: nest => { s with nest, log := .released id :: s.log }

/-- `RollbackAndReleaseCurrentSubTransaction`. -/
def RollbackAndReleaseCurrentSubTransaction (s : State) : State :=
  match s.nest with
  | [] => s
  | id :: nest => { s with nest, log := .rolled_back id :: s.log }

/-- What a begin leaves that has raised an error. -/
def begin_failed (luck : Luck) (id : XactId) (s : State) : State :=
  if luck.begin_leaves then { s with nest := id :: s.nest } else s

/-- What a release leaves that has raised an error. -/
def release_failed (luck : Luck) (s : State) : State :=
  if luck.release_ends then { s with nest := s.nest.tail } else s

/-- What a rollback leaves that has raised an error. -/
def rollback_failed (luck : Luck) (s : State) : State :=
  if luck.rollback_leaves then s else RollbackAndReleaseCurrentSubTransaction s

/-- How a C function ends: normally, with a Lua error, or with a PostgreSQL error. -/
inductive Outcome
  | ok
  | lua_error (v : Value)
  | pg_error (e : ErrorData)
deriving DecidableEq, Repr

/-- The context: `PLLUA_CONTEXT_PG` or `PLLUA_CONTEXT_LUA`. -/
inductive Side
  | pg
  | lua
deriving DecidableEq, Repr

/-- The first lines of `pllua_subxact_abort`: the top of the stack is popped. -/
def pop_subxact (id : XactId) (s : State) : State :=
  { s with
    subxacts := Function.update s.subxacts id { s.subxacts id with onstack := false }
    subxact_stack_top := (s.subxacts id).prev }

/-- `pllua_subxact_abort`. -/
def pllua_subxact_abort (context : Side) (luck : Luck) (s : State) : Outcome × State :=
  if context = .lua ∧ s.pending = true then (.lua_error pending_error_violation, s)
  else
    match s.subxact_stack_top with
    -- a null pointer, which the laws of the stack exclude
    | none => (.ok, s.set_pending false)
    | some id =>
      let s := pop_subxact id s
      match luck.rollback_error, context with
      | none, _ => (.ok, (RollbackAndReleaseCurrentSubTransaction s).set_pending false)
      | some e, .pg => (.pg_error e, rollback_failed luck s)
      | some e, .lua =>
        let (o, s) := pllua_rethrow_from_pg luck.no_rollback_object e (rollback_failed luck s)
        (.lua_error (.error o), s)

/-! ## The pending flag and the active error after each function -/

section
variable (s : State)

@[simp] theorem emit_pending (e : Event) : (s.emit e).pending = s.pending := rfl
@[simp] theorem emit_active (e : Event) : (s.emit e).active_error = s.active_error := rfl
@[simp] theorem set_active_pending (r : ErrorRef) : (s.set_active r).pending = s.pending := rfl
@[simp] theorem set_active_active (r : ErrorRef) : (s.set_active r).active_error = r := rfl
@[simp] theorem set_pending_pending (b : Bool) : (s.set_pending b).pending = b := rfl
@[simp] theorem set_pending_active (b : Bool) :
    (s.set_pending b).active_error = s.active_error := rfl
@[simp] theorem set_coroutine_pending (co : Nat) (c : Coroutine) :
    (s.set_coroutine co c).pending = s.pending := rfl
@[simp] theorem set_coroutine_active (co : Nat) (c : Coroutine) :
    (s.set_coroutine co c).active_error = s.active_error := rfl
@[simp] theorem deregister_pending : (pllua_deregister_error s).pending = s.pending := rfl
@[simp] theorem deregister_active : (pllua_deregister_error s).active_error = .refnil := rfl
@[simp] theorem begin_pending (id : XactId) :
    (BeginInternalSubTransaction id s).pending = s.pending := rfl
@[simp] theorem begin_active (id : XactId) :
    (BeginInternalSubTransaction id s).active_error = s.active_error := rfl

@[simp] theorem release_pending : (ReleaseCurrentSubTransaction s).pending = s.pending := by
  unfold ReleaseCurrentSubTransaction; split <;> rfl

@[simp] theorem release_active :
    (ReleaseCurrentSubTransaction s).active_error = s.active_error := by
  unfold ReleaseCurrentSubTransaction; split <;> rfl

@[simp] theorem rollback_pending :
    (RollbackAndReleaseCurrentSubTransaction s).pending = s.pending := by
  unfold RollbackAndReleaseCurrentSubTransaction; split <;> rfl

@[simp] theorem rollback_active :
    (RollbackAndReleaseCurrentSubTransaction s).active_error = s.active_error := by
  unfold RollbackAndReleaseCurrentSubTransaction; split <;> rfl

@[simp] theorem begin_failed_pending (luck : Luck) (id : XactId) :
    (begin_failed luck id s).pending = s.pending := by
  unfold begin_failed; split <;> rfl

@[simp] theorem begin_failed_active (luck : Luck) (id : XactId) :
    (begin_failed luck id s).active_error = s.active_error := by
  unfold begin_failed; split <;> rfl

@[simp] theorem release_failed_pending (luck : Luck) :
    (release_failed luck s).pending = s.pending := by
  unfold release_failed; split <;> rfl

@[simp] theorem rollback_failed_pending (luck : Luck) :
    (rollback_failed luck s).pending = s.pending := by
  unfold rollback_failed
  split
  · rfl
  · exact rollback_pending s

@[simp] theorem rollback_failed_active (luck : Luck) :
    (rollback_failed luck s).active_error = s.active_error := by
  unfold rollback_failed
  split
  · rfl
  · exact rollback_active s

@[simp] theorem register_pending (o : ErrorObject) :
    (pllua_register_error o s).pending = s.pending := by
  unfold pllua_register_error; split <;> rfl

theorem register_active (o : ErrorObject) : (pllua_register_error o s).active_error ≠ .refnil := by
  unfold pllua_register_error
  split
  · rename_i h; simp [h]
  · simp

@[simp] theorem absorb_pending (b : Bool) (e : ErrorData) :
    (pllua_absorb_pg_error b e s).2.pending = s.pending := by
  unfold pllua_absorb_pg_error
  split
  · rfl
  · simp [pllua_newerror]

/-- An absorbed error is the active one. -/
theorem absorb_active (b : Bool) (e : ErrorData) :
    (pllua_absorb_pg_error b e s).2.active_error ≠ .refnil := by
  unfold pllua_absorb_pg_error
  split
  · simp [pllua_register_recursive_error]
  · exact register_active _ _

@[simp] theorem rethrow_from_pg_pending (b : Bool) (e : ErrorData) :
    (pllua_rethrow_from_pg b e s).2.pending = true := rfl

theorem rethrow_from_pg_active (b : Bool) (e : ErrorData) :
    (pllua_rethrow_from_pg b e s).2.active_error ≠ .refnil := absorb_active s b e

theorem get_active_eq_none : pllua_get_active_error s = none ↔ s.active_error = .refnil := by
  unfold pllua_get_active_error
  split <;> simp_all

/-- The object has the data of the error, unless it is the recursive one. -/
theorem absorb_object (b : Bool) (e : ErrorData) :
    (pllua_absorb_pg_error b e s).1.edata = e ∨
      b = true ∧ (pllua_absorb_pg_error b e s).1 = .recursive := by
  unfold pllua_absorb_pg_error
  split
  · rename_i hb
    exact Or.inr ⟨hb, rfl⟩
  · exact Or.inl rfl

/-- A plain value leaves the state alone. -/
theorem rethrow_from_lua_plain (b1 b2 : Bool) {v : Value} (h : v.is_error = false) :
    (pllua_rethrow_from_lua b1 b2 v s).2 = s := by
  unfold pllua_rethrow_from_lua
  split
  · rfl
  · cases v with
    | error o => cases h
    | _ => rfl

theorem rethrow_from_lua_edata (b : Bool) (o : ErrorObject) :
    (pllua_rethrow_from_lua false b (.error o) s).1 = o.edata ∨
      b = true ∧ (pllua_rethrow_from_lua false b (.error o) s).1 = ErrorObject.recursive.edata := by
  unfold pllua_rethrow_from_lua
  simp only [Bool.false_eq_true, if_false]
  split
  · rename_i hb
    exact Or.inr ⟨hb, rfl⟩
  · exact Or.inl rfl

/-- The reports of `lpcall` and `coroutine.resume`, and the assertions that failed. -/
def Event.note : Event → Bool
  | .reported _ | .assert_failed => true
  | _ => false

def State.notes : List Event := s.log.filter Event.note

@[simp] theorem set_active_notes (r : ErrorRef) : (s.set_active r).notes = s.notes := rfl
@[simp] theorem set_pending_notes (b : Bool) : (s.set_pending b).notes = s.notes := rfl
@[simp] theorem deregister_notes : (pllua_deregister_error s).notes = s.notes := rfl

@[simp] theorem release_notes : (ReleaseCurrentSubTransaction s).notes = s.notes := by
  unfold ReleaseCurrentSubTransaction; split <;> rfl

@[simp] theorem rollback_notes :
    (RollbackAndReleaseCurrentSubTransaction s).notes = s.notes := by
  unfold RollbackAndReleaseCurrentSubTransaction; split <;> rfl

@[simp] theorem begin_failed_notes (luck : Luck) (id : XactId) :
    (begin_failed luck id s).notes = s.notes := by
  unfold begin_failed; split <;> rfl

@[simp] theorem release_failed_notes (luck : Luck) : (release_failed luck s).notes = s.notes := by
  unfold release_failed; split <;> rfl

@[simp] theorem rollback_failed_notes (luck : Luck) :
    (rollback_failed luck s).notes = s.notes := by
  unfold rollback_failed
  split
  · rfl
  · exact rollback_notes s

@[simp] theorem register_notes (o : ErrorObject) :
    (pllua_register_error o s).notes = s.notes := by
  unfold pllua_register_error; split <;> rfl

@[simp] theorem absorb_notes (b : Bool) (e : ErrorData) :
    (pllua_absorb_pg_error b e s).2.notes = s.notes := by
  unfold pllua_absorb_pg_error
  split
  · rfl
  · exact register_notes _ _

@[simp] theorem rethrow_from_pg_notes (b : Bool) (e : ErrorData) :
    (pllua_rethrow_from_pg b e s).2.notes = s.notes := absorb_notes s b e

@[simp] theorem rethrow_from_lua_notes (b1 b2 : Bool) (v : Value) :
    (pllua_rethrow_from_lua b1 b2 v s).2.notes = s.notes := by
  unfold pllua_rethrow_from_lua
  split
  · rfl
  · cases v with
    | error o =>
      simp only
      split
      · rfl
      · exact register_notes _ _
    | _ => rfl

@[simp] theorem abort_notes (context : Side) (luck : Luck) :
    (pllua_subxact_abort context luck s).2.notes = s.notes := by
  unfold pllua_subxact_abort
  split
  · rfl
  · cases s.subxact_stack_top with
    | none => rfl
    | some id =>
      simp only
      split
      · exact rollback_notes _
      · exact rollback_failed_notes _ _
      · exact (rethrow_from_pg_notes _ _ _).trans (rollback_failed_notes _ _)

end

/-! ## What the functions on errors leave alone -/

/-- The event of a log as an event of the discipline of brackets. -/
def Event.bracket : Event → Option (brackets.Event XactId)
  | .began id => some (.began id)
  | .returned id => some (.returned id)
  | .release_failed id => some (.release_failed id)
  | .released id => some (.released id)
  | .rolled_back id => some (.rolled_back id)
  | _ => none

/-- The subtransactions of two states are the same, and so is their history. -/
structure SameXacts (s s' : State) : Prop where
  stack_top : s'.subxact_stack_top = s.subxact_stack_top
  subxacts : s'.subxacts = s.subxacts
  nest : s'.nest = s.nest
  next_xact : s'.next_xact = s.next_xact
  history : s'.log.filterMap Event.bracket = s.log.filterMap Event.bracket

theorem SameXacts.refl (s : State) : SameXacts s s := ⟨rfl, rfl, rfl, rfl, rfl⟩

theorem SameXacts.trans {a b c : State} (h : SameXacts a b) (h' : SameXacts b c) :
    SameXacts a c :=
  ⟨h'.stack_top.trans h.stack_top, h'.subxacts.trans h.subxacts, h'.nest.trans h.nest,
    h'.next_xact.trans h.next_xact, h'.history.trans h.history⟩

theorem same_set_active (s : State) (r : ErrorRef) : SameXacts s (s.set_active r) :=
  ⟨rfl, rfl, rfl, rfl, rfl⟩

theorem same_set_pending (s : State) (b : Bool) : SameXacts s (s.set_pending b) :=
  ⟨rfl, rfl, rfl, rfl, rfl⟩

theorem same_register (s : State) (o : ErrorObject) : SameXacts s (pllua_register_error o s) := by
  unfold pllua_register_error
  split
  · exact SameXacts.refl s
  · exact same_set_active s _

theorem same_absorb (s : State) (b : Bool) (e : ErrorData) :
    SameXacts s (pllua_absorb_pg_error b e s).2 := by
  unfold pllua_absorb_pg_error
  split
  · exact same_set_active s _
  · have h : SameXacts s { s with next_error := s.next_error + 1 } := ⟨rfl, rfl, rfl, rfl, rfl⟩
    exact h.trans (same_register _ _)

theorem same_rethrow_from_pg (s : State) (b : Bool) (e : ErrorData) :
    SameXacts s (pllua_rethrow_from_pg b e s).2 :=
  (same_absorb s b e).trans (same_set_pending _ _)

/-- The ends of an abort in the context of PostgreSQL. -/
theorem abort_pg (luck : Luck) (s : State) :
    (∃ s', pllua_subxact_abort .pg luck s = (.ok, s') ∧ s'.pending = false) ∨
    (∃ e s', pllua_subxact_abort .pg luck s = (.pg_error e, s') ∧ s'.pending = s.pending ∧
      s'.active_error = s.active_error) := by
  unfold pllua_subxact_abort
  rw [if_neg (by simp)]
  cases s.subxact_stack_top with
  | none => exact Or.inl ⟨_, rfl, rfl⟩
  | some id =>
    cases luck.rollback_error with
    | none => exact Or.inl ⟨_, rfl, rfl⟩
    | some e => exact Or.inr ⟨e, _, rfl, by simp [pop_subxact], by simp [pop_subxact]⟩

/-- The ends of an abort in Lua context. -/
theorem abort_lua (luck : Luck) (s : State) :
    (s.pending = true ∧
      pllua_subxact_abort .lua luck s = (.lua_error pending_error_violation, s)) ∨
    (s.pending = false ∧ ∃ s', pllua_subxact_abort .lua luck s = (.ok, s') ∧
      s'.pending = false) ∨
    (s.pending = false ∧ ∃ o s', pllua_subxact_abort .lua luck s = (.lua_error (.error o), s') ∧
      s'.active_error ≠ .refnil) := by
  unfold pllua_subxact_abort
  cases hp : s.pending with
  | true => exact Or.inl ⟨rfl, by simp⟩
  | false =>
    right
    simp only [Bool.false_eq_true, and_false, if_false]
    cases s.subxact_stack_top with
    | none => exact Or.inl ⟨trivial, _, rfl, rfl⟩
    | some id =>
      cases luck.rollback_error with
      | none => exact Or.inl ⟨trivial, _, rfl, rfl⟩
      | some e => exact Or.inr ⟨trivial, _, _, rfl, rethrow_from_pg_active _ _ _⟩

end pllua.errors
