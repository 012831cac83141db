-- What xpcall does with a PostgreSQL error. The pending flag is set before the
-- error is thrown, so the abort in front of the error function is refused, and
-- the error function is called for the refusal, inside the failed subtransaction.
import Pllua.ErrorPropagation

open pllua.runs

namespace pllua.errors

/-- `xpcall` has called its error function for the error, as it is to: the subtransaction
is aborted, nothing is pending, and the error function has the error itself. -/
def CalledFor (o : ErrorObject) (m : Machine) : Prop :=
  ∃ id entry st, m.control = .lua (.guts true (.handler true []) id entry st) ∧
    (m.state.subxacts id).onstack = false ∧ m.state.pending = false ∧
    m.state.log.head? = some (.handler (.error o))

/-- While an error passes through the stack it is pending. Where Lua code goes on, no
error function was called with nothing pending. -/
def Pends (m : Machine) : Prop :=
  match m.control with
  | .throw _ _ => m.state.pending = true
  | .lua _ => m.state.pending = true ∨ ∀ v, m.state.log.head? ≠ some (.handler v)
  | _ => True

section
variable {luajit : Bool} {luck : Luck} {st : Stack .lua} {s : State}

theorem pends_guts_failed (v : Value) (id : XactId) (hp : s.pending = true) :
    Pends (guts_failed luck v id st s) := by
  unfold guts_failed
  split
  · rcases abort_pg luck s with ⟨s', h, -⟩ | ⟨e, s', h, hp', -⟩
    · rw [h]
      exact Or.inr (by simp [State.emit])
    · rw [h]
      exact (absorb_pending s' luck.no_object e).trans (hp'.trans hp)
  · split
    · exact hp
    · exact Or.inl hp

theorem pends_throw_at_guts (is_xpcall : Bool) (phase : Phase) (id : XactId)
    (entry : Option XactId) (t : Thrown) (hp : s.pending = true) :
    Pends (throw_at_guts luajit luck is_xpcall phase id entry st t s) := by
  unfold throw_at_guts
  split
  · split
    · split
      · exact pends_guts_failed _ _ hp
      · -- the abort is refused
        unfold pllua_intercept_error pllua_subxact_abort
        rw [if_pos ⟨rfl, hp⟩]
        exact hp
    · exact pends_guts_failed _ _ hp
  · exact pends_guts_failed _ _ hp
  · split
    · exact pends_guts_failed _ _ hp
    · exact Or.inl hp
  · exact pends_guts_failed _ _ hp
  · split
    · exact hp
    · exact Or.inl hp
  · exact hp

theorem pends_unwind_lua (t : Thrown) (hp : s.pending = true) :
    Pends (unwind_lua luajit luck t st s) := by
  cases st with
  | activation saved st => trivial
  | lpcall st =>
    show Pends (finishpcall luajit t.value st s)
    unfold finishpcall
    split
    · exact hp
    · split
      · exact hp
      · exact Or.inl hp
  | resume co st =>
    show Pends (coresume_failed co t.value st s)
    unfold coresume_failed
    simp only
    split
    · exact hp
    · exact Or.inl hp
  | guts is_xpcall phase id entry st => exact pends_throw_at_guts is_xpcall phase id entry t hp

end

theorem step_pends (luajit : Bool) (luck : Luck) (m : Machine) (h : Pends m) :
    Pends (step luajit m (.unwind luck)) := by
  obtain ⟨c, s⟩ := m
  cases c with
  | lua st => exact h
  | pg st => trivial
  | throw t st => exact pends_unwind_lua t h
  | ereport e b st =>
    cases st with
    | base => trivial
    | exception id st => trivial
    | pgcall st => exact rethrow_from_pg_pending s luck.no_object e

theorem run_pends (luajit : Bool) (lucks : List Luck) {m : Machine} (h : Pends m) :
    Pends (run (step luajit) m (lucks.map .unwind)) := by
  induction lucks generalizing m with
  | nil => exact h
  | cons luck lucks ih => exact ih (step_pends luajit luck m h)

theorem not_calledFor {m : Machine} (h : Pends m) (o : ErrorObject) : ¬ CalledFor o m := by
  rintro ⟨id, entry, st, hc, -, hp, hlog⟩
  unfold Pends at h
  rw [hc] at h
  rcases h with h | h
  · rw [hp] at h
    cases h
  · exact h _ hlog

/-- The failure of a protected call whose subtransaction is still there. -/
theorem guts_failed_onstack {v : Value} {id : XactId} {st : Stack .lua} {s : State}
    (h : (s.subxacts id).onstack = true) :
    (guts_failed good_luck v id st s).control = .lua st ∧
      (guts_failed good_luck v id st s).state.log.head? = some (.caught v) := by
  unfold guts_failed
  rw [if_pos h]
  unfold pllua_subxact_abort
  rw [if_neg (by simp)]
  cases s.subxact_stack_top with
  | none => exact ⟨rfl, rfl⟩
  | some id' => exact ⟨rfl, rfl⟩

/-- When an error of PostgreSQL is thrown into Lua code, no `xpcall` that it meets calls
its error function for it as it is to, whatever the code, the nesting and the luck. On
Lua 5.2 and later the error function of the `xpcall` around the failing code is called
instead for the refusal of the abort, with the error pending. On LuaJIT it is not called
at all, and `xpcall` returns a message of Lua. -/
theorem no_error_function_is_called_for_an_error_of_postgresql (luajit : Bool) (no_object : Bool)
    (e : ErrorData) (st : Stack .lua) (s : State) :
    (∀ (lucks : List Luck) (o : ErrorObject), ¬ CalledFor o
      (run (step luajit)
        ⟨.throw (.raised (.error (pllua_rethrow_from_pg no_object e s).1)) st,
          (pllua_rethrow_from_pg no_object e s).2⟩ (lucks.map .unwind))) ∧
    (luajit = false → ∀ id entry st', st = .guts true .body id entry st' →
      (run (step luajit)
        ⟨.throw (.raised (.error (pllua_rethrow_from_pg no_object e s).1)) st,
          (pllua_rethrow_from_pg no_object e s).2⟩ [.unwind good_luck, .unwind good_luck]) =
        ⟨.lua (.guts true (.handler false []) id entry st'),
          (pllua_rethrow_from_pg no_object e s).2.emit (.handler pending_error_violation)⟩) ∧
    (luajit = true → ∀ id entry st', st = .guts true .body id entry st' →
      (s.subxacts id).onstack = true →
      let m := run (step luajit)
        ⟨.throw (.raised (.error (pllua_rethrow_from_pg no_object e s).1)) st,
          (pllua_rethrow_from_pg no_object e s).2⟩ [.unwind good_luck, .unwind good_luck]
      m.control = .lua st' ∧ m.state.log.head? = some (.caught Thrown.errerr.value)) := by
  refine ⟨?_, ?_, ?_⟩
  · intro lucks o
    refine not_calledFor (run_pends luajit lucks ?_) o
    exact rethrow_from_pg_pending s no_object e
  · rintro rfl id entry st' rfl
    rfl
  · rintro rfl id entry st' rfl hon
    have hon' : ((pllua_rethrow_from_pg no_object e s).2.subxacts id).onstack = true := by
      rw [(same_rethrow_from_pg s no_object e).subxacts]
      exact hon
    exact guts_failed_onstack hon'

/-- The error function of an `xpcall` gets a message in place of the error, while the
error is pending and before the subtransaction is aborted. -/
theorem an_error_function_gets_the_refusal :
    let m := run (step false) start (failing_xpcall ++ [.unwind good_luck])
    m.state.log.head? = some (.handler pending_error_violation) ∧
    m.state.pending = true ∧ (m.state.subxacts 0).onstack = true ∧
    m.control = .lua (.guts true (.handler false []) 0 none (.activation .refnil .base)) := by
  decide

end pllua.errors
