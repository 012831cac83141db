-- The way of a PostgreSQL error in Lua code: it goes unchanged through every
-- lpcall and coroutine.resume up to the next pcall, xpcall or subtransaction, or
-- out of the activation. And what the steps of the machine report.
import Pllua.PendingErrors

open pllua.runs

namespace pllua.errors

/-! ## The way of an error -/

/-- The stack from the next `pllua_t_pcall_guts` or activation on. -/
def Stack.boundary : {side : Side} → Stack side → Stack side
  | _, .lpcall st => st.boundary
  | _, .resume _ st => st.boundary
  | _, st => st

/-- The calls of `lpcall` and `coroutine.resume` on the way, with the coroutines. -/
def Stack.crossed : {side : Side} → Stack side → List (Option Nat)
  | _, .lpcall st => none :: st.crossed
  | _, .resume co st => some co :: st.crossed
  | _, _ => []

/-- The coroutines that the error has passed are dead. -/
def State.kill (s : State) (cs : List (Option Nat)) : State :=
  cs.foldl (fun s c => match c with
    | some co => s.set_coroutine co .dead
    | none => s) s

/-- A PostgreSQL error is on its way: it is pending, or it is the active error and an
error function runs for it. -/
def Stack.in_flight : {side : Side} → Stack side → Bool
  | _, .lpcall st => st.in_flight
  | _, .resume _ st => st.in_flight
  | _, .guts _ .body _ _ st => st.in_flight
  | _, .guts _ .intercept _ _ _ => true
  | _, .guts _ (.handler aborted errors) _ _ st =>
    !aborted || errors.any Value.is_error || st.in_flight
  | _, _ => false

def Control.in_flight : Control → Bool
  | .lua st => st.in_flight
  | .throw _ st => st.in_flight
  | _ => false

def Propagating (m : Machine) : Prop :=
  m.state.pending = true ∨ m.state.active_error ≠ .refnil ∧ m.control.in_flight = true

/-- An error crosses the calls on its way in as many steps, and stays what it is. -/
theorem an_error_crosses (luajit : Bool) (o : ErrorObject) {side : Side} (st : Stack side)
    (hs : side = .lua) (s : State) (lucks : List Luck) (hl : lucks.length = st.crossed.length) :
    run (step luajit) ⟨.throw (.raised (.error o)) (hs ▸ st), s⟩ (lucks.map .unwind) =
      ⟨.throw (.raised (.error o)) (hs ▸ st.boundary), s.kill st.crossed⟩ := by
  induction st generalizing s lucks with
  | lpcall st ih =>
    cases lucks with
    | nil => cases hl
    | cons luck lucks => exact ih rfl s lucks (Nat.succ.inj hl)
  | resume co st ih =>
    cases lucks with
    | nil => cases hl
    | cons luck lucks => exact ih rfl (s.set_coroutine co .dead) lucks (Nat.succ.inj hl)
  | _ =>
    rw [List.eq_nil_of_length_eq_zero hl]
    rfl

/-! ## What is reported -/

/-- Where the active error is not looked at: a plain error ends a coroutine, or an
`lpcall` on LuaJIT, or `coroutine.resume` begins, or ends with what the coroutine returns or
yields. -/
def Unchecked (luajit : Bool) (m : Machine) : Action → Prop
  | .unwind _ =>
    match m.control with
    | .throw t (.lpcall _) => luajit = true ∧ t.value.is_error = false
    | .throw t (.resume _ _) => t.value.is_error = false
    | _ => False
  | .resume _ _ =>
    match m.control with
    | .lua _ => True
    | _ => False
  | .ret _ _ =>
    match m.control with
    | .lua (.resume _ _) => True
    | _ => False
  | .yield _ =>
    match m.control with
    | .lua st => (yield_to luajit st).isSome
    | _ => False
  | _ => False

/-- What a step reports is no error object, and no error is on its way. -/
def ReportsPlain (luajit : Bool) (m : Machine) (a : Action) : Prop :=
  ∀ v, (step luajit m a).state.notes = .reported v :: m.state.notes →
    v.is_error = false ∧ ¬ Propagating m

theorem ne_cons_self {α : Type} {l : List α} {v : α} (h : l = v :: l) : False := by
  have hl := congrArg List.length h
  simp at hl

theorem notes_guts_entry (is_xpcall : Bool) (luck : Luck) (st : Stack .lua) (s : State) :
    (pllua_t_pcall_guts is_xpcall luck st s).state.notes = s.notes := by
  unfold pllua_t_pcall_guts
  split
  · rfl
  · cases luck.begin_error with
    | none => rfl
    | some e => exact (absorb_notes _ _ _).trans (begin_failed_notes _ _ _)

theorem notes_guts_returned (luck : Luck) (id : XactId) (st : Stack .lua) (s : State) :
    (guts_returned luck id st s).state.notes = s.notes ∨
      (guts_returned luck id st s).state.notes = .assert_failed :: s.notes ∧
        s.active_error ≠ .refnil := by
  unfold guts_returned
  simp only
  split
  · have h := release_notes (s.emit (.returned id))
    split
    · rename_i hsome
      refine Or.inr ⟨congrArg (Event.assert_failed :: ·) h, ?_⟩
      intro hnil
      simp [pllua_get_active_error, hnil] at hsome
    · exact Or.inl h
  · rename_i e _
    left
    generalize hs1 : release_failed luck ((s.emit (.returned id)).emit (.release_failed id)) = s1
    have hnotes : s1.notes = s.notes := by
      rw [← hs1]
      exact release_failed_notes _ _
    have h := (absorb_notes s1 luck.no_object e).trans hnotes
    have ha := abort_notes (pllua_absorb_pg_error luck.no_object e s1).2 .lua luck
    split
    · split
      · rename_i heq
        rw [heq] at ha
        exact ha.trans h
      · rename_i heq
        rw [heq] at ha
        exact ha.trans h
    · exact h

theorem notes_guts_failed (luck : Luck) (v : Value) (id : XactId) (st : Stack .lua) (s : State) :
    (guts_failed luck v id st s).state.notes = s.notes := by
  unfold guts_failed
  split
  · have ha := abort_notes s .pg luck
    split
    · rename_i heq
      rw [heq] at ha
      exact (absorb_notes _ _ _).trans ha
    · rename_i heq
      rw [heq] at ha
      exact ha
  · split
    · rfl
    · rfl

theorem notes_throw_at_guts (luajit : Bool) (luck : Luck) (is_xpcall : Bool) (phase : Phase)
    (id : XactId) (entry : Option XactId) (st : Stack .lua) (t : Thrown) (s : State) :
    (throw_at_guts luajit luck is_xpcall phase id entry st t s).state.notes = s.notes := by
  have hf := fun v => notes_guts_failed luck v id st s
  unfold throw_at_guts
  split
  · split
    · split
      · exact hf _
      · unfold pllua_intercept_error
        have ha := abort_notes s .lua luck
        split
        · rename_i heq
          rw [heq] at ha
          exact ha
        · rename_i heq
          rw [heq] at ha
          exact ha
    · exact hf _
  · exact hf _
  · split
    · exact hf _
    · rfl
  · exact hf _
  · split <;> rfl
  · rfl

theorem notes_coresume_done (luck : Luck) (st : Stack .lua) (s : State) :
    (coresume_done luck st s).state.notes = s.notes ∨
      ∃ v, v.is_error = false ∧ (coresume_done luck st s).state.notes = .reported v :: s.notes := by
  rcases coresume_done_cases luck st s with ⟨v, hv, heq⟩ | heq
  · rw [heq]
    exact Or.inr ⟨v, hv, rfl⟩
  · rw [heq]
    exact Or.inl rfl

theorem notes_return_lua (v : Value) (luck : Luck) (st : Stack .lua) (s : State) :
    (return_lua v luck st s).state.notes = s.notes ∨
      ((return_lua v luck st s).state.notes = .assert_failed :: s.notes ∧
        s.active_error ≠ .refnil) ∨
      ((∃ co st', st = .resume co st') ∧
        ∃ w, w.is_error = false ∧ (return_lua v luck st s).state.notes = .reported w :: s.notes) := by
  unfold return_lua
  split
  · simp only
    split
    · rename_i hsome
      refine Or.inr (Or.inl ⟨rfl, ?_⟩)
      intro hnil
      rw [(get_active_eq_none s).mpr hnil] at hsome
      cases hsome
    · exact Or.inl rfl
  · exact Or.inl rfl
  · rename_i co st
    rcases notes_coresume_done luck st (s.set_coroutine co .dead) with h | h
    · exact Or.inl h
    · exact Or.inr (Or.inr ⟨⟨co, st, rfl⟩, h⟩)
  · exact Or.inl rfl
  · exact Or.inl rfl
  · rename_i id _ st _ _
    rcases notes_guts_returned luck id st s with h | h
    · exact Or.inl h
    · exact Or.inr (Or.inl h)

/-- What a step notes: nothing, a report of a plain value where no error is active or nobody
looks for one, or a failed assertion where a Lua function returns. -/
inductive StepNotes (luajit : Bool) (m : Machine) (a : Action) : Prop
  | same (h : (step luajit m a).state.notes = m.state.notes)
  | reported (v : Value) (h : (step luajit m a).state.notes = .reported v :: m.state.notes)
      (plain : v.is_error = false)
      (why : Unchecked luajit m a ∨ m.state.active_error = .refnil)
  | assert_failed (h : (step luajit m a).state.notes = .assert_failed :: m.state.notes)
      (active : m.state.active_error ≠ .refnil)
      (returns : ∃ st v luck, m.control = .lua st ∧ a = .ret v luck)

theorem notes_finishpcall {luajit : Bool} {luck : Luck} {t : Thrown} {st : Stack .lua} {s : State} :
    StepNotes luajit ⟨.throw t (.lpcall st), s⟩ (.unwind luck) := by
  have herr : ∀ o, finishpcall luajit t.value st s = ⟨.throw (.raised (.error o)) st, s⟩ →
      StepNotes luajit ⟨.throw t (.lpcall st), s⟩ (.unwind luck) :=
    fun o h => .same (congrArg (·.state.notes) h)
  have hplain : t.value.is_error = false →
      finishpcall luajit t.value st s = ⟨.lua st, s.emit (.reported t.value)⟩ →
      (luajit = false → s.active_error = .refnil) →
      StepNotes luajit ⟨.throw t (.lpcall st), s⟩ (.unwind luck) := by
    intro hv h hnil
    refine .reported t.value (congrArg (·.state.notes) h) hv ?_
    cases luajit with
    | true => exact Or.inl ⟨rfl, hv⟩
    | false => exact Or.inr (hnil rfl)
  cases hv : t.value with
  | error o => exact herr o (by rw [hv]; rfl)
  | _ =>
    unfold finishpcall at herr hplain
    rw [hv] at herr hplain
    simp only at herr hplain
    split at herr
    · exact herr _ rfl
    · rename_i hnone
      rw [hnone] at hplain
      refine hplain rfl rfl ?_
      intro hj
      rw [hj] at hnone
      exact (get_active_eq_none s).mp hnone

theorem notes_coresume_failed {luajit : Bool} {luck : Luck} {co : Nat} {t : Thrown}
    {st : Stack .lua} {s : State} :
    StepNotes luajit ⟨.throw t (.resume co st), s⟩ (.unwind luck) := by
  have hstep : step luajit ⟨.throw t (.resume co st), s⟩ (.unwind luck) =
      coresume_failed co t.value st s := rfl
  have hunchecked : t.value.is_error = false →
      Unchecked luajit ⟨.throw t (.resume co st), s⟩ (.unwind luck) := id
  unfold coresume_failed at hstep
  cases hv : t.value with
  | error o =>
    rw [hv] at hstep
    exact .same (congrArg (·.state.notes) hstep)
  | _ =>
    rw [hv] at hstep hunchecked
    exact .reported _ (congrArg (·.state.notes) hstep) rfl (Or.inl (hunchecked rfl))

theorem notes_coresume {luajit : Bool} {co : Nat} {luck : Luck} {st : Stack .lua} {s : State} :
    StepNotes luajit ⟨.lua st, s⟩ (.resume co luck) := by
  have hstep : step luajit ⟨.lua st, s⟩ (.resume co luck) = pllua_t_coresume luck co st s := rfl
  rcases coresume_cases luck co st s with ⟨why, heq⟩ | ⟨n, heq⟩
  · exact .reported _ (congrArg (·.state.notes) (hstep.trans heq)) rfl (Or.inl trivial)
  · exact .same (congrArg (·.state.notes) (hstep.trans heq))

theorem notes_yield {luajit : Bool} {luck : Luck} {st : Stack .lua} {s : State} :
    StepNotes luajit ⟨.lua st, s⟩ (.yield luck) := by
  have hstep : step luajit ⟨.lua st, s⟩ (.yield luck) = lua_yield luajit luck st s := rfl
  cases hy : yield_to luajit st with
  | none =>
    unfold lua_yield at hstep
    rw [hy] at hstep
    exact .same (congrArg (·.state.notes) hstep)
  | some target =>
    obtain ⟨n, co, st'⟩ := target
    have hunchecked : Unchecked luajit ⟨.lua st, s⟩ (.yield luck) := by
      simp [Unchecked, hy]
    unfold lua_yield at hstep
    rw [hy] at hstep
    have hnotes := congrArg (·.state.notes) hstep
    rcases notes_coresume_done luck st' (s.set_coroutine co (.suspended n)) with h | ⟨v, hv, h⟩
    · exact .same (hnotes.trans h)
    · exact .reported v (hnotes.trans h) hv (Or.inl hunchecked)

theorem notes_lua {luajit : Bool} {st : Stack .lua} {s : State} (a : Action) :
    StepNotes luajit ⟨.lua st, s⟩ a := by
  cases a with
  | ret v luck =>
    rcases notes_return_lua v luck st s with hsame | ⟨hfailed, hact⟩ | ⟨⟨co, st', rfl⟩, w, hw, h⟩
    · exact .same hsame
    · exact .assert_failed hfailed hact ⟨st, v, luck, rfl, rfl⟩
    · exact .reported w h hw (Or.inl trivial)
  | resume co luck => exact notes_coresume
  | yield luck => exact notes_yield
  | pcall luck => exact .same (notes_guts_entry false luck st s)
  | xpcall luck => exact .same (notes_guts_entry true luck st s)
  | pgcall =>
    refine .same ?_
    show (pllua_try st s).state.notes = s.notes
    unfold pllua_try
    split <;> rfl
  | interrupt e luck => exact .same (rethrow_from_pg_notes s luck.no_object e)
  | _ => exact .same rfl

theorem notes_pg {luajit : Bool} {st : Stack .pg} {s : State} (a : Action) :
    StepNotes luajit ⟨.pg st, s⟩ a := by
  refine .same ?_
  cases a with
  | done =>
    cases st with
    | exception id st => exact release_notes _
    | _ => rfl
  | _ => rfl

theorem notes_unwind_pg {luajit : Bool} {luck : Luck} {e : ErrorData} {b : Bool} {st : Stack .pg}
    {s : State} : StepNotes luajit ⟨.ereport e b st, s⟩ (.unwind luck) := by
  refine .same ?_
  cases st with
  | base => rfl
  | exception id st => exact rollback_notes s
  | pgcall st => exact rethrow_from_pg_notes _ _ _

theorem notes_unwind_lua {luajit : Bool} {luck : Luck} {t : Thrown} {st : Stack .lua} {s : State} :
    StepNotes luajit ⟨.throw t st, s⟩ (.unwind luck) := by
  cases st with
  | activation saved st => exact .same (rethrow_from_lua_notes (s.set_active saved) _ _ _)
  | lpcall st => exact notes_finishpcall
  | resume co st => exact notes_coresume_failed
  | guts is_xpcall phase id entry st =>
    exact .same (notes_throw_at_guts luajit luck is_xpcall phase id entry st t s)

theorem step_notes (luajit : Bool) (m : Machine) (a : Action) : StepNotes luajit m a := by
  obtain ⟨c, s⟩ := m
  cases c with
  | lua st => exact notes_lua a
  | pg st => exact notes_pg a
  | throw t st =>
    cases a with
    | unwind luck => exact notes_unwind_lua
    | _ => exact .same rfl
  | ereport e b st =>
    cases a with
    | unwind luck => exact notes_unwind_pg
    | _ => exact .same rfl

/-! ## A run -/

/-- A Lua function with an xpcall whose function raises a PostgreSQL error. -/
def failing_xpcall : List Action :=
  [.activation, .xpcall good_luck, .pgcall, .ereport (.ereport 1), .unwind good_luck,
    .unwind good_luck]

end pllua.errors
