-- The law of the active error: an activation has one only while an error is on
-- its way in it. It breaks where PostgreSQL catches an error object that came out
-- of an inner activation, since the object is registered in the outer one.
import Pllua.ErrorPropagation

open pllua.runs

namespace pllua.errors

/-! ## The law -/

/-- Whether an active error may be left in a phase only for an error on its way. -/
def Phase.allows : Phase → ErrorRef → Prop
  | .body, r => r = .refnil
  | .intercept, _ => True
  | .handler aborted errors, r => aborted = true → errors.any Value.is_error = false → r = .refnil

/-- The active errors of the activations on the stack are those of errors on their way. The
one of the innermost activation is given, or nothing is asked of it. -/
def Lawful : {side : Side} → Option ErrorRef → Stack side → Prop
  | _, _, .base => True
  | _, r, .exception _ st => Lawful r st
  | _, r, .pgcall st => Lawful r st
  | _, r, .activation saved st => (∀ a, r = some a → a = .refnil) ∧ Lawful (some saved) st
  | _, r, .lpcall st => Lawful r st
  | _, r, .resume _ st => Lawful r st
  | _, r, .guts _ phase _ _ st => (∀ a, r = some a → phase.allows a) ∧ Lawful none st

/-- An error on its way that may still be the active one: an error object, or any error that
goes from a message handler to its protected call. -/
def Thrown.loose (t : Thrown) : Stack .lua → Bool
  | .guts _ .intercept _ _ _ => true
  | .guts _ (.handler _ _) _ _ _ =>
    match t with
    | .raised v => v.is_error
    | _ => true
  | _ => t.value.is_error

def ActiveLaw (m : Machine) : Prop :=
  match m.control with
  | .lua st => Lawful (some m.state.active_error) st
  | .pg st => Lawful (some m.state.active_error) st
  | .throw t st => Lawful (if t.loose st then none else some m.state.active_error) st
  | .ereport _ from_lua st => Lawful (if from_lua then none else some m.state.active_error) st

/-- Some activation is on the stack. -/
def Stack.has_activation : {side : Side} → Stack side → Bool
  | _, .base => false
  | _, .exception _ st => st.has_activation
  | _, .pgcall st => st.has_activation
  | _, .activation _ _ => true
  | _, .lpcall st => st.has_activation
  | _, .resume _ st => st.has_activation
  | _, .guts _ _ _ _ st => st.has_activation

/-- The condition of a step. Inside an activation PostgreSQL catches no error that came out
of an inner activation as an error object, and no subtransaction is begun while an error is
active. -/
def Disciplined (m : Machine) : Action → Prop
  | .unwind _ =>
    match m.control with
    | .ereport _ true (.exception _ st) => st.has_activation = false
    | _ => True
  | .pcall _ | .xpcall _ =>
    match m.control with
    | .lua _ => m.state.pending = true ∨ m.state.active_error = .refnil
    | _ => True
  | _ => True

/-- Where Lua code runs, and where `lpcall` has caught a plain error, an error is active
only when one is on its way. Where an activation or a protected function can return, none is
active. -/
def Settled (m : Machine) : Prop :=
  match m.control with
  | .lua st =>
    (m.state.active_error ≠ .refnil → st.in_flight = true) ∧
    match st with
    | .activation _ _ => pllua_get_active_error m.state = none
    | .guts _ .body _ _ _ => pllua_get_active_error m.state = none
    | _ => True
  | .throw t (.lpcall st) =>
    t.value.is_error = false → m.state.active_error ≠ .refnil → st.in_flight = true
  | _ => True

/-! ## More and less law -/

theorem allows_refnil (phase : Phase) : phase.allows .refnil := by
  cases phase with
  | body => rfl
  | intercept => trivial
  | handler aborted errors => exact fun _ _ => rfl

theorem lawful_none {side : Side} {st : Stack side} {r : Option ErrorRef} (h : Lawful r st) :
    Lawful none st := by
  induction st generalizing r with
  | base => trivial
  | exception id st ih => exact ih h
  | pgcall st ih => exact ih h
  | activation saved st ih => exact ⟨by simp, h.2⟩
  | lpcall st ih => exact ih h
  | resume co st ih => exact ih h
  | guts b phase id entry st ih => exact ⟨by simp, h.2⟩

theorem lawful_refnil {side : Side} {st : Stack side} (h : Lawful none st) :
    Lawful (some .refnil) st := by
  induction st with
  | base => trivial
  | exception id st ih => exact ih h
  | pgcall st ih => exact ih h
  | activation saved st ih =>
    refine ⟨?_, h.2⟩
    intro a ha
    exact (Option.some.inj ha).symm
  | lpcall st ih => exact ih h
  | resume co st ih => exact ih h
  | guts b phase id entry st ih =>
    refine ⟨?_, h.2⟩
    intro a ha
    rw [← Option.some.inj ha]
    exact allows_refnil phase

/-- The Lua code on a stack is in an activation. -/
theorem has_activation_lua {side : Side} (st : Stack side) (hs : side = .lua) :
    st.has_activation = true := by
  induction st with
  | base => cases hs
  | exception id st ih => cases hs
  | pgcall st ih => cases hs
  | activation saved st ih => rfl
  | lpcall st ih => exact ih rfl
  | resume co st ih => exact ih rfl
  | guts b phase id entry st ih => exact ih rfl

/-- With no activation there is nothing to ask. -/
theorem lawful_outside {side : Side} {st : Stack side} (r : Option ErrorRef)
    (h : st.has_activation = false) : Lawful r st := by
  induction st with
  | base => trivial
  | exception id st ih => exact ih h
  | pgcall st ih => exact ih h
  | activation saved st ih => cases h
  | lpcall st ih => exact ih h
  | resume co st ih => exact ih h
  | guts b phase id entry st ih =>
    have hact : st.has_activation = true := has_activation_lua st rfl
    have hnone : st.has_activation = false := h
    rw [hact] at hnone
    cases hnone

theorem lawful_in_flight {side : Side} {st : Stack side} {r : ErrorRef} (hs : side = .lua)
    (h : Lawful (some r) st) (hr : r ≠ .refnil) : st.in_flight = true := by
  induction st with
  | base => cases hs
  | exception id st ih => cases hs
  | pgcall st ih => cases hs
  | activation saved st ih => exact absurd (h.1 r rfl) hr
  | lpcall st ih => exact ih rfl h
  | resume co st ih => exact ih rfl h
  | guts b phase id entry st ih =>
    have hp := h.1 r rfl
    cases phase with
    | body => exact absurd hp hr
    | intercept => rfl
    | handler aborted errors =>
      unfold Stack.in_flight
      cases aborted with
      | false => rfl
      | true =>
        cases herr : errors.any Value.is_error with
        | true => rfl
        | false => exact absurd (hp rfl herr) hr

theorem active_settled {m : Machine} (h : ActiveLaw m) : Settled m := by
  obtain ⟨c, s⟩ := m
  cases c with
  | lua st =>
    have hl : Lawful (some s.active_error) st := h
    refine ⟨lawful_in_flight rfl hl, ?_⟩
    cases st with
    | activation saved st => exact (get_active_eq_none s).mpr (hl.1 _ rfl)
    | guts b phase id entry st =>
      cases phase with
      | body => exact (get_active_eq_none s).mpr (hl.1 _ rfl)
      | _ => trivial
    | _ => trivial
  | throw t st =>
    cases st with
    | lpcall st =>
      intro hv
      have hl : Lawful (if t.value.is_error then none else some s.active_error) st := h
      rw [hv] at hl
      exact lawful_in_flight rfl hl
    | _ => trivial
  | pg st => trivial
  | ereport e b st => trivial

/-! ## Each function keeps the law -/

section
variable {luajit : Bool} {luck : Luck} {st : Stack .lua} {s : State}

theorem active_throw_error (o : ErrorObject) (h : Lawful none st) :
    ActiveLaw ⟨.throw (.raised (.error o)) st, s⟩ := by
  have hloose : (Thrown.raised (.error o)).loose st = true := by
    cases st with
    | guts b phase id entry st => cases phase <;> rfl
    | _ => rfl
  unfold ActiveLaw
  simp only [hloose, if_true]
  exact h

/-- An error raised by the Lua code that runs. -/
theorem active_throw_lua (t : Thrown) (h : Lawful (some s.active_error) st) :
    ActiveLaw ⟨.throw t st, s⟩ := by
  unfold ActiveLaw
  simp only
  split
  · exact lawful_none h
  · exact h

theorem active_guts_entry (is_xpcall : Bool) (h : Lawful (some s.active_error) st)
    (hok : s.pending = true ∨ s.active_error = .refnil) :
    ActiveLaw (pllua_t_pcall_guts is_xpcall luck st s) := by
  unfold pllua_t_pcall_guts
  split
  · exact active_throw_lua _ h
  · rename_i hp
    have hnil : s.active_error = .refnil := by
      rcases hok with hok | hok
      · exact absurd hok hp
      · exact hok
    simp only
    split
    · exact active_throw_error _ (lawful_none h)
    · refine ⟨?_, lawful_none h⟩
      intro a ha
      rw [← Option.some.inj ha]
      exact hnil

theorem active_guts_returned (id : XactId) (h : Lawful none st) (hnil : s.active_error = .refnil)
    (hp : s.pending = false) : ActiveLaw (guts_returned luck id st s) := by
  unfold guts_returned
  simp only
  split
  · unfold ActiveLaw
    simp only
    split
    · simp only [emit_active, release_active, hnil]
      exact lawful_refnil h
    · simp only [emit_active, release_active, hnil]
      exact lawful_refnil h
  · rename_i e _
    generalize hs1 : release_failed luck ((s.emit (.returned id)).emit (.release_failed id)) = s1
    have hpend : (pllua_absorb_pg_error luck.no_object e s1).2.pending = false := by
      rw [absorb_pending, ← hs1]
      exact (release_failed_pending _ _).trans hp
    split
    · rcases abort_lua luck (pllua_absorb_pg_error luck.no_object e s1).2 with
        ⟨hpa, -⟩ | ⟨-, s', ha, -⟩ | ⟨-, o, s', ha, -⟩
      · rw [hpend] at hpa
        cases hpa
      · rw [ha]
        exact active_throw_error _ h
      · rw [ha]
        exact active_throw_error _ h
    · exact active_throw_error _ h

theorem active_guts_failed (v : Value) (id : XactId) (h : Lawful none st) :
    ActiveLaw (guts_failed luck v id st s) := by
  unfold guts_failed
  split
  · rcases abort_pg luck s with ⟨s', heq, -⟩ | ⟨e, s', heq, -, -⟩
    · rw [heq]
      exact lawful_refnil h
    · rw [heq]
      exact active_throw_error _ h
  · split
    · exact active_throw_error _ h
    · rename_i hnone
      have hnil := (get_active_eq_none s).mp hnone
      unfold ActiveLaw
      simp only [emit_active, hnil]
      exact lawful_refnil h

theorem active_throw_at_guts (is_xpcall : Bool) (phase : Phase) (id : XactId)
    (entry : Option XactId) (t : Thrown)
    (h : ActiveLaw ⟨.throw t (.guts is_xpcall phase id entry st), s⟩) :
    ActiveLaw (throw_at_guts luajit luck is_xpcall phase id entry st t s) := by
  have hn : Lawful none st := h.2
  have hf : ∀ v, ActiveLaw (guts_failed luck v id st s) := fun v => active_guts_failed v id hn
  unfold throw_at_guts
  split
  · split
    · split
      · exact hf _
      · unfold pllua_intercept_error
        rcases abort_lua luck s with ⟨-, heq⟩ | ⟨-, s', heq, -⟩ | ⟨-, o, s', heq, -⟩
        · rw [heq]
          exact ⟨fun _ _ => trivial, hn⟩
        · rw [heq]
          refine ⟨?_, hn⟩
          intro a ha
          rw [← Option.some.inj ha]
          exact allows_refnil _
        · rw [heq]
          exact ⟨fun _ _ => trivial, hn⟩
    · exact hf _
  · exact hf _
  · split
    · exact hf _
    · refine ⟨?_, hn⟩
      intro a _ haborted
      cases haborted
  · exact hf _
  · rename_i aborted errors v
    split
    · exact ⟨by simp [Thrown.loose], hn⟩
    · refine ⟨?_, hn⟩
      intro a ha haborted herr
      -- the error of the error function is a plain one, and so are those before it
      rw [List.any_cons, Bool.or_eq_false_iff] at herr
      have hl := h.1
      unfold Thrown.loose at hl
      simp only [herr.1, Bool.false_eq_true, if_false] at hl
      exact hl a ha haborted herr.2
  · exact ⟨by simp [Thrown.loose], hn⟩

theorem active_goes_on (t : Thrown) (e : Event) (hv : t.value.is_error = false)
    (h : Lawful (if t.value.is_error then none else some s.active_error) st) :
    ActiveLaw ⟨.lua st, s.emit e⟩ := by
  rw [hv] at h
  exact h

theorem active_finishpcall (t : Thrown) (h : ActiveLaw ⟨.throw t (.lpcall st), s⟩) :
    ActiveLaw (finishpcall luajit t.value st s) := by
  have hplain : t.value.is_error = false → ActiveLaw ⟨.lua st, s.emit (.reported t.value)⟩ :=
    fun hv => active_goes_on t _ hv h
  have hn : Lawful none st := lawful_none h
  unfold finishpcall
  cases hv : t.value with
  | error o => exact active_throw_error o hn
  | _ =>
    rw [hv] at hplain
    simp only
    split
    · exact active_throw_error _ hn
    · exact hplain rfl

theorem active_coresume_failed (co : Nat) (t : Thrown)
    (h : ActiveLaw ⟨.throw t (.resume co st), s⟩) :
    ActiveLaw (coresume_failed co t.value st s) := by
  have hplain : t.value.is_error = false →
      ActiveLaw ⟨.lua st, (s.set_coroutine co .dead).emit (.reported t.value)⟩ :=
    fun hv => active_goes_on (s := s.set_coroutine co .dead) t _ hv h
  unfold coresume_failed
  cases hv : t.value with
  | error o => exact active_throw_error o (lawful_none h)
  | _ =>
    rw [hv] at hplain
    exact hplain rfl

theorem active_activation_failed (t : Thrown) (saved : ErrorRef) (st : Stack .pg)
    (h : ActiveLaw ⟨.throw t (.activation saved st), s⟩) :
    ActiveLaw (activation_failed luck t saved st s) := by
  have hl : Lawful (some saved) st := h.2
  unfold activation_failed ActiveLaw
  simp only
  cases hv : t.value.is_error with
  | true => exact lawful_none hl
  | false =>
    rw [rethrow_from_lua_plain _ _ _ hv]
    exact hl

theorem active_unwind_lua (t : Thrown) (h : ActiveLaw ⟨.throw t st, s⟩) :
    ActiveLaw (unwind_lua luajit luck t st s) := by
  cases st with
  | activation saved st => exact active_activation_failed t saved st h
  | lpcall st => exact active_finishpcall t h
  | resume co st => exact active_coresume_failed co t h
  | guts is_xpcall phase id entry st => exact active_throw_at_guts is_xpcall phase id entry t h

theorem active_coresume_done (h : Lawful (some s.active_error) st) :
    ActiveLaw (coresume_done luck st s) := by
  rcases coresume_done_cases luck st s with ⟨v, -, heq⟩ | heq
  · rw [heq]
    exact h
  · rw [heq]
    exact h

theorem active_return_lua (v : Value) (hp : PendingLaw ⟨.lua st, s⟩)
    (h : Lawful (some s.active_error) st) : ActiveLaw (return_lua v luck st s) := by
  unfold return_lua
  split
  · unfold ActiveLaw
    simp only
    split
    · exact h.2
    · exact h.2
  · exact h
  · rename_i co st
    exact active_coresume_done (s := s.set_coroutine co .dead) h
  · exact ⟨fun _ _ => trivial, h.2⟩
  · exact ⟨by simp [Thrown.loose], h.2⟩
  · rename_i is_xpcall phase id entry st hnil hcons
    obtain ⟨rfl, hquiet⟩ := phase_body hp fun aborted errors => by
      cases errors with
      | nil => exact hnil aborted
      | cons e errors => exact hcons aborted e errors
    exact active_guts_returned id h.2 (h.1 _ rfl) hquiet

/-- No assertion fails where a function returns. -/
theorem unfailing_return_lua (v : Value) (hp : PendingLaw ⟨.lua st, s⟩)
    (h : Lawful (some s.active_error) st) :
    (return_lua v luck st s).state.notes ≠ .assert_failed :: s.notes := by
  intro hfailed
  rcases notes_return_lua v luck st s with hsame | ⟨-, hact⟩ | ⟨⟨co, st', rfl⟩, w, -, hnotes⟩
  · exact ne_cons_self (hsame.symm.trans hfailed)
  · unfold return_lua at hfailed
    split at hfailed
    · exact hact (h.1 _ rfl)
    · exact ne_cons_self hfailed
    · rename_i co st
      rcases notes_coresume_done luck st (s.set_coroutine co .dead) with hsame | ⟨w, -, hw⟩
      · exact ne_cons_self (hsame.symm.trans hfailed)
      · cases hw.symm.trans hfailed
    · exact ne_cons_self hfailed
    · exact ne_cons_self hfailed
    · rename_i is_xpcall phase id entry st hnil hcons
      obtain ⟨rfl, -⟩ := phase_body hp fun aborted errors => by
        cases errors with
        | nil => exact hnil aborted
        | cons e errors => exact hcons aborted e errors
      exact hact (h.1 _ rfl)
  · cases hnotes.symm.trans hfailed

theorem lawful_push_lpcalls (r : Option ErrorRef) (n co : Nat) :
    Lawful r (push_lpcalls n (.resume co st)) ↔ Lawful r st := by
  induction n with
  | zero => rfl
  | succ n ih => exact ih

theorem active_step_lua (a : Action) (hp : PendingLaw ⟨.lua st, s⟩)
    (h : Lawful (some s.active_error) st) (hok : Disciplined ⟨.lua st, s⟩ a) :
    ActiveLaw (step_lua luajit st s a) := by
  cases a with
  | ret v luck => exact active_return_lua v hp h
  | error v => exact active_throw_lua _ h
  | memory => exact active_throw_lua _ h
  | lpcall => exact h
  | resume co luck =>
    show ActiveLaw (pllua_t_coresume luck co st s)
    rcases coresume_cases luck co st s with ⟨why, heq⟩ | ⟨n, heq⟩
    · rw [heq]
      exact h
    · rw [heq]
      exact (lawful_push_lpcalls _ _ _).mpr h
  | yield luck =>
    show ActiveLaw (lua_yield luajit luck st s)
    unfold lua_yield
    split
    · rename_i n co st' hy
      rw [yield_to_spec hy] at h
      exact active_coresume_done (s := s.set_coroutine co _) ((lawful_push_lpcalls _ _ _).mp h)
    · exact active_throw_lua _ h
  | pcall luck => exact active_guts_entry false h hok
  | xpcall luck => exact active_guts_entry true h hok
  | pgcall =>
    show ActiveLaw (pllua_try st s)
    unfold pllua_try
    split
    · exact active_throw_lua _ h
    · exact h
  | interrupt e luck => exact active_throw_error _ (lawful_none h)
  | activation | exception | done | ereport e | unwind luck => exact h

theorem active_step_pg (st : Stack .pg) (a : Action) (h : Lawful (some s.active_error) st) :
    ActiveLaw (step_pg st s a) := by
  cases a with
  | activation =>
    refine ⟨?_, h⟩
    intro a ha
    exact (Option.some.inj ha).symm
  | done =>
    cases st with
    | exception id st =>
      show Lawful (some (ReleaseCurrentSubTransaction (s.emit (.returned id))).active_error) st
      rw [release_active]
      exact h
    | _ => exact h
  | _ => exact h

theorem active_unwind_pg (e : ErrorData) (b : Bool) (st : Stack .pg)
    (h : ActiveLaw ⟨.ereport e b st, s⟩) (hok : Disciplined ⟨.ereport e b st, s⟩ (.unwind luck)) :
    ActiveLaw (unwind_pg luck e st s) := by
  cases st with
  | base => trivial
  | exception id st =>
    show Lawful (some (RollbackAndReleaseCurrentSubTransaction s).active_error) st
    rw [rollback_active]
    cases b with
    | true => exact lawful_outside _ hok
    | false => exact h
  | pgcall st => exact active_throw_error _ (lawful_none h)

end

/-- The step fails no assertion that an error is not active. -/
def Unfailing (luajit : Bool) (m : Machine) (a : Action) : Prop :=
  (step luajit m a).state.notes ≠ .assert_failed :: m.state.notes

theorem step_unfailing (luajit : Bool) (m : Machine) (a : Action) (hp : PendingLaw m)
    (h : ActiveLaw m) : Unfailing luajit m a := by
  intro hfailed
  cases step_notes luajit m a with
  | same hsame => exact ne_cons_self (hsame.symm.trans hfailed)
  | reported v hv => cases hv.symm.trans hfailed
  | assert_failed _ _ returns =>
    obtain ⟨st, v, luck, hc, rfl⟩ := returns
    obtain ⟨c, s⟩ := m
    cases hc
    exact unfailing_return_lua v hp h hfailed

/-- What a disciplined step keeps. -/
theorem step_activeLaw (luajit : Bool) (m : Machine) (a : Action) (hp : PendingLaw m)
    (h : ActiveLaw m) (hok : Disciplined m a) : ActiveLaw (step luajit m a) := by
  obtain ⟨c, s⟩ := m
  cases c with
  | lua st => exact active_step_lua a hp h hok
  | pg st => exact active_step_pg st a h
  | throw t st =>
    cases a with
    | unwind luck => exact active_unwind_lua t h
    | _ => exact h
  | ereport e b st =>
    cases a with
    | unwind luck => exact active_unwind_pg e b st h hok
    | _ => exact h

/-! ## The law -/

/-- Two laws that each disciplined step keeps together. -/
theorem step_laws (luajit : Bool) (m : Machine) (a : Action) (h : PendingLaw m ∧ ActiveLaw m)
    (hok : Disciplined m a) : PendingLaw (step luajit m a) ∧ ActiveLaw (step luajit m a) :=
  ⟨step_pendingLaw luajit m a h.1, step_activeLaw luajit m a h.1 h.2 hok⟩

theorem laws_start : PendingLaw start ∧ ActiveLaw start := ⟨pendingLaw_start, trivial⟩

/-- In a run of disciplined steps, the Lua code of an activation runs with an active error
only while an error is on its way in it, none is left where an activation or a protected
function returns, `lpcall` finds only errors on their way, and no assertion on the active
error fails. -/
theorem an_active_error_is_on_its_way (luajit : Bool) (as : List Action)
    (h : Each (step luajit) Disciplined start as) :
    Settled (run (step luajit) start as) ∧ Each (step luajit) (Unfailing luajit) start as := by
  constructor
  · exact active_settled (run_invariant (step_laws luajit) laws_start h).2
  · exact each_of_invariant (step_laws luajit)
      (fun m a hm _ => step_unfailing luajit m a hm.1 hm.2) laws_start h

/-- A PostgreSQL error leaves an inner activation, and an exception block of the PL between
the two activations catches it. -/
def caught_between : List Action :=
  [.activation, .pgcall, .exception, .activation, .pgcall, .ereport (.ereport 1),
    .unwind good_luck, .unwind good_luck, .unwind good_luck, .done]

/-- An error function is called for a plain error, and then for the error of a subtransaction
that could not be begun in it. -/
def caught_in_error_function : List Action :=
  [.activation, .xpcall good_luck, .error (.string "a"), .unwind good_luck,
    .pcall { good_luck with begin_error := some (.ereport 1) }, .unwind good_luck,
    .pcall good_luck]

/-- The error that was caught is the active error of the outer activation, whose next
`lpcall` raises it again for a plain error. In an error function a protected function runs,
and returns, with the error of another subtransaction. -/
theorem a_caught_error_stays_active :
    ¬ Settled (run (step false) start caught_between) ∧
    (run (step false) start
        (caught_between ++ [.lpcall, .error (.string "x"), .unwind good_luck])).control =
      .throw (.raised (.error (.object 0 (.ereport 1)))) (.activation .refnil .base) ∧
    ¬ Settled (run (step false) start caught_in_error_function) ∧
    ¬ Each (step false) (Unfailing false) start
      (caught_in_error_function ++ [.ret (.string "b") good_luck]) := by
  refine ⟨?_, rfl, ?_, ?_⟩
  · intro h
    have hact : (run (step false) start caught_between).state.active_error =
        .ref (.object 0 (.ereport 1)) := rfl
    have hflight := h.1 (by simp [hact])
    cases hflight
  · intro h
    cases h.2
  · rintro ⟨-, -, -, -, -, -, -, h, -⟩
    exact h rfl

/-- The plain error of an inner activation, caught between the two. -/
theorem a_plain_error_caught_between_is_not_active :
    Settled (run (step false) start
      [.activation, .pgcall, .exception, .activation, .error (.string "x"), .unwind good_luck,
        .unwind good_luck, .done]) := by
  refine (an_active_error_is_on_its_way false _ ?_).1
  exact ⟨trivial, trivial, trivial, trivial, trivial, trivial, trivial, trivial, trivial⟩

end pllua.errors
