-- The law of the pending flag: while it is set, PostgreSQL code does not run,
-- an error is active, and the only Lua code that runs is an error function.
import Pllua.ProtectedCalls
import Pllua.Runs

open pllua.runs

namespace pllua.errors

/-! ## What the stack says of an error on its way -/

/-- The Lua code on top belongs to an error function. -/
def Stack.handles : {side : Side} → Stack side → Bool
  | _, .lpcall st => st.handles
  | _, .resume _ st => st.handles
  | _, .guts _ (.handler _ _) _ _ _ => true
  | _, _ => false

/-- The next `pllua_t_pcall_guts` is not in its protected function any more. -/
def Stack.unsettled : {side : Side} → Stack side → Bool
  | _, .lpcall st => st.unsettled
  | _, .resume _ st => st.unsettled
  | _, .guts _ phase _ _ _ => phase ≠ .body
  | _, _ => false

/-- No `pllua_intercept_error` is between its abort and its call of the error function. -/
def Stack.calm : {side : Side} → Stack side → Prop
  | _, .base => True
  | _, .exception _ st => st.calm
  | _, .pgcall st => st.calm
  | _, .activation _ st => st.calm
  | _, .lpcall st => st.calm
  | _, .resume _ st => st.calm
  | _, .guts _ phase _ _ st => phase ≠ .intercept ∧ st.calm

/-- The same below the innermost call. -/
def Stack.calm_below : Stack .lua → Prop
  | .guts _ _ _ _ st => st.calm
  | st => st.calm

theorem calm_below {st : Stack .lua} (h : st.calm) : st.calm_below := by
  cases st with
  | guts => exact h.2
  | _ => exact h

/-- In a calm stack the two say the same. -/
theorem handles_eq_unsettled {side : Side} {st : Stack side} (h : st.calm) :
    st.handles = st.unsettled := by
  induction st with
  | lpcall st ih => exact ih h
  | resume co st ih => exact ih h
  | guts is_xpcall phase id entry st ih =>
    cases phase with
    | body => rfl
    | intercept => exact absurd rfl h.1
    | handler aborted errors => rfl
  | _ => rfl

theorem unsettled_of_handles {side : Side} {st : Stack side} (h : st.handles = true) :
    st.unsettled = true := by
  induction st with
  | lpcall st ih => exact ih h
  | resume co st ih => exact ih h
  | guts is_xpcall phase id entry st ih =>
    cases phase with
    | handler aborted errors => rfl
    | _ => cases h
  | _ => cases h

/-! ## The law -/

/-- An error object in the raising, which no protected call but `pllua_t_pcall_guts` stops. -/
def Thrown.raises_error : Thrown → Bool
  | .raised v => v.is_error
  | _ => false

def PendingLaw (m : Machine) : Prop :=
  match m.control with
  | .lua st => st.calm ∧
    (m.state.pending = true → st.handles = true ∧ m.state.active_error ≠ .refnil)
  | .throw t st => st.calm_below ∧
    (m.state.pending = true →
      m.state.active_error ≠ .refnil ∧ (t.raises_error = true ∨ st.unsettled = true))
  | .pg st => st.calm ∧ m.state.pending = false
  | .ereport _ _ st => st.calm ∧ m.state.pending = false

theorem law_lua_quiet {st : Stack .lua} {s : State} (hc : st.calm) (hp : s.pending = false) :
    PendingLaw ⟨.lua st, s⟩ := by
  refine ⟨hc, fun h => ?_⟩
  rw [hp] at h
  cases h

theorem law_throw_quiet {t : Thrown} {st : Stack .lua} {s : State} (hc : st.calm_below)
    (hp : s.pending = false) : PendingLaw ⟨.throw t st, s⟩ := by
  refine ⟨hc, fun h => ?_⟩
  rw [hp] at h
  cases h

theorem law_throw_error {o : ErrorObject} {st : Stack .lua} {s : State} (hc : st.calm_below)
    (ha : s.active_error ≠ .refnil) : PendingLaw ⟨.throw (.raised (.error o)) st, s⟩ :=
  ⟨hc, fun _ => ⟨ha, Or.inl rfl⟩⟩

/-- An error raised by the Lua code that runs. -/
theorem law_throw_lua {t : Thrown} {st : Stack .lua} {s : State}
    (h : PendingLaw ⟨.lua st, s⟩) : PendingLaw ⟨.throw t st, s⟩ := by
  refine ⟨calm_below h.1, fun hp => ?_⟩
  obtain ⟨hh, ha⟩ := h.2 hp
  exact ⟨ha, Or.inr (unsettled_of_handles hh)⟩

/-! ## Each function keeps the law -/

section
variable {luajit : Bool} {luck : Luck} {st : Stack .lua} {s : State}

theorem law_guts_entry (is_xpcall : Bool) (h : PendingLaw ⟨.lua st, s⟩) :
    PendingLaw (pllua_t_pcall_guts is_xpcall luck st s) := by
  unfold pllua_t_pcall_guts
  split
  · exact law_throw_lua h
  · rename_i hp
    have hquiet : s.pending = false := by simpa using hp
    simp only
    split
    · exact law_throw_error (calm_below h.1) (absorb_active _ _ _)
    · exact law_lua_quiet ⟨by simp, h.1⟩ hquiet

theorem law_guts_returned (id : XactId) (hc : st.calm) (hp : s.pending = false) :
    PendingLaw (guts_returned luck id st s) := by
  unfold guts_returned
  simp only
  split
  · refine law_lua_quiet hc ?_
    split <;> simp [hp]
  · rename_i e _
    generalize hs1 : release_failed luck ((s.emit (.returned id)).emit (.release_failed id)) = s1
    have hp1 : s1.pending = false := by
      rw [← hs1]
      exact (release_failed_pending _ _).trans hp
    have herr := absorb_active s1 luck.no_object e
    have hpend := absorb_pending s1 luck.no_object e
    split
    · rcases abort_lua luck (pllua_absorb_pg_error luck.no_object e s1).2 with
        ⟨hpa, -⟩ | ⟨-, s', ha, hp'⟩ | ⟨-, o, s', ha, hact⟩
      · rw [hpend, hp1] at hpa
        cases hpa
      · rw [ha]
        exact law_throw_quiet (calm_below hc) hp'
      · rw [ha]
        exact law_throw_error (calm_below hc) hact
    · exact law_throw_error (calm_below hc) herr

theorem law_guts_failed (v : Value) (id : XactId) (hc : st.calm)
    (ha : s.pending = true → s.active_error ≠ .refnil) :
    PendingLaw (guts_failed luck v id st s) := by
  unfold guts_failed
  split
  · rcases abort_pg luck s with ⟨s', h, hp'⟩ | ⟨e, s', h, -, -⟩
    · rw [h]
      exact law_lua_quiet hc hp'
    · rw [h]
      exact law_throw_error (calm_below hc) (absorb_active _ _ _)
  · split
    · rename_i o ho
      refine law_throw_error (calm_below hc) ?_
      intro hnil
      rw [(get_active_eq_none s).mpr hnil] at ho
      cases ho
    · rename_i hnone
      refine law_lua_quiet hc ?_
      by_contra hp
      exact ha (by simpa using hp) ((get_active_eq_none s).mp hnone)

theorem law_intercept (v : Value) (id : XactId) (entry : Option XactId) (hc : st.calm)
    (ha : s.pending = true → s.active_error ≠ .refnil) :
    PendingLaw (pllua_intercept_error luck v id entry st s) := by
  unfold pllua_intercept_error
  rcases abort_lua luck s with ⟨hp, h⟩ | ⟨-, s', h, hp'⟩ | ⟨-, o, s', h, hact⟩
  · rw [h]
    exact ⟨hc, fun _ => ⟨ha hp, Or.inr rfl⟩⟩
  · rw [h]
    exact law_lua_quiet ⟨by simp, hc⟩ hp'
  · rw [h]
    exact law_throw_error hc hact

theorem law_throw_at_guts (is_xpcall : Bool) (phase : Phase) (id : XactId) (entry : Option XactId)
    (t : Thrown) (h : PendingLaw ⟨.throw t (.guts is_xpcall phase id entry st), s⟩) :
    PendingLaw (throw_at_guts luajit luck is_xpcall phase id entry st t s) := by
  obtain ⟨hc, hp⟩ := h
  have hc : st.calm := hc
  have ha : s.pending = true → s.active_error ≠ .refnil := fun hs => (hp hs).1
  unfold throw_at_guts
  split
  · split
    · split
      · exact law_guts_failed _ _ hc ha
      · exact law_intercept _ _ _ hc ha
    · exact law_guts_failed _ _ hc ha
  · exact law_guts_failed _ _ hc ha
  · split
    · exact law_guts_failed _ _ hc ha
    · exact ⟨⟨by simp, hc⟩, fun hs => ⟨rfl, ha hs⟩⟩
  · exact law_guts_failed _ _ hc ha
  · split
    · exact ⟨hc, fun hs => ⟨ha hs, Or.inr rfl⟩⟩
    · exact ⟨⟨by simp, hc⟩, fun hs => ⟨rfl, ha hs⟩⟩
  · exact ⟨hc, fun hs => ⟨ha hs, Or.inr rfl⟩⟩

/-- Lua code goes on below a call that has failed with a value that is no error object. -/
theorem law_goes_on {t : Thrown} {s' : State} (hc : st.calm) (hv : t.value.is_error = false)
    (hp : s'.pending = s.pending) (ha : s'.active_error = s.active_error)
    (h : s.pending = true →
      s.active_error ≠ .refnil ∧ (t.raises_error = true ∨ st.unsettled = true)) :
    PendingLaw ⟨.lua st, s'⟩ := by
  refine ⟨hc, fun hs => ?_⟩
  obtain ⟨hact, hwhy⟩ := h (hp ▸ hs)
  refine ⟨?_, ha ▸ hact⟩
  rcases hwhy with hr | hu
  · cases t with
    | raised v =>
      have hv : v.is_error = false := hv
      rw [Thrown.raises_error, hv] at hr
      cases hr
    | _ => cases hr
  · rw [handles_eq_unsettled hc]
    exact hu

theorem law_finishpcall (t : Thrown) (h : PendingLaw ⟨.throw t (.lpcall st), s⟩) :
    PendingLaw (finishpcall luajit t.value st s) := by
  obtain ⟨hc, hp⟩ := h
  have hc : st.calm := hc
  have herr : ∀ o, PendingLaw ⟨.throw (.raised (.error o)) st, s⟩ := fun o =>
    ⟨calm_below hc, fun hs => ⟨(hp hs).1, Or.inl rfl⟩⟩
  have hplain : t.value.is_error = false → PendingLaw ⟨.lua st, s.emit (.reported t.value)⟩ :=
    fun hv => law_goes_on hc hv rfl rfl hp
  unfold finishpcall
  cases hv : t.value with
  | error o => exact herr o
  | _ =>
    rw [hv] at hplain
    simp only
    split
    · exact herr _
    · exact hplain rfl

theorem law_coresume_failed (co : Nat) (t : Thrown) (h : PendingLaw ⟨.throw t (.resume co st), s⟩) :
    PendingLaw (coresume_failed co t.value st s) := by
  obtain ⟨hc, hp⟩ := h
  have hc : st.calm := hc
  have hplain : t.value.is_error = false →
      PendingLaw ⟨.lua st, (s.set_coroutine co .dead).emit (.reported t.value)⟩ :=
    fun hv => law_goes_on hc hv rfl rfl hp
  unfold coresume_failed
  cases hv : t.value with
  | error o => exact ⟨calm_below hc, fun hs => ⟨(hp hs).1, Or.inl rfl⟩⟩
  | _ =>
    rw [hv] at hplain
    exact hplain rfl

theorem law_unwind_lua (t : Thrown) (h : PendingLaw ⟨.throw t st, s⟩) :
    PendingLaw (unwind_lua luajit luck t st s) := by
  cases st with
  | activation saved st => exact ⟨h.1, rfl⟩
  | lpcall st => exact law_finishpcall t h
  | resume co st => exact law_coresume_failed co t h
  | guts is_xpcall phase id entry st => exact law_throw_at_guts is_xpcall phase id entry t h

/-- What `pllua_t_coresume` does first: it reports why it does not run the coroutine, or the
coroutine runs on top. -/
theorem coresume_cases (luck : Luck) (co : Nat) (st : Stack .lua) (s : State) :
    (∃ why, pllua_t_coresume luck co st s = ⟨.lua st, s.emit (.reported (.string why))⟩) ∨
    (∃ n, pllua_t_coresume luck co st s =
      ⟨.lua (push_lpcalls n (.resume co st)), s.set_coroutine co .running⟩) := by
  unfold pllua_t_coresume
  split
  · exact Or.inl ⟨_, rfl⟩
  · split
    · split
      · exact Or.inl ⟨_, rfl⟩
      · exact Or.inr ⟨_, rfl⟩
    · exact Or.inl ⟨_, rfl⟩
    · exact Or.inl ⟨_, rfl⟩

/-- What `pllua_t_coresume` does last: it goes on, or reports that there is no room. -/
theorem coresume_done_cases (luck : Luck) (st : Stack .lua) (s : State) :
    (∃ v, v.is_error = false ∧ coresume_done luck st s = ⟨.lua st, s.emit (.reported v)⟩) ∨
    coresume_done luck st s = ⟨.lua st, s⟩ := by
  unfold coresume_done
  split
  · exact Or.inl ⟨_, rfl, rfl⟩
  · exact Or.inr rfl

theorem law_coresume_done (h : PendingLaw ⟨.lua st, s⟩) :
    PendingLaw (coresume_done luck st s) := by
  rcases coresume_done_cases luck st s with ⟨v, -, heq⟩ | heq
  · rw [heq]
    exact h
  · rw [heq]
    exact h

/-- Where a `pllua_t_pcall_guts` can return, its protected function does. -/
theorem phase_body {is_xpcall : Bool} {phase : Phase} {id : XactId} {entry : Option XactId}
    (hp : PendingLaw ⟨.lua (.guts is_xpcall phase id entry st), s⟩)
    (hh : ∀ aborted errors, phase ≠ .handler aborted errors) :
    phase = .body ∧ s.pending = false := by
  have hbody : phase = .body := by
    cases phase with
    | body => rfl
    | intercept => exact absurd rfl hp.1.1
    | handler aborted errors => exact absurd rfl (hh aborted errors)
  subst hbody
  refine ⟨rfl, ?_⟩
  by_contra hs
  cases (hp.2 (by simpa using hs)).1

theorem law_return_lua (v : Value) (h : PendingLaw ⟨.lua st, s⟩) :
    PendingLaw (return_lua v luck st s) := by
  obtain ⟨hc, hp⟩ := h
  unfold return_lua
  split
  · rename_i saved st
    refine ⟨hc, ?_⟩
    have hquiet : s.pending = false := by
      by_contra hs
      exact absurd (hp (by simpa using hs)).1 (by simp [Stack.handles])
    simp only
    split
    · exact hquiet
    · exact hquiet
  · exact ⟨hc, hp⟩
  · exact law_coresume_done ⟨hc, hp⟩
  · exact ⟨hc.2, fun hs => ⟨(hp hs).2, Or.inr rfl⟩⟩
  · exact ⟨hc.2, fun hs => ⟨(hp hs).2, Or.inr rfl⟩⟩
  · rename_i is_xpcall phase id entry st hnil hcons
    obtain ⟨-, hquiet⟩ := phase_body ⟨hc, hp⟩ fun aborted errors => by
      cases errors with
      | nil => exact hnil aborted
      | cons e errors => exact hcons aborted e errors
    exact law_guts_returned id hc.2 hquiet

theorem handles_push_lpcalls (n co : Nat) :
    (push_lpcalls n (.resume co st)).handles = st.handles := by
  induction n with
  | zero => rfl
  | succ n ih => exact ih

theorem calm_push_lpcalls (n co : Nat) (h : st.calm) : (push_lpcalls n (.resume co st)).calm := by
  induction n with
  | zero => exact h
  | succ n ih => exact ih

theorem yield_to_heq {n co : Nat} {st' : Stack .lua} {side : Side} {st : Stack side}
    (h : yield_to luajit st = some (n, co, st')) : HEq st (push_lpcalls n (.resume co st')) := by
  induction st generalizing n with
  | lpcall st ih =>
    unfold yield_to at h
    split at h
    · cases h
    · obtain ⟨⟨k, co', st''⟩, hy, he⟩ := Option.map_eq_some_iff.mp h
      cases he
      exact heq_of_eq (congrArg Stack.lpcall (eq_of_heq (ih hy)))
  | resume co st ih =>
    cases h
    exact HEq.rfl
  | _ => cases h

/-- A yield leaves only calls of `lpcall` behind. -/
theorem yield_to_spec {n co : Nat} {st' : Stack .lua}
    (h : yield_to luajit st = some (n, co, st')) : st = push_lpcalls n (.resume co st') :=
  eq_of_heq (yield_to_heq h)

theorem law_coresume (co : Nat) (h : PendingLaw ⟨.lua st, s⟩) :
    PendingLaw (pllua_t_coresume luck co st s) := by
  rcases coresume_cases luck co st s with ⟨why, heq⟩ | ⟨n, heq⟩
  · rw [heq]
    exact h
  · rw [heq]
    refine ⟨calm_push_lpcalls _ _ h.1, fun hs => ?_⟩
    rw [handles_push_lpcalls]
    exact h.2 hs

theorem law_yield (h : PendingLaw ⟨.lua st, s⟩) : PendingLaw (lua_yield luajit luck st s) := by
  unfold lua_yield
  split
  · rename_i n co st' hy
    have hst := yield_to_spec hy
    subst hst
    obtain ⟨hc, hp⟩ := h
    rw [handles_push_lpcalls] at hp
    refine law_coresume_done ⟨?_, hp⟩
    clear hy hp
    induction n with
    | zero => exact hc
    | succ n ih => exact ih hc
  · exact law_throw_lua h

theorem law_pllua_try (h : PendingLaw ⟨.lua st, s⟩) : PendingLaw (pllua_try st s) := by
  unfold pllua_try
  split
  · exact law_throw_lua h
  · rename_i hp
    exact ⟨h.1, by simpa using hp⟩

theorem law_step_lua (a : Action) (h : PendingLaw ⟨.lua st, s⟩) :
    PendingLaw (step_lua luajit st s a) := by
  cases a with
  | ret v luck => exact law_return_lua v h
  | error v => exact law_throw_lua h
  | memory => exact law_throw_lua h
  | lpcall => exact h
  | resume co luck => exact law_coresume co h
  | yield luck => exact law_yield h
  | pcall luck => exact law_guts_entry false h
  | xpcall luck => exact law_guts_entry true h
  | pgcall => exact law_pllua_try h
  | interrupt e luck => exact law_throw_error (calm_below h.1) (rethrow_from_pg_active _ _ _)
  | activation | exception | done | ereport e | unwind luck => exact h

theorem law_step_pg (st : Stack .pg) (a : Action) (h : PendingLaw ⟨.pg st, s⟩) :
    PendingLaw (step_pg st s a) := by
  obtain ⟨hc, hp⟩ := h
  cases a with
  | activation => exact law_lua_quiet hc hp
  | exception => exact ⟨hc, hp⟩
  | done =>
    cases st with
    | base => exact ⟨hc, hp⟩
    | exception id st => exact ⟨hc, (release_pending _).trans hp⟩
    | pgcall st => exact law_lua_quiet hc hp
  | _ => exact ⟨hc, hp⟩

theorem law_unwind_pg (e : ErrorData) (b : Bool) (st : Stack .pg)
    (h : PendingLaw ⟨.ereport e b st, s⟩) : PendingLaw (unwind_pg luck e st s) := by
  obtain ⟨hc, hp⟩ := h
  cases st with
  | base => exact ⟨hc, hp⟩
  | exception id st => exact ⟨hc, (rollback_pending s).trans hp⟩
  | pgcall st => exact law_throw_error (calm_below hc) (rethrow_from_pg_active _ _ _)

end

/-- What each step keeps. -/
theorem step_pendingLaw (luajit : Bool) (m : Machine) (a : Action) (h : PendingLaw m) :
    PendingLaw (step luajit m a) := by
  obtain ⟨c, s⟩ := m
  cases c with
  | lua st => exact law_step_lua a h
  | pg st => exact law_step_pg st a h
  | throw t st =>
    cases a with
    | unwind luck => exact law_unwind_lua t h
    | _ => exact h
  | ereport e b st =>
    cases a with
    | unwind luck => exact law_unwind_pg e b st h
    | _ => exact h

theorem pendingLaw_start : PendingLaw start := ⟨trivial, rfl⟩

end pllua.errors
