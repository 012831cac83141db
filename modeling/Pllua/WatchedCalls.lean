-- PostgreSQL errors are not swallowed: a coroutine.resume (or, on LuaJIT, an
-- lpcall) does not look at the active error, so none may be called while an
-- error is on its way. Then each report is one of a plain error with none on
-- its way.
import Pllua.ErrorPropagation

open pllua.runs

namespace pllua.errors

/-! ## The condition -/

/-- The Lua code that called the PostgreSQL code on top is an error function that runs for a
PostgreSQL error. -/
def Stack.calls_in_flight : {side : Side} → Stack side → Bool
  | _, .exception _ st => st.calls_in_flight
  | _, .pgcall st => st.in_flight
  | _, _ => false

/-- The condition of a step: `coroutine.resume`, or `lpcall` on LuaJIT, is called with no
error on its way, and PostgreSQL code that an error function has called for an error catches
none that came out of an inner activation. -/
def Heeded (luajit : Bool) (m : Machine) : Action → Prop
  | .resume _ _ => ∀ st, m.control = .lua st → ¬ Propagating m
  | .lpcall => luajit = true → ∀ st, m.control = .lua st → ¬ Propagating m
  | .unwind _ =>
    match m.control with
    | .ereport _ true (.exception _ st) => st.calls_in_flight = false
    | _ => True
  | _ => True

/-! ## The law -/

/-- The Lua code on top runs for an error function that runs for a PostgreSQL error, and no
call between the two reports without looking at the active error. -/
def Stack.heeded (luajit : Bool) : {side : Side} → Stack side → Bool
  | _, .lpcall st => !luajit && st.heeded luajit
  | _, .guts _ .body _ _ st => st.heeded luajit
  | _, .guts _ .intercept _ _ _ => true
  | _, .guts _ (.handler aborted errors) _ _ st =>
    !aborted || errors.any Value.is_error || st.heeded luajit
  | _, _ => false

/-- An error that goes from a message handler to its protected call. -/
def Thrown.settled (t : Thrown) : Stack .lua → Bool
  | .guts _ .body _ _ _ => false
  | .guts _ _ _ _ _ =>
    match t with
    | .raised _ => false
    | _ => true
  | _ => false

/-- Where PostgreSQL code returns to Lua code, an active error is heeded. The active error of
the innermost activation is given, or nothing is asked of it. -/
def Guarded (luajit : Bool) : {side : Side} → Option ErrorRef → Stack side → Prop
  | _, _, .base => True
  | _, r, .exception _ st => Guarded luajit r st
  | _, r, .pgcall st =>
    (∀ a, r = some a → a ≠ .refnil → st.in_flight = true → st.heeded luajit = true) ∧
      Guarded luajit none st
  | _, _, .activation saved st => Guarded luajit (some saved) st
  | _, _, .lpcall st => Guarded luajit none st
  | _, _, .resume _ st => Guarded luajit none st
  | _, _, .guts _ _ _ _ st => Guarded luajit none st

def Watched (luajit : Bool) (m : Machine) : Prop :=
  match m.control with
  | .lua st => Guarded luajit none st ∧ (Propagating m → st.heeded luajit = true)
  | .throw t st => Guarded luajit none st ∧
    (Propagating m → t.raises_error = true ∨ st.heeded luajit = true ∨ t.settled st = true)
  | .pg st => Guarded luajit (some m.state.active_error) st
  | .ereport _ from_lua st =>
    Guarded luajit (if from_lua then none else some m.state.active_error) st

section
variable {luajit : Bool}

theorem guarded_none {side : Side} {st : Stack side} {r : Option ErrorRef}
    (h : Guarded luajit r st) : Guarded luajit none st := by
  induction st with
  | base => trivial
  | exception id st ih => exact ih h
  | pgcall st ih => exact ⟨by simp, h.2⟩
  | activation saved st ih => exact h
  | lpcall st ih => exact h
  | resume co st ih => exact h
  | guts b phase id entry st ih => exact h

/-- Where no error function waits for PostgreSQL code, any error may be active. -/
theorem guarded_of_calls {side : Side} {st : Stack side} (r : Option ErrorRef)
    (h : Guarded luajit none st) (hc : st.calls_in_flight = false) : Guarded luajit r st := by
  induction st with
  | base => trivial
  | exception id st ih => exact ih h hc
  | pgcall st ih =>
    refine ⟨fun a _ _ hf => ?_, h.2⟩
    have hc : st.in_flight = false := hc
    rw [hc] at hf
    cases hf
  | activation saved st ih => exact h
  | lpcall st ih => exact h
  | resume co st ih => exact h
  | guts b phase id entry st ih => exact h

theorem guarded_push_lpcalls {st : Stack .lua} (n co : Nat) :
    Guarded luajit none (push_lpcalls n (.resume co st)) ↔ Guarded luajit none st := by
  induction n with
  | zero => rfl
  | succ n ih => exact ih

theorem propagating_push_lpcalls {st : Stack .lua} {s : State} (n co : Nat) :
    Propagating ⟨.lua (push_lpcalls n (.resume co st)), s⟩ ↔ Propagating ⟨.lua st, s⟩ := by
  induction n with
  | zero => rfl
  | succ n ih => exact ih

/-- In a coroutine nothing is heeded. -/
theorem heeded_push_lpcalls {st : Stack .lua} (n co : Nat) :
    (push_lpcalls n (.resume co st)).heeded luajit = false := by
  induction n with
  | zero => rfl
  | succ n ih =>
    show (!luajit && (push_lpcalls n (.resume co st)).heeded luajit) = false
    rw [ih, Bool.and_false]

end

/-! ## Each function keeps the law -/

section
variable {luajit : Bool} {luck : Luck} {st : Stack .lua} {s : State}

theorem quiet_lua (hp : s.pending = false) (ha : s.active_error = .refnil) :
    ¬ Propagating ⟨.lua st, s⟩ := by
  rintro (h | ⟨h, -⟩)
  · exact Bool.false_ne_true (hp.symm.trans h)
  · exact h ha

theorem watched_quiet (hg : Guarded luajit none st) (hp : s.pending = false)
    (ha : s.active_error = .refnil) : Watched luajit ⟨.lua st, s⟩ :=
  ⟨hg, fun h => absurd h (quiet_lua hp ha)⟩

theorem watched_throw_error (o : ErrorObject) (hg : Guarded luajit none st) :
    Watched luajit ⟨.throw (.raised (.error o)) st, s⟩ := ⟨hg, fun _ => Or.inl rfl⟩

/-- An error raised by the Lua code that runs. -/
theorem watched_throw_lua (t : Thrown) (h : Watched luajit ⟨.lua st, s⟩) :
    Watched luajit ⟨.throw t st, s⟩ := ⟨h.1, fun hp => Or.inr (Or.inl (h.2 hp))⟩

theorem watched_guts_entry (is_xpcall : Bool) (h : Watched luajit ⟨.lua st, s⟩) :
    Watched luajit (pllua_t_pcall_guts is_xpcall luck st s) := by
  unfold pllua_t_pcall_guts
  split
  · exact watched_throw_lua _ h
  · cases luck.begin_error with
    | some e => exact watched_throw_error _ h.1
    | none => exact h

theorem watched_guts_returned {is_xpcall : Bool} {id : XactId} {entry : Option XactId}
    (h : Watched luajit ⟨.lua (.guts is_xpcall .body id entry st), s⟩) (hp : s.pending = false) :
    Watched luajit (guts_returned luck id st s) := by
  obtain ⟨hg, hway⟩ := h
  have hg : Guarded luajit none st := hg
  unfold guts_returned
  simp only
  split
  · refine ⟨hg, fun hs => ?_⟩
    have hback : Propagating ⟨.lua (.guts is_xpcall .body id entry st), s⟩ := by
      revert hs
      unfold Propagating
      split <;> simp [Control.in_flight, Stack.in_flight, hp]
    exact hway hback
  · rename_i e _
    generalize hs1 : release_failed luck ((s.emit (.returned id)).emit (.release_failed id)) = s1
    have hpend : (pllua_absorb_pg_error luck.no_object e s1).2.pending = false := by
      rw [absorb_pending, ← hs1]
      exact (release_failed_pending _ _).trans hp
    split
    · rcases abort_lua luck (pllua_absorb_pg_error luck.no_object e s1).2 with
        ⟨hpa, -⟩ | ⟨-, s', ha, -⟩ | ⟨-, o, s', ha, -⟩
      · rw [hpend] at hpa
        cases hpa
      · rw [ha]
        exact watched_throw_error _ hg
      · rw [ha]
        exact watched_throw_error _ hg
    · exact watched_throw_error _ hg

theorem watched_guts_failed (v : Value) (id : XactId) (hg : Guarded luajit none st)
    (ha : s.pending = true → s.active_error ≠ .refnil) :
    Watched luajit (guts_failed luck v id st s) := by
  unfold guts_failed
  split
  · rcases abort_pg luck s with ⟨s', h, hp'⟩ | ⟨e, s', h, -, -⟩
    · rw [h]
      exact watched_quiet hg hp' rfl
    · rw [h]
      exact watched_throw_error _ hg
  · split
    · exact watched_throw_error _ hg
    · rename_i hnone
      have hnil := (get_active_eq_none s).mp hnone
      refine watched_quiet hg ?_ hnil
      by_contra hp
      exact ha (by simpa using hp) hnil

theorem watched_intercept (v : Value) (id : XactId) (entry : Option XactId)
    (hg : Guarded luajit none st) :
    Watched luajit (pllua_intercept_error luck v id entry st s) := by
  unfold pllua_intercept_error
  rcases abort_lua luck s with ⟨-, h⟩ | ⟨-, s', h, hp'⟩ | ⟨-, o, s', h, -⟩
  · rw [h]
    exact ⟨hg, fun _ => Or.inr (Or.inl rfl)⟩
  · rw [h]
    exact watched_quiet hg hp' rfl
  · rw [h]
    exact ⟨hg, fun _ => Or.inl rfl⟩

/-- The error function is called for an error of its own. -/
theorem watched_handler {is_xpcall aborted : Bool} {errors : List Value} {id : XactId}
    {entry : Option XactId} {v : Value} {s' : State} (hp : s'.pending = s.pending)
    (ha : s'.active_error = s.active_error)
    (h : Watched luajit
      ⟨.throw (.raised v) (.guts is_xpcall (.handler aborted errors) id entry st), s⟩) :
    Watched luajit ⟨.lua (.guts is_xpcall (.handler aborted (v :: errors)) id entry st), s'⟩ := by
  refine ⟨h.1, fun hway => ?_⟩
  cases hv : v.is_error with
  | true => simp [Stack.heeded, hv]
  | false =>
    -- a plain error changes neither what is on its way nor what is heeded
    have hback : Propagating
        ⟨.throw (.raised v) (.guts is_xpcall (.handler aborted errors) id entry st), s⟩ := by
      revert hway
      simp [Propagating, Control.in_flight, Stack.in_flight, hv, hp, ha]
    rcases h.2 hback with hr | hh | hs
    · have hr : v.is_error = true := hr
      rw [hv] at hr
      cases hr
    · simpa [Stack.heeded, hv] using hh
    · cases hs

theorem watched_throw_at_guts (is_xpcall : Bool) (phase : Phase) (id : XactId)
    (entry : Option XactId) (t : Thrown)
    (hlaw : PendingLaw ⟨.throw t (.guts is_xpcall phase id entry st), s⟩)
    (h : Watched luajit ⟨.throw t (.guts is_xpcall phase id entry st), s⟩) :
    Watched luajit (throw_at_guts luajit luck is_xpcall phase id entry st t s) := by
  have hg : Guarded luajit none st := h.1
  have hf : ∀ v, Watched luajit (guts_failed luck v id st s) := fun v =>
    watched_guts_failed v id hg fun hs => (hlaw.2 hs).1
  unfold throw_at_guts
  split
  · split
    · split
      · exact hf _
      · exact watched_intercept _ _ _ hg
    · exact hf _
  · exact hf _
  · split
    · exact hf _
    · exact ⟨hg, fun _ => rfl⟩
  · exact hf _
  · split
    · exact ⟨hg, fun _ => Or.inr (Or.inr rfl)⟩
    · exact watched_handler rfl rfl h
  · exact ⟨hg, fun _ => Or.inr (Or.inl rfl)⟩

/-- A plain error is no error object in the raising. -/
theorem not_raises_error {t : Thrown} (hv : t.value.is_error = false) :
    t.raises_error = false := by
  cases t with
  | raised v => exact hv
  | _ => rfl

theorem watched_finishpcall (t : Thrown) (h : Watched luajit ⟨.throw t (.lpcall st), s⟩) :
    Watched luajit (finishpcall luajit t.value st s) := by
  obtain ⟨hg, hway⟩ := h
  have hg : Guarded luajit none st := hg
  have hplain : t.value.is_error = false →
      Watched luajit ⟨.lua st, s.emit (.reported t.value)⟩ := by
    refine fun hv => ⟨hg, fun hs => ?_⟩
    rcases hway hs with hr | hh | hs
    · rw [not_raises_error hv] at hr
      cases hr
    · exact (Bool.and_eq_true _ _ ▸ hh : _ ∧ _).2
    · cases hs
  unfold finishpcall
  cases hv : t.value with
  | error o => exact watched_throw_error o hg
  | _ =>
    rw [hv] at hplain
    simp only
    split
    · exact watched_throw_error _ hg
    · exact hplain rfl

theorem watched_coresume_failed (co : Nat) (t : Thrown)
    (h : Watched luajit ⟨.throw t (.resume co st), s⟩) :
    Watched luajit (coresume_failed co t.value st s) := by
  obtain ⟨hg, hway⟩ := h
  have hg : Guarded luajit none st := hg
  have hplain : t.value.is_error = false →
      Watched luajit ⟨.lua st, (s.set_coroutine co .dead).emit (.reported t.value)⟩ := by
    refine fun hv => ⟨hg, fun hs => ?_⟩
    rcases hway hs with hr | hh | hs
    · rw [not_raises_error hv] at hr
      cases hr
    · cases hh
    · cases hs
  unfold coresume_failed
  cases hv : t.value with
  | error o => exact watched_throw_error o hg
  | _ =>
    rw [hv] at hplain
    exact hplain rfl

theorem watched_activation_failed (t : Thrown) (saved : ErrorRef) (st : Stack .pg)
    (h : Watched luajit ⟨.throw t (.activation saved st), s⟩) :
    Watched luajit (activation_failed luck t saved st s) := by
  have hg : Guarded luajit (some saved) st := h.1
  unfold activation_failed Watched
  simp only
  cases hv : t.value.is_error with
  | true => exact guarded_none hg
  | false =>
    rw [rethrow_from_lua_plain _ _ _ hv]
    exact hg

theorem watched_unwind_lua (t : Thrown) (hlaw : PendingLaw ⟨.throw t st, s⟩)
    (h : Watched luajit ⟨.throw t st, s⟩) : Watched luajit (unwind_lua luajit luck t st s) := by
  cases st with
  | activation saved st => exact watched_activation_failed t saved st h
  | lpcall st => exact watched_finishpcall t h
  | resume co st => exact watched_coresume_failed co t h
  | guts is_xpcall phase id entry st =>
    exact watched_throw_at_guts is_xpcall phase id entry t hlaw h

theorem watched_coresume_done {s' : State} (hg : Guarded luajit none st)
    (hp : s'.pending = s.pending) (ha : s'.active_error = s.active_error)
    (hquiet : ¬ Propagating ⟨.lua st, s⟩) : Watched luajit (coresume_done luck st s') := by
  have hs : ∀ s'' : State, s''.pending = s'.pending → s''.active_error = s'.active_error →
      Watched luajit ⟨.lua st, s''⟩ := by
    refine fun s'' hp' ha' => ⟨hg, fun hs => absurd ?_ hquiet⟩
    unfold Propagating at hs ⊢
    simpa only [hp', ha', hp, ha] using hs
  rcases coresume_done_cases luck st s' with ⟨v, -, heq⟩ | heq
  · rw [heq]
    exact hs _ rfl rfl
  · rw [heq]
    exact hs _ rfl rfl

theorem watched_return_lua (v : Value) (hlaw : PendingLaw ⟨.lua st, s⟩)
    (h : Watched luajit ⟨.lua st, s⟩) : Watched luajit (return_lua v luck st s) := by
  obtain ⟨hg, hway⟩ := h
  unfold return_lua
  split
  · unfold Watched
    simp only
    split
    · exact hg
    · exact hg
  · refine ⟨hg, fun hs => ?_⟩
    have hh : (!luajit && Stack.heeded luajit _) = true := hway hs
    rw [Bool.and_eq_true] at hh
    exact hh.2
  · exact watched_coresume_done (s := s) hg rfl rfl fun hs => by cases hway hs
  · exact ⟨hg, fun _ => Or.inr (Or.inl rfl)⟩
  · exact ⟨hg, fun _ => Or.inr (Or.inr rfl)⟩
  · rename_i is_xpcall phase id entry st hnil hcons
    obtain ⟨rfl, hquiet⟩ := phase_body hlaw fun aborted errors => by
      cases errors with
      | nil => exact hnil aborted
      | cons e errors => exact hcons aborted e errors
    exact watched_guts_returned ⟨hg, hway⟩ hquiet

theorem watched_yield (h : Watched luajit ⟨.lua st, s⟩) :
    Watched luajit (lua_yield luajit luck st s) := by
  unfold lua_yield
  split
  · rename_i n co st' hy
    have hst := yield_to_spec hy
    subst hst
    obtain ⟨hg, hway⟩ := h
    refine watched_coresume_done (s := s) ((guarded_push_lpcalls n co).mp hg) rfl rfl fun hs => ?_
    have hh := hway ((propagating_push_lpcalls n co).mpr hs)
    rw [heeded_push_lpcalls] at hh
    cases hh
  · exact watched_throw_lua _ h

theorem watched_coresume (co : Nat) (h : Watched luajit ⟨.lua st, s⟩)
    (hquiet : ¬ Propagating ⟨.lua st, s⟩) : Watched luajit (pllua_t_coresume luck co st s) := by
  rcases coresume_cases luck co st s with ⟨why, heq⟩ | ⟨n, heq⟩
  · rw [heq]
    exact h
  · rw [heq]
    refine ⟨(guarded_push_lpcalls n co).mpr h.1, fun hs => absurd ?_ hquiet⟩
    exact (propagating_push_lpcalls n co).mp hs

theorem watched_pllua_try (h : Watched luajit ⟨.lua st, s⟩) :
    Watched luajit (pllua_try st s) := by
  unfold pllua_try
  split
  · exact watched_throw_lua _ h
  · refine ⟨fun a ha hne hf => h.2 (Or.inr ⟨?_, hf⟩), h.1⟩
    rw [Option.some.inj ha]
    exact hne

theorem watched_step_lua (a : Action) (hlaw : PendingLaw ⟨.lua st, s⟩)
    (h : Watched luajit ⟨.lua st, s⟩) (hok : Heeded luajit ⟨.lua st, s⟩ a) :
    Watched luajit (step_lua luajit st s a) := by
  cases a with
  | ret v luck => exact watched_return_lua v hlaw h
  | error v => exact watched_throw_lua _ h
  | memory => exact watched_throw_lua _ h
  | lpcall =>
    refine ⟨h.1, fun hs => ?_⟩
    have hh : st.heeded luajit = true := h.2 hs
    cases luajit with
    | true => exact absurd hs (hok rfl st rfl)
    | false => exact hh
  | resume co luck => exact watched_coresume co h (hok st rfl)
  | yield luck => exact watched_yield h
  | pcall luck => exact watched_guts_entry false h
  | xpcall luck => exact watched_guts_entry true h
  | pgcall => exact watched_pllua_try h
  | interrupt e luck => exact watched_throw_error _ h.1
  | activation | exception | done | ereport e | unwind luck => exact h

theorem watched_step_pg (st : Stack .pg) (a : Action) (hlaw : PendingLaw ⟨.pg st, s⟩)
    (h : Watched luajit ⟨.pg st, s⟩) : Watched luajit (step_pg st s a) := by
  have hg : Guarded luajit (some s.active_error) st := h
  cases a with
  | activation => exact watched_quiet hg hlaw.2 rfl
  | done =>
    cases st with
    | base => trivial
    | exception id st =>
      show Guarded luajit (some (ReleaseCurrentSubTransaction (s.emit (.returned id))).active_error) st
      rw [release_active]
      exact hg
    | pgcall st =>
      refine ⟨hg.2, ?_⟩
      rintro (hp | ⟨hact, hf⟩)
      · exact absurd (hlaw.2.symm.trans hp) Bool.false_ne_true
      · exact hg.1 _ rfl hact hf
  | _ => exact h

theorem watched_unwind_pg (e : ErrorData) (b : Bool) (st : Stack .pg)
    (h : Watched luajit ⟨.ereport e b st, s⟩)
    (hok : Heeded luajit ⟨.ereport e b st, s⟩ (.unwind luck)) :
    Watched luajit (unwind_pg luck e st s) := by
  cases st with
  | base => trivial
  | exception id st =>
    show Guarded luajit (some (RollbackAndReleaseCurrentSubTransaction s).active_error) st
    rw [rollback_active]
    cases b with
    | true => exact guarded_of_calls _ h hok
    | false => exact h
  | pgcall st =>
    have hg : Guarded luajit _ (.pgcall st) := h
    exact watched_throw_error _ hg.2

end

/-- What a step that meets the condition keeps. -/
theorem step_watched (luajit : Bool) (m : Machine) (a : Action) (hlaw : PendingLaw m)
    (h : Watched luajit m) (hok : Heeded luajit m a) : Watched luajit (step luajit m a) := by
  obtain ⟨c, s⟩ := m
  cases c with
  | lua st => exact watched_step_lua a hlaw h hok
  | pg st => exact watched_step_pg st a hlaw h
  | throw t st =>
    cases a with
    | unwind luck => exact watched_unwind_lua t hlaw h
    | _ => exact h
  | ereport e b st =>
    cases a with
    | unwind luck => exact watched_unwind_pg e b st h hok
    | _ => exact h

/-! ## What is reported -/

/-- With no active error, none is on its way. -/
theorem not_propagating {m : Machine} (hlaw : PendingLaw m) (hnil : m.state.active_error = .refnil) :
    ¬ Propagating m := by
  rintro (hp | ⟨hact, -⟩)
  · obtain ⟨c, s⟩ := m
    cases c with
    | lua st => exact (hlaw.2 hp).2 hnil
    | throw t st => exact (hlaw.2 hp).1 hnil
    | pg st => exact Bool.false_ne_true (hlaw.2.symm.trans hp)
    | ereport e b st => exact Bool.false_ne_true (hlaw.2.symm.trans hp)
  · exact hact hnil

/-- Where the active error is not looked at, none is on its way. -/
theorem unchecked_quiet {luajit : Bool} {m : Machine} {a : Action} (h : Watched luajit m)
    (hok : Heeded luajit m a) (hun : Unchecked luajit m a) : ¬ Propagating m := by
  intro hs
  obtain ⟨c, s⟩ := m
  cases a with
  | resume co luck =>
    cases c with
    | lua st => exact hok st rfl hs
    | _ => cases hun
  | ret v luck =>
    cases c with
    | lua st =>
      cases st with
      | resume co st => cases h.2 hs
      | _ => cases hun
    | _ => cases hun
  | yield luck =>
    cases c with
    | lua st =>
      obtain ⟨⟨n, co, st'⟩, hy⟩ := Option.isSome_iff_exists.mp hun
      have hh := h.2 hs
      rw [yield_to_spec hy, heeded_push_lpcalls] at hh
      cases hh
    | _ => cases hun
  | unwind luck =>
    cases c with
    | throw t st =>
      cases st with
      | lpcall st =>
        obtain ⟨rfl, hv⟩ := hun
        rcases h.2 hs with hr | hh | hh
        · rw [not_raises_error hv] at hr
          cases hr
        · cases hh
        · cases hh
      | resume co st =>
        rcases h.2 hs with hr | hh | hh
        · rw [not_raises_error hun] at hr
          cases hr
        · cases hh
        · cases hh
      | _ => cases hun
    | _ => cases hun
  | _ => cases hun

theorem heeded_reportsPlain (luajit : Bool) (m : Machine) (a : Action)
    (h : PendingLaw m ∧ Watched luajit m) (hok : Heeded luajit m a) : ReportsPlain luajit m a := by
  intro w hw
  cases step_notes luajit m a with
  | same h => exact (ne_cons_self (h.symm.trans hw)).elim
  | assert_failed h => cases h.symm.trans hw
  | reported v hnotes plain why =>
    cases hnotes.symm.trans hw
    refine ⟨plain, ?_⟩
    rcases why with hun | hnil
    · exact unchecked_quiet h.2 hok hun
    · exact not_propagating h.1 hnil

theorem step_pending_and_watched (luajit : Bool) (m : Machine) (a : Action)
    (h : PendingLaw m ∧ Watched luajit m) (hok : Heeded luajit m a) :
    PendingLaw (step luajit m a) ∧ Watched luajit (step luajit m a) :=
  ⟨step_pendingLaw luajit m a h.1, step_watched luajit m a h.1 h.2 hok⟩

/-! ## Errors are not swallowed -/

/-- A PostgreSQL error becomes an error object with its data. The object goes unchanged
through every `lpcall` and `coroutine.resume` on its way, and out of an activation it is
raised again with its data. Where no `coroutine.resume` (or, on LuaJIT, no `lpcall`) is called
with an error on its way, what these calls report is a plain value, and no error is on its
way. -/
theorem an_error_of_postgresql_is_not_swallowed (luajit : Bool) :
    (∀ e b st s luck, ∃ o s',
      step luajit ⟨.ereport e b (.pgcall st), s⟩ (.unwind luck) =
        ⟨.throw (.raised (.error o)) st, s'⟩ ∧
      (o.edata = e ∨ luck.no_object = true ∧ o = .recursive)) ∧
    (∀ o (st : Stack .lua) s (lucks : List Luck), lucks.length = st.crossed.length →
      run (step luajit) ⟨.throw (.raised (.error o)) st, s⟩ (lucks.map .unwind) =
        ⟨.throw (.raised (.error o)) st.boundary, s.kill st.crossed⟩) ∧
    (∀ o saved st s luck, ∃ e s',
      step luajit ⟨.throw (.raised (.error o)) (.activation saved st), s⟩ (.unwind luck) =
        ⟨.ereport e true st, s'⟩ ∧
      (e = o.edata ∨ luck.no_registration = true ∧ e = ErrorObject.recursive.edata)) ∧
    ∀ as, Each (step luajit) (Heeded luajit) start as →
      Each (step luajit) (ReportsPlain luajit) start as := by
  refine ⟨?_, ?_, ?_, ?_⟩
  · intro e b st s luck
    exact ⟨(pllua_rethrow_from_pg luck.no_object e s).1, _, rfl, absorb_object s luck.no_object e⟩
  · intro o st s lucks hl
    exact an_error_crosses luajit o st rfl s lucks hl
  · intro o saved st s luck
    exact ⟨(pllua_rethrow_from_lua false luck.no_registration (.error o) (s.set_active saved)).1, _,
      rfl, rethrow_from_lua_edata _ _ o⟩
  · intro as h
    exact each_of_invariant (step_pending_and_watched luajit) (heeded_reportsPlain luajit)
      ⟨pendingLaw_start, trivial⟩ h

/-- On Lua 5.2 and later the error function of an xpcall runs a coroutine that ends with a
plain error. Its resume reports false while the PostgreSQL error is pending. -/
theorem a_resume_in_an_error_function_reports_a_plain_error :
    ¬ Each (step false) (ReportsPlain false) start
      (failing_xpcall ++
        [.unwind good_luck, .resume 0 good_luck, .error (.string "x"), .unwind good_luck]) := by
  intro h
  obtain ⟨-, -, -, -, -, -, -, -, -, h, -⟩ := h
  exact (h (.string "x") rfl).2 (Or.inl rfl)

/-- A coroutine that ends with a plain error, and then a resume that finds no room, with no
error on its way. -/
theorem a_resume_reports_a_plain_error :
    Each (step false) (ReportsPlain false) start
      [.activation, .resume 0 good_luck, .error (.string "x"), .unwind good_luck,
        .resume 1 { good_luck with no_room := true }] := by
  refine (an_error_of_postgresql_is_not_swallowed false).2.2.2 _ ⟨trivial, ?_, trivial, trivial, ?_,
    trivial⟩
  · rintro st - (h | ⟨h, -⟩)
    · cases h
    · exact h rfl
  · rintro st - (h | ⟨h, -⟩)
    · cases h
    · exact h rfl

end pllua.errors
