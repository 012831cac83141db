-- Runs of a machine: a list of actions, taken one after another. A law that
-- each step keeps, under a condition on the step, holds after every run whose
-- steps all meet the condition.
import Mathlib.Data.List.Basic

namespace pllua.runs

section
variable {σ α : Type} (step : σ → α → σ)

/-- The state after the actions of the list, oldest first. -/
def run (s : σ) (as : List α) : σ := as.foldl step s

/-- Every action of the run meets the condition in the state before it. -/
def Each (ok : σ → α → Prop) : σ → List α → Prop
  | _, [] => True
  | s, a :: as => ok s a ∧ Each ok (step s a) as

instance decidableEach (ok : σ → α → Prop) [∀ s a, Decidable (ok s a)] :
    ∀ s as, Decidable (Each step ok s as)
  | _, [] => inferInstanceAs (Decidable True)
  | s, a :: as =>
    have := decidableEach ok (step s a) as
    inferInstanceAs (Decidable (ok s a ∧ _))

variable {step}

@[simp] theorem run_nil (s : σ) : run step s [] = s := rfl

@[simp] theorem run_cons (s : σ) (a : α) (as : List α) :
    run step s (a :: as) = run step (step s a) as := rfl

theorem run_append (s : σ) (as bs : List α) :
    run step s (as ++ bs) = run step (run step s as) bs := by
  simp [run, List.foldl_append]

/-- The rule of the invariant: a law that each step keeps, where the step meets
the condition, holds after the run. -/
theorem run_invariant {I : σ → Prop} {ok : σ → α → Prop}
    (hstep : ∀ s a, I s → ok s a → I (step s a)) {s : σ} {as : List α} (hs : I s)
    (h : Each step ok s as) : I (run step s as) := by
  induction as generalizing s with
  | nil => exact hs
  | cons a as ih => exact ih (hstep s a hs h.1) h.2

/-- A law that every step keeps holds after every run. -/
theorem run_keeps {I : σ → Prop} (hstep : ∀ s a, I s → I (step s a)) {s : σ} (hs : I s)
    (as : List α) : I (run step s as) := by
  induction as generalizing s with
  | nil => exact hs
  | cons a as ih => exact ih (hstep s a hs)

/-- What the invariant gives at each step holds at every step of the run. -/
theorem each_of_invariant {I : σ → Prop} {ok P : σ → α → Prop}
    (hstep : ∀ s a, I s → ok s a → I (step s a)) (hP : ∀ s a, I s → ok s a → P s a)
    {s : σ} {as : List α} (hs : I s) (h : Each step ok s as) : Each step P s as := by
  induction as generalizing s with
  | nil => trivial
  | cons a as ih => exact ⟨hP s a hs h.1, ih (hstep s a hs h.1) h.2⟩

/-- What a law that every step keeps gives at each step holds at every step of every run. -/
theorem each_of_keeps {I : σ → Prop} {P : σ → α → Prop}
    (hstep : ∀ s a, I s → I (step s a)) (hP : ∀ s a, I s → P s a) {s : σ} (hs : I s)
    (as : List α) : Each step P s as := by
  induction as generalizing s with
  | nil => trivial
  | cons a as ih => exact ⟨hP s a hs, ih (hstep s a hs)⟩

end

/-! ## Machines that answer -/

section
variable {σ τ α ω : Type}

/-- The machine of the states, without the answers. -/
def states (f : σ → α → σ × ω) (s : σ) (a : α) : σ := (f s a).1

/-- The answers to the actions of a run, oldest first. -/
def answers (f : σ → α → σ × ω) : σ → List α → List ω
  | _, [] => []
  | s, a :: as => (f s a).2 :: answers f (f s a).1 as

/-- The rule of the simulation: machines that give one answer and stay related at every step
that meets the condition give the same answers in every run of such steps. -/
theorem run_simulates {f : σ → α → σ × ω} {g : τ → α → τ × ω} {R : σ → τ → Prop}
    {ok : σ → α → Prop}
    (hstep : ∀ s t a, R s t → ok s a → R (f s a).1 (g t a).1 ∧ (f s a).2 = (g t a).2)
    {s : σ} {t : τ} {as : List α} (hs : R s t) (h : Each (states f) ok s as) :
    R (run (states f) s as) (run (states g) t as) ∧ answers f s as = answers g t as := by
  induction as generalizing s t with
  | nil => exact ⟨hs, rfl⟩
  | cons a as ih =>
    obtain ⟨hnext, hsame⟩ := hstep s t a hs h.1
    obtain ⟨hrun, hrest⟩ := ih hnext h.2
    refine ⟨hrun, ?_⟩
    unfold answers
    rw [hsame, hrest]

end

end pllua.runs
