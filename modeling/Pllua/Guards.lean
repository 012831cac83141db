-- Programs that stop by an error that is allowed or by a fault that is not. A
-- program is safe for a condition when it ends with it or stops by an error. What
-- must hold before a program follows from its steps, one rule for each.

namespace pllua.guards

/-- How a program stops early. `F` are the faults. -/
inductive Halt (F : Type)
  | error
  | fault (f : F)
deriving DecidableEq, Repr

section
variable {F α β : Type}

/-- The program ends with the condition, or stops by an error. -/
def Safe (r : Except (Halt F) α) (Q : α → Prop) : Prop :=
  match r with
  | .ok a => Q a
  | .error .error => True
  | .error (.fault _) => False

/-- The fault that the program stops by. -/
def faulted (r : Except (Halt F) α) : Option F :=
  match r with
  | .error (.fault f) => some f
  | _ => none

/-- Go on if the condition holds, else stop as given. -/
def ensure (c : Prop) [Decidable c] (h : Halt F) (a : α) : Except (Halt F) α :=
  if c then .ok a else .error h

@[simp] theorem safe_ok (a : α) (Q : α → Prop) : Safe (F := F) (.ok a) Q ↔ Q a := Iff.rfl

@[simp] theorem safe_pure (a : α) (Q : α → Prop) : Safe (F := F) (pure a) Q ↔ Q a := Iff.rfl

@[simp] theorem safe_error (Q : α → Prop) : Safe (F := F) (.error .error) Q ↔ True := Iff.rfl

@[simp] theorem safe_fault (f : F) (Q : α → Prop) : Safe (.error (.fault f)) Q ↔ False := Iff.rfl

/-- What must hold before two steps: the first step gives what must hold before the second. -/
@[simp] theorem safe_bind (r : Except (Halt F) α) (g : α → Except (Halt F) β) (Q : β → Prop) :
    Safe (r >>= g) Q ↔ Safe r fun a => Safe (g a) Q := by
  cases r with
  | ok a => exact Iff.rfl
  | error h =>
    cases h with
    | error => exact Iff.rfl
    | fault f => exact Iff.rfl

@[simp] theorem safe_ensure_fault (c : Prop) [Decidable c] (f : F) (a : α) (Q : α → Prop) :
    Safe (ensure c (.fault f) a) Q ↔ c ∧ Q a := by
  unfold ensure
  by_cases hc : c
  · rw [if_pos hc, safe_ok]
    exact (and_iff_right hc).symm
  · rw [if_neg hc, safe_fault]
    exact iff_of_false id fun h => hc h.1

@[simp] theorem safe_ensure_error (c : Prop) [Decidable c] (a : α) (Q : α → Prop) :
    Safe (F := F) (ensure c .error a) Q ↔ (c → Q a) := by
  unfold ensure
  by_cases hc : c
  · rw [if_pos hc, safe_ok]
    exact ⟨fun h _ => h, fun h => h hc⟩
  · rw [if_neg hc, safe_error]
    exact iff_of_true trivial fun h => absurd h hc

theorem safe_ite (c : Prop) [Decidable c] (r s : Except (Halt F) α) (Q : α → Prop) :
    Safe (if c then r else s) Q ↔ (c → Safe r Q) ∧ (¬ c → Safe s Q) := by
  by_cases hc : c
  · simp [hc]
  · simp [hc]

theorem not_safe_of_faulted {r : Except (Halt F) α} {f : F} {Q : α → Prop}
    (h : faulted r = some f) : ¬ Safe r Q := by
  cases r with
  | ok a => cases h
  | error e =>
    cases e with
    | error => cases h
    | fault f => exact id

/-- A weaker condition. -/
theorem Safe.mono {r : Except (Halt F) α} {P Q : α → Prop} (h : Safe r P) (hPQ : ∀ a, P a → Q a) :
    Safe r Q := by
  cases r with
  | ok a => exact hPQ a h
  | error e =>
    cases e with
    | error => trivial
    | fault f => exact h

end

end pllua.guards
