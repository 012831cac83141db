-- A discipline of brackets: things are begun and ended, the last one begun is
-- the first one ended, and the end says whether its body returned. A log of
-- events, newest first, keeps the discipline when it can be replayed.
import Mathlib.Data.List.Basic
import Mathlib.Tactic.Basic

namespace pllua.brackets

section
variable {α : Type} [DecidableEq α]

inductive Event (α : Type)
  | began (a : α)
  /-- the body returned -/
  | returned (a : α)
  /-- the release after the body failed -/
  | release_failed (a : α)
  | released (a : α)
  | rolled_back (a : α)
deriving DecidableEq

/-- How far a bracket is that is still open. -/
inductive Status
  | running | returned | failed
deriving DecidableEq

/-- The brackets open after one more event, the innermost first. -/
def next : List (α × Status) → Event α → Option (List (α × Status))
  | l, .began a => some ((a, .running) :: l)
  | (a, .running) :: l, .returned b => if a = b then some ((a, .returned) :: l) else none
  | (a, .returned) :: l, .release_failed b => if a = b then some ((a, .failed) :: l) else none
  | (a, .returned) :: l, .released b => if a = b then some l else none
  | (a, .running) :: l, .rolled_back b => if a = b then some l else none
  | (a, .failed) :: l, .rolled_back b => if a = b then some l else none
  | _, _ => none

/-- The brackets open after the events, or none when the discipline is broken. -/
def replay : List (Event α) → Option (List (α × Status))
  | [] => some []
  | e :: log => (replay log).bind fun l => next l e

theorem replay_cons {log : List (Event α)} {l l' : List (α × Status)} {e : Event α}
    (h : replay log = some l) (he : next l e = some l') : replay (e :: log) = some l' := by
  simp [replay, h, he]

/-! ## Counting -/

/-- How often a bracket is open with a status. -/
def count_open (a : α) (s : Status) (l : List (α × Status)) : Nat := l.count (a, s)

/-- Every begin has its end, or is still open. Every return of a body has its release
or its failure, or is still open. -/
structure Counted (a : α) (log : List (Event α)) (l : List (α × Status)) : Prop where
  ends : log.count (.began a) = log.count (.released a) + log.count (.rolled_back a) +
    count_open a .running l + count_open a .returned l + count_open a .failed l
  returns : log.count (.returned a) = log.count (.released a) + log.count (.release_failed a) +
    count_open a .returned l
  once : log.count (.returned a) + count_open a .running l ≤ log.count (.began a)

theorem next_cases {l l' : List (α × Status)} {e : Event α} (h : next l e = some l') :
    (∃ a, e = .began a ∧ l' = (a, .running) :: l) ∨
    (∃ a t, e = .returned a ∧ l = (a, .running) :: t ∧ l' = (a, .returned) :: t) ∨
    (∃ a t, e = .release_failed a ∧ l = (a, .returned) :: t ∧ l' = (a, .failed) :: t) ∨
    (∃ a t, e = .released a ∧ l = (a, .returned) :: t ∧ l' = t) ∨
    (∃ a t, e = .rolled_back a ∧ l = (a, .running) :: t ∧ l' = t) ∨
    (∃ a t, e = .rolled_back a ∧ l = (a, .failed) :: t ∧ l' = t) := by
  unfold next at h
  split at h <;> (try split at h) <;> simp_all

theorem counted_next {a : α} {log : List (Event α)} {l l' : List (α × Status)} {e : Event α}
    (h : Counted a log l) (he : next l e = some l') : Counted a (e :: log) l' := by
  obtain ⟨h1, h2, h3⟩ := h
  unfold count_open at h1 h2 h3
  rcases next_cases he with ⟨b, rfl, rfl⟩ | ⟨b, t, rfl, rfl, rfl⟩ | ⟨b, t, rfl, rfl, rfl⟩ |
    ⟨b, t, rfl, rfl, rfl⟩ | ⟨b, t, rfl, rfl, rfl⟩ | ⟨b, t, rfl, rfl, rfl⟩
  all_goals
    by_cases hb : b = a
    · subst hb
      constructor <;> simp [count_open] at h1 h2 h3 ⊢ <;> omega
    · constructor <;> simp [count_open, hb] at h1 h2 h3 ⊢ <;> omega

theorem counted {log : List (Event α)} {l : List (α × Status)} (h : replay log = some l) (a : α) :
    Counted a log l := by
  induction log generalizing l with
  | nil =>
    cases h
    constructor <;> simp [count_open]
  | cons e log ih =>
    obtain ⟨l0, hl0, he⟩ := Option.bind_eq_some_iff.mp h
    exact counted_next (ih hl0) he

end

end pllua.brackets
