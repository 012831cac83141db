-- Context-free grammars whose rules keep brackets in pairs: whatever they derive is balanced, and
-- the end of a balanced part is found by counting.
import Mathlib.Computability.ContextFreeGrammar
import Mathlib.Tactic.Common

namespace grammars

/-! ## Balanced lists -/

/-- What a symbol does to the depth. -/
inductive Side
  | opens
  | closes
  | neutral
deriving DecidableEq

section
variable {α : Type*} (side : α → Side)

/-- The depth after a list, unless a bracket is closed that was not opened. -/
def climb : Nat → List α → Option Nat
  | depth, [] => some depth
  | depth, a :: as =>
    match side a, depth with
    | .opens, depth => climb (depth + 1) as
    | .closes, 0 => none
    | .closes, depth + 1 => climb depth as
    | .neutral, depth => climb depth as

def Balanced (l : List α) : Prop := climb side 0 l = some 0

instance (l : List α) : Decidable (Balanced side l) := by unfold Balanced; infer_instance

variable {side}

theorem climb_append (depth : Nat) (a b : List α) :
    climb side depth (a ++ b) = (climb side depth a).bind fun depth => climb side depth b := by
  induction a generalizing depth with
  | nil => rfl
  | cons x xs ih =>
    simp only [List.cons_append, climb]
    split <;> first | exact ih _ | rfl

/-- Brackets around a list do not matter to it. -/
theorem climb_add {depth depth' : Nat} {l : List α} (h : climb side depth l = some depth')
    (k : Nat) : climb side (depth + k) l = some (depth' + k) := by
  induction l generalizing depth with
  | nil =>
    obtain rfl : depth = depth' := by simpa [climb] using h
    rfl
  | cons x xs ih =>
    simp only [climb] at h ⊢
    cases hx : side x with
    | opens =>
      rw [hx] at h
      have := ih h
      rwa [Nat.add_right_comm] at this
    | closes =>
      rw [hx] at h
      cases depth with
      | zero => cases h
      | succ depth =>
        have := ih h
        rwa [Nat.succ_add]
    | neutral =>
      rw [hx] at h
      exact ih h

theorem Balanced.climb {l : List α} (h : Balanced side l) (depth : Nat) :
    climb side depth l = some depth := by
  have := climb_add h depth
  rwa [Nat.zero_add] at this

/-- A balanced list may stand for a neutral symbol. -/
theorem Balanced.replace {p q r : List α} {x : α} (h : Balanced side (p ++ [x] ++ q))
    (hx : side x = .neutral) (hr : Balanced side r) : Balanced side (p ++ r ++ q) := by
  unfold Balanced at h ⊢
  rw [climb_append, climb_append] at h ⊢
  cases hp : grammars.climb side 0 p with
  | none => rw [hp] at h; cases h
  | some depth =>
    rw [hp] at h
    have hone : grammars.climb side depth [x] = some depth := by simp [grammars.climb, hx]
    rw [Option.bind_some, hone] at h
    rw [Option.bind_some, hr.climb]
    exact h

/-- What follows the first bracket that is closed too often is no part of a balanced list. -/
theorem not_balanced_closes {l rest : List α} {x : α} (h : Balanced side l)
    (hx : side x = .closes) : ¬ Balanced side (l ++ x :: rest) := by
  unfold Balanced
  rw [climb_append, h.climb, Option.bind_some]
  simp [grammars.climb, hx]

/-- A balanced list goes up to the bracket that closes what was open before it. -/
theorem balanced_unique {a b rest rest' : List α} {x y : α} (ha : Balanced side a)
    (hb : Balanced side b) (hx : side x = .closes) (hy : side y = .closes)
    (h : a ++ x :: rest = b ++ y :: rest') : a = b := by
  rcases List.append_eq_append_iff.mp h with ⟨t, rfl, ht⟩ | ⟨t, rfl, ht⟩
  · cases t with
    | nil => simp
    | cons z zs =>
      obtain ⟨rfl, -⟩ := List.cons.inj ht
      exact absurd hb (not_balanced_closes ha hx)
  · cases t with
    | nil => simp
    | cons z zs =>
      obtain ⟨rfl, -⟩ := List.cons.inj ht
      exact absurd ha (not_balanced_closes hb hy)

end

/-! ## Derivations -/

section
variable {T : Type*} (g : ContextFreeGrammar T)

/-- The terminals that a form can become. -/
def Gives (form : List (Symbol T g.NT)) (w : List T) : Prop :=
  g.Derives form (w.map .terminal)

variable {g}

theorem Gives.nil : Gives g [] [] := ContextFreeGrammar.Derives.refl _

theorem Gives.terminal {form : List (Symbol T g.NT)} {w : List T} (t : T) (h : Gives g form w) :
    Gives g (.terminal t :: form) (t :: w) :=
  ContextFreeGrammar.Derives.append_left h [.terminal t]

theorem Gives.append {form form' : List (Symbol T g.NT)} {w w' : List T} (h : Gives g form w)
    (h' : Gives g form' w') : Gives g (form ++ form') (w ++ w') := by
  unfold Gives
  rw [List.map_append]
  exact (ContextFreeGrammar.Derives.append_right h form').trans
    (ContextFreeGrammar.Derives.append_left h' _)

theorem Gives.rule {A : g.NT} {form : List (Symbol T g.NT)} {w : List T}
    (hrule : ⟨A, form⟩ ∈ g.rules) (h : Gives g form w) : Gives g [.nonterminal A] w :=
  (ContextFreeGrammar.Produces.single
    ⟨_, hrule, ContextFreeRule.Rewrites.input_output⟩).trans h

variable (side : T → Side)

/-- A nonterminal is neutral. -/
def symbol_side {N : Type} : Symbol T N → Side
  | .terminal t => side t
  | .nonterminal _ => .neutral

variable {side}

theorem Derives.balanced
    (hrules : ∀ r ∈ g.rules, Balanced (symbol_side side) r.output) {u v : List (Symbol T g.NT)}
    (h : g.Derives u v) (hu : Balanced (symbol_side side) u) :
    Balanced (symbol_side side) v := by
  induction h with
  | refl => exact hu
  | tail _ step ih =>
    obtain ⟨r, hr, hrewrites⟩ := step
    obtain ⟨p, q, rfl, rfl⟩ := hrewrites.exists_parts
    exact ih.replace rfl (hrules r hr)

theorem climb_terminals (depth : Nat) (w : List T) :
    climb (symbol_side side (N := g.NT)) depth (w.map .terminal) = climb side depth w := by
  induction w generalizing depth with
  | nil => rfl
  | cons t ts ih =>
    simp only [List.map_cons, climb, symbol_side]
    split <;> first | exact ih _ | rfl

/-- What a nonterminal becomes is balanced if every rule is. -/
theorem Gives.balanced (hrules : ∀ r ∈ g.rules, Balanced (symbol_side side) r.output)
    {A : g.NT} {w : List T} (h : Gives g [.nonterminal A] w) : Balanced side w := by
  have hform := Derives.balanced hrules h (show Balanced (symbol_side side) [_] from rfl)
  unfold Balanced at hform ⊢
  rwa [climb_terminals] at hform

end

end grammars
