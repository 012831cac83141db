-- The laws of the subtransactions of pcall, xpcall and subtransaction: each one
-- that is begun is ended once, in the order of brackets, and the stack of
-- subtransactions is restored on every way out of a call. They break where a
-- rollback raises an error and leaves its subtransaction.
import Pllua.PendingErrors

open pllua.runs

namespace pllua.errors

/-! ## The subtransactions of the calls on the stack -/

/-- The calls on the stack whose subtransaction has not ended, innermost first. -/
def opened (x : XactId → Subxact) : {side : Side} → Stack side → List XactId
  | _, .base => []
  | _, .exception id st => id :: opened x st
  | _, .pgcall st => opened x st
  | _, .activation _ st => opened x st
  | _, .lpcall st => opened x st
  | _, .resume _ st => opened x st
  | _, .guts _ _ id _ st => if (x id).onstack then id :: opened x st else opened x st

/-- The last `pllua_t_pcall_guts` whose subtransaction has not ended. -/
def last_open (x : XactId → Subxact) : {side : Side} → Stack side → Option XactId
  | _, .base => none
  | _, .exception _ st => last_open x st
  | _, .pgcall st => last_open x st
  | _, .activation _ st => last_open x st
  | _, .lpcall st => last_open x st
  | _, .resume _ st => last_open x st
  | _, .guts _ _ id _ st => if (x id).onstack then some id else last_open x st

/-- Each call knows the subtransaction that was the last one at its entry, and while its
protected function runs its own has not ended. -/
def Chained (x : XactId → Subxact) : {side : Side} → Stack side → Prop
  | _, .base => True
  | _, .exception _ st => Chained x st
  | _, .pgcall st => Chained x st
  | _, .activation _ st => Chained x st
  | _, .lpcall st => Chained x st
  | _, .resume _ st => Chained x st
  | _, .guts _ phase id entry st =>
    entry = last_open x st ∧ (x id).prev = entry ∧ (phase = .body → (x id).onstack = true) ∧
      Chained x st

/-- The numbers of the calls go down from the top, and are all below `n`. -/
def Below : {side : Side} → XactId → Stack side → Prop
  | _, _, .base => True
  | _, n, .exception id st => id < n ∧ Below id st
  | _, n, .pgcall st => Below n st
  | _, n, .activation _ st => Below n st
  | _, n, .lpcall st => Below n st
  | _, n, .resume _ st => Below n st
  | _, n, .guts _ _ id _ st => id < n ∧ Below id st

theorem Below.mono {side : Side} {st : Stack side} {n k : XactId} (h : Below n st) (hnk : n ≤ k) :
    Below k st := by
  induction st generalizing n k with
  | base => trivial
  | exception id st ih => exact ⟨Nat.lt_of_lt_of_le h.1 hnk, h.2⟩
  | guts is_xpcall phase id entry st ih => exact ⟨Nat.lt_of_lt_of_le h.1 hnk, h.2⟩
  | pgcall st ih => exact ih h hnk
  | activation saved st ih => exact ih h hnk
  | lpcall st ih => exact ih h hnk
  | resume co st ih => exact ih h hnk

/-- A change of a subtransaction that is not on the stack. -/
theorem frame {side : Side} {st : Stack side} {n k : XactId} (x : XactId → Subxact) (y : Subxact)
    (h : Below n st) (hk : n ≤ k) :
    opened (Function.update x k y) st = opened x st ∧
    last_open (Function.update x k y) st = last_open x st ∧
    (Chained (Function.update x k y) st ↔ Chained x st) := by
  induction st generalizing n with
  | base => exact ⟨rfl, rfl, Iff.rfl⟩
  | exception id st ih =>
    obtain ⟨h1, h2, h3⟩ := ih h.2 (Nat.le_of_lt (Nat.lt_of_lt_of_le h.1 hk))
    exact ⟨congrArg _ h1, h2, h3⟩
  | guts is_xpcall phase id entry st ih =>
    obtain ⟨h1, h2, h3⟩ := ih h.2 (Nat.le_of_lt (Nat.lt_of_lt_of_le h.1 hk))
    have hne : id ≠ k := Nat.ne_of_lt (Nat.lt_of_lt_of_le h.1 hk)
    simp only [opened, last_open, Chained, Function.update_of_ne hne, h1, h2, h3]
    exact ⟨trivial, trivial, trivial⟩
  | pgcall st ih => exact ih h hk
  | activation saved st ih => exact ih h hk
  | lpcall st ih => exact ih h hk
  | resume co st ih => exact ih h hk

/-! ## The law -/

def State.history (s : State) : List (brackets.Event XactId) := s.log.filterMap Event.bracket

/-- The stack of subtransactions and the subtransactions of PostgreSQL are those of the
calls on the stack. -/
structure Shaped (s : State) {side : Side} (st : Stack side) : Prop where
  chained : Chained s.subxacts st
  below : Below s.next_xact st
  top : s.subxact_stack_top = last_open s.subxacts st
  nest : s.nest = opened s.subxacts st

/-- The history can be replayed, and each subtransaction is begun once. -/
structure Replayed (s : State) (l : List (XactId × brackets.Status)) : Prop where
  replay : brackets.replay s.history = some l
  once : ∀ id, s.history.count (.began id) ≤ 1
  fresh : ∀ id, s.next_xact ≤ id → s.history.count (.began id) = 0

def running (ids : List XactId) : List (XactId × brackets.Status) := ids.map (·, .running)

structure Laid (s : State) {side : Side} (st : Stack side) : Prop where
  shaped : Shaped s st
  replayed : Replayed s (running s.nest)

theorem Shaped.same {s s' : State} {side : Side} {st : Stack side} (h : Shaped s st)
    (hs : SameXacts s s') : Shaped s' st := by
  refine ⟨?_, ?_, ?_, ?_⟩
  · rw [hs.subxacts]; exact h.chained
  · rw [hs.next_xact]; exact h.below
  · rw [hs.stack_top, hs.subxacts]; exact h.top
  · rw [hs.nest, hs.subxacts]; exact h.nest

theorem Replayed.same {s s' : State} {l : List (XactId × brackets.Status)} (h : Replayed s l)
    (hs : SameXacts s s') : Replayed s' l := by
  have hh : s'.history = s.history := hs.history
  refine ⟨?_, ?_, ?_⟩
  · rw [hh]; exact h.replay
  · rw [hh]; exact h.once
  · rw [hh, hs.next_xact]; exact h.fresh

theorem Replayed.carried {s s' : State} (h : Replayed s (running s.nest)) (hs : SameXacts s s') :
    Replayed s' (running s'.nest) := by
  rw [hs.nest]
  exact h.same hs

theorem Laid.same {s s' : State} {side : Side} {st : Stack side} (h : Laid s st)
    (hs : SameXacts s s') : Laid s' st := ⟨h.shaped.same hs, h.replayed.carried hs⟩

/-- One more event that begins nothing. -/
theorem Replayed.next {s s' : State} {l l' : List (XactId × brackets.Status)}
    {e : brackets.Event XactId} (h : Replayed s l) (hh : s'.history = e :: s.history)
    (hn : s'.next_xact = s.next_xact) (he : brackets.next l e = some l')
    (hb : ∀ id, e ≠ .began id) : Replayed s' l' := by
  have hcount : ∀ id, s'.history.count (.began id) = s.history.count (.began id) := by
    intro id
    rw [hh, List.count_cons_of_ne (hb id)]
  refine ⟨?_, ?_, ?_⟩
  · rw [hh]
    exact brackets.replay_cons h.replay he
  · intro id
    rw [hcount]
    exact h.once id
  · intro id hid
    rw [hcount]
    exact h.fresh id (hn ▸ hid)

/-! ## Functions of PostgreSQL that raise an error -/

/-- A begin that raises an error has begun nothing, a release that raises one has ended
nothing, and a rollback that raises one has ended the subtransaction. -/
structure Luck.Clean (luck : Luck) : Prop where
  begins : luck.begin_error ≠ none → luck.begin_leaves = false
  releases : luck.release_error ≠ none → luck.release_ends = false
  rolls_back : luck.rollback_error ≠ none → luck.rollback_leaves = false

/-- The condition of a step. -/
def Clean (_ : Machine) : Action → Prop
  | .ret _ luck | .pcall luck | .xpcall luck | .unwind luck => luck.Clean
  | _ => True

theorem Luck.Clean.begin_failed {luck : Luck} (h : luck.Clean) {e : ErrorData}
    (he : luck.begin_error = some e) (id : XactId) (s : State) : begin_failed luck id s = s := by
  unfold errors.begin_failed
  rw [h.begins (by simp [he])]
  rfl

theorem Luck.Clean.release_failed {luck : Luck} (h : luck.Clean) {e : ErrorData}
    (he : luck.release_error = some e) (s : State) : release_failed luck s = s := by
  unfold errors.release_failed
  rw [h.releases (by simp [he])]
  rfl

theorem Luck.Clean.rollback_failed {luck : Luck} (h : luck.Clean) {e : ErrorData}
    (he : luck.rollback_error = some e) (s : State) :
    rollback_failed luck s = RollbackAndReleaseCurrentSubTransaction s := by
  unfold errors.rollback_failed
  rw [h.rolls_back (by simp [he])]
  rfl

/-! ## A call begins -/

section
variable {st : Stack .lua} {s : State} {luck : Luck}

/-- A call whose subtransaction has ended, with the stack of subtransactions as it was at
the entry of the call. -/
structure Ended (s : State) (id : XactId) (entry : Option XactId) (st : Stack .lua) : Prop where
  shaped : ∀ is_xpcall phase, phase ≠ .body → Shaped s (.guts is_xpcall phase id entry st)
  rest : Shaped s st
  offstack : (s.subxacts id).onstack = false
  top : s.subxact_stack_top = entry

theorem Ended.same {s s' : State} {id : XactId} {entry : Option XactId} (h : Ended s id entry st)
    (hs : SameXacts s s') : Ended s' id entry st := by
  refine ⟨fun b phase hp => (h.shaped b phase hp).same hs, h.rest.same hs, ?_, ?_⟩
  · rw [hs.subxacts]; exact h.offstack
  · rw [hs.stack_top]; exact h.top

/-- A way out of a call: Lua code goes on or an error does, and the stack of
subtransactions is as it was at the entry. -/
structure Leaves (m : Machine) (entry : Option XactId) (st : Stack .lua) : Prop where
  goes_on : m.control = .lua st ∨ ∃ t, m.control = .throw t st
  laid : Laid m.state st
  restored : m.state.subxact_stack_top = entry

/-- The error function takes the place of the protected function. -/
theorem Laid.phase {is_xpcall : Bool} {phase phase' : Phase} {id : XactId} {entry : Option XactId}
    (h : Laid s (.guts is_xpcall phase id entry st)) (hne : phase' ≠ .body) :
    Laid s (.guts is_xpcall phase' id entry st) := by
  obtain ⟨⟨⟨he, hp, -, hc⟩, hb, ht, hn⟩, hr⟩ := h
  exact ⟨⟨⟨he, hp, fun h => absurd h hne, hc⟩, hb, ht, hn⟩, hr⟩

end

/-! ## Each step keeps the law -/

def LaidOut (m : Machine) : Prop :=
  match m.control with
  | .lua st => Laid m.state st
  | .throw _ st => Laid m.state st
  | .pg st => Laid m.state st
  | .ereport _ _ st => Laid m.state st

section
variable {luajit : Bool} {luck : Luck} {st : Stack .lua} {s : State}

end

section
variable {luck : Luck} {st : Stack .pg} {s : State}

end

/-- The call `f` is on the stack. -/
inductive Stack.Holds (f : Stack .lua) : {side : Side} → Stack side → Prop
  | here : Holds f f
  | exception {id : XactId} {st : Stack .pg} (h : Holds f st) : Holds f (.exception id st)
  | pgcall {st : Stack .lua} (h : Holds f st) : Holds f (.pgcall st)
  | activation {saved : ErrorRef} {st : Stack .pg} (h : Holds f st) : Holds f (.activation saved st)
  | lpcall {st : Stack .lua} (h : Holds f st) : Holds f (.lpcall st)
  | resume {co : Nat} {st : Stack .lua} (h : Holds f st) : Holds f (.resume co st)
  | guts {b : Bool} {phase : Phase} {id : XactId} {entry : Option XactId} {st : Stack .lua}
      (h : Holds f st) : Holds f (.guts b phase id entry st)

section
variable {luajit : Bool} {luck : Luck} {st : Stack .lua} {s : State} {b : Bool} {phase : Phase}
  {id : XactId} {entry : Option XactId}

end

theorem LaidOut.replayed {m : Machine} (h : LaidOut m) :
    Replayed m.state (running m.state.nest) := by
  obtain ⟨c, s⟩ := m
  cases c <;> exact Laid.replayed h

end pllua.errors
