-- The law of the reset callbacks of an interpreter, those of cursors and those of
-- function activations: while one is armed, the lua_State that it will run on is
-- there, and so is the object that it is about.
import Pllua.CursorLinks

open pllua.runs pllua.spi

namespace pllua.callbacks

/-! ## The state -/

/-- The address of a memory context. -/
abbrev Context := Nat

abbrev ActId := Nat

/-- `pllua_func_activation`, as far as its callback uses it. -/
structure Activation where
  L : Thread
  dead : Bool
deriving DecidableEq, Repr

/-- An interpreter, with the memory contexts of PostgreSQL in which it has callbacks. -/
structure Interp where
  spi : spi.State
  /-- the coroutines that are not collected, and the main state -/
  threads : Thread → Bool
  next_thread : Thread
  activations : ActId → Activation
  /-- the activation objects that are not freed -/
  allocated : ActId → Bool
  next_act : ActId
  /-- `PLLUA_ACTIVATIONS` -/
  registry : ActId → Bool
  /-- the reset callbacks of a context whose `arg` is an activation, last one first -/
  contexts : Context → List ActId
  /-- `pllua_newstate_phase2` has come to its end -/
  ready : Bool
  /-- `lua_close` has been called -/
  closed : Bool

/-! ## Activations -/

/-- `pllua_newactivation`, which runs on the main state. -/
def pllua_newactivation (mcxt : Context) (m : Interp) : Interp :=
  let act := m.next_act
  { m with
    activations := Function.update m.activations act ⟨0, false⟩
    allocated := Function.update m.allocated act true
    registry := Function.update m.registry act true
    contexts := Function.update m.contexts mcxt (act :: m.contexts mcxt)
    next_act := act + 1 }

/-- `pllua_freeactivation`, which `pllua_freeactivation_cb` calls. -/
def pllua_freeactivation (m : Interp) (act : ActId) : Interp :=
  { m with
    activations := Function.update m.activations act { m.activations act with dead := true }
    registry := Function.update m.registry act false }

/-- PostgreSQL resets a context: the callbacks run. -/
def reset_context (mcxt : Context) (m : Interp) : Interp :=
  (m.contexts mcxt).foldl pllua_freeactivation
    { m with contexts := Function.update m.contexts mcxt [] }

/-! ## The end of an interpreter -/

/-- The finalizers that `lua_close` calls for the cursors that are not freed. -/
def close_cursors (luck : CursorId → Luck) (s : spi.State) : spi.State :=
  ((List.range s.next_cursor).reverse.filter (fun c => s.life c ≠ .freed)).foldl
    (fun s c => pllua_cursor_gc (luck c) c s) s

/-- `lua_close`: all finalizers run, and then all objects are freed. -/
def lua_close (luck : CursorId → Luck) (m : Interp) : Interp :=
  { m with
    spi := { close_cursors luck m.spi with life := fun _ => .freed, attaching := [] }
    threads := fun _ => false
    allocated := fun _ => false
    closed := true }

/-! ## Steps -/

inductive Action
  /-- what happens to cursors and portals -/
  | spi (a : spi.Action)
  | newthread
  | collect_thread (t : Thread)
  | newactivation (mcxt : Context)
  /-- the collector frees an activation object -/
  | collect_activation (act : ActId)
  | reset_context (mcxt : Context)
  | init_done
  /-- the `PG_CATCH` block of `pllua_newstate_phase2` -/
  | init_fails (luck : CursorId → Luck)

/-- The `lua_State` that an action on cursors runs on, if it takes one. -/
def spi_thread : spi.Action → Option Thread
  | .newcursor _ L | .findcursor _ L | .begin_open _ _ _ L => some L
  | _ => none

/-- The action is one of PostgreSQL alone. -/
def outside_lua : spi.Action → Bool
  | .declare _ _ | .drop _ => true
  | _ => false

/-- One step. An action that is not possible changes nothing. -/
def step (m : Interp) : Action → Interp
  | .spi a =>
    if outside_lua a || (!m.closed && (spi_thread a).all m.threads) then
      { m with spi := spi.step m.spi a }
    else m
  | .newthread =>
    if m.closed then m
    else
      { m with
        threads := Function.update m.threads m.next_thread true, next_thread := m.next_thread + 1 }
  | .collect_thread t =>
    -- the main state and the coroutines in a C call are not collected
    if t ≠ 0 ∧ ∀ a ∈ m.spi.attaching, a.L ≠ t then
      { m with threads := Function.update m.threads t false }
    else m
  | .newactivation mcxt => if m.closed then m else pllua_newactivation mcxt m
  | .collect_activation act =>
    if m.registry act then m else { m with allocated := Function.update m.allocated act false }
  | .reset_context mcxt => reset_context mcxt m
  | .init_done => if m.closed then m else { m with ready := true }
  | .init_fails luck => if m.ready || m.closed then m else lua_close luck m

/-- An interpreter whose initialisation is under way. -/
def start : Interp where
  spi := spi.start
  threads := fun t => t = 0
  next_thread := 1
  activations := fun _ => ⟨0, false⟩
  allocated := fun _ => false
  next_act := 0
  registry := fun _ => false
  contexts := fun _ => []
  ready := false
  closed := false

/-! ## The law -/

/-- The callback of each armed record has the state it runs on, and its object. -/
structure Safe (m : Interp) : Prop where
  cursor : ∀ p c, c ∈ m.spi.callbacks p →
    m.closed = false ∧ m.threads (m.spi.cursors c).L = true ∧ m.spi.life c ≠ .freed
  activation : ∀ mcxt act, act ∈ m.contexts mcxt →
    m.closed = false ∧ m.threads (m.activations act).L = true ∧ m.allocated act = true

/-- The condition of a step. A coroutine that is collected is not the one of a cursor with an
armed callback, and the initialisation does not fail while the callback of an activation is
armed. -/
def Spared (m : Interp) : Action → Prop
  | .collect_thread t => ∀ p c, c ∈ m.spi.callbacks p → (m.spi.cursors c).L ≠ t
  | .init_fails _ => m.ready = false → ∀ mcxt, m.contexts mcxt = []
  | _ => True

/-! ## The states that cursors run on -/

/-- No cursor gets a portal, and no call begins. -/
structure Shrinks (s s' : spi.State) : Prop where
  cursors : ∀ c p, (s'.cursors c).portal = some p →
    (s.cursors c).portal = some p ∧ (s'.cursors c).L = (s.cursors c).L
  attaching : ∀ a ∈ s'.attaching, a ∈ s.attaching

section
variable {P : Thread → Prop} {s s' : spi.State}

theorem Shrinks.refl (s : spi.State) : Shrinks s s := ⟨fun _ _ h => ⟨h, rfl⟩, fun _ h => h⟩

theorem Shrinks.trans {a b c : spi.State} (h : Shrinks a b) (h' : Shrinks b c) : Shrinks a c := by
  refine ⟨?_, fun x hx => h.attaching x (h'.attaching x hx)⟩
  intro k p hp
  obtain ⟨hb, hL⟩ := h'.cursors k p hp
  obtain ⟨ha, hL'⟩ := h.cursors k p hb
  exact ⟨ha, hL.trans hL'⟩

end

/-! ## Contexts and the end of an interpreter -/

section
variable {m : Interp}

end

end pllua.callbacks
