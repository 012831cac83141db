-- The protocol of a set-returning function. Each call of the executor gives one
-- row: the first call starts the body on a thread of its own, and each later
-- one resumes the thread, until the body ends or the context is shut down.
import Pllua.Runs
import Pllua.Catalog

open pllua.catalog pllua.runs

namespace pllua.srf

/-! ## Bodies and results -/

def VOIDOID : Oid := 2278

/-- What a body does until it gives up control. -/
inductive Outcome (V E B : Type)
  | yield (vals : List V) (rest : B)
  | ret (vals : List V)
  | error (e : E)

/-- What the activation has of the result type. -/
structure ResultInfo where
  rettype : Oid
  retdomain : Bool
  /-- `typefuncclass` is `TYPEFUNC_SCALAR` -/
  scalar : Bool
deriving DecidableEq, Repr

/-- Lua and the types: `V` are the values, `E` the errors, `B` the bodies at the point
where they wait, and `D` the datums of a result. -/
structure Backend (V E B D : Type) where
  /-- a body runs on -/
  run : B → Outcome V E B
  /-- the body that calls a value without arguments -/
  callvalue : V → B
  /-- `lua_resetthread` on a waiting body: the error of a pending `__close` -/
  closepending : B → Option E
  /-- `lua_resetthread` on a body that raised an error: the error that it leaves -/
  closefailed : E → Option E
  isnil : V → Bool
  /-- the constructor of the result type, and the copy of the datum -/
  construct : ResultInfo → List V → Except E (Option D)
  /-- `pllua_typeinfo_check_domain` on a null -/
  check_domain : ResultInfo → Except E Unit
  stack_overflow : E
  dead_coroutine : E
  /-- how many values the stack of a new thread has room for: 39 on Lua 5.3, 44 on Lua 5.4 -/
  newthread_room : Nat

/-- A Lua thread. -/
inductive Thread (V E B : Type)
  | suspended (body : B)
  /-- it ended, and the values are on its stack -/
  | returned (vals : List V)
  | failed (e : E)

/-- `pllua_func_activation`, as far as the protocol goes. -/
structure Activation (V E B : Type) where
  thread : Option (Thread V E B)
  /-- `PLLUA_THREAD_MEMBER` of the uservalue is set -/
  thread_member : Bool
  /-- the activation is in `PLLUA_ACTIVATIONS` -/
  interned : Bool
  result : ResultInfo
  /-- how often `pllua_resetactivation_cb` is registered in the `ExprContext` -/
  callbacks : Nat
  /-- values were written past the end of a thread's stack, and what C does is undefined -/
  overrun : Bool

/-- `ReturnSetInfo.isDone`. -/
inductive ExprDoneCond
  | ExprSingleResult | ExprMultipleResult | ExprEndResult
deriving DecidableEq, Repr

/-- What comes of the validation and of the arguments for a first call. -/
structure Start (B : Type) where
  result : ResultInfo
  /-- what `pllua_push_args` has pushed -/
  nargs : Nat
  /-- the function on its arguments -/
  body : B

/-- What a call gives: `isDone` and the row, none for a null, or an error. -/
abbrev Reply (E D : Type) := Except E (ExprDoneCond × Option D)

variable {V E B D : Type}

/-- The thread has moved on. -/
def Activation.setthread (act : Activation V E B) (thr : Thread V E B) : Activation V E B :=
  { act with thread := some thr }

/-- `pllua_newactivation`. -/
def pllua_newactivation : Activation V E B :=
  ⟨none, false, true, ⟨InvalidOid, false, false⟩, 0, false⟩

section
variable (b : Backend V E B D)

/-- `pllua_return_result`. -/
def pllua_return_result (info : ResultInfo) (vals : List V) : Except E (Option D) :=
  have isnil := match vals with
    | [] => true
    | [v] => b.isnil v
    | _ => false
  if info.rettype = VOIDOID then .ok none
  else if !info.retdomain && isnil && (vals.isEmpty || info.scalar) then .ok none
  else if isnil then (b.check_domain info).map fun _ => none
  else b.construct info vals

/-! ## Threads -/

/-- `lua_resume` without arguments. On a thread that ended, the last value that is
left on its stack is called. -/
def lua_resume : Thread V E B → Outcome V E B
  | .suspended body => b.run body
  | .returned vals =>
    match vals.getLast? with
    | some v => b.run (b.callvalue v)
    | none => .error b.dead_coroutine
  | .failed _ => .error b.dead_coroutine

/-- The thread after the resume. -/
def resumed : Outcome V E B → Thread V E B
  | .yield _ rest => .suspended rest
  | .ret vals => .returned vals
  | .error e => .failed e

/-- `lua_resetthread`: the error, if it gives one. -/
def lua_resetthread : Thread V E B → Option E
  | .suspended body => b.closepending body
  | .returned _ => none
  | .failed e => b.closefailed e

/-- `pllua_resetactivation`. -/
def pllua_resetactivation (act : Activation V E B) : Option E × Activation V E B :=
  if act.interned then
    (act.thread.bind (lua_resetthread b), { act with thread := none, thread_member := false })
  else (none, act)

/-- `pllua_activate_thread`, with the body that is to run on the thread. -/
def pllua_activate_thread (body : B) (act : Activation V E B) : Activation V E B :=
  { act with
    callbacks := act.callbacks + 1, thread := some (.suspended body), thread_member := true }

/-- `lua_xmove` of the function and its arguments to the new thread, whose stack is not checked
for room. -/
def xmove_args (nargs : Nat) (act : Activation V E B) : Activation V E B :=
  { act with overrun := act.overrun || decide (b.newthread_room < nargs + 1) }

/-- `pllua_deactivate_thread`. -/
def pllua_deactivate_thread (act : Activation V E B) : Option E × Activation V E B :=
  pllua_resetactivation b { act with callbacks := 0 }

/-! ## Calls -/

/-- `luaL_checkstack` for `nret` values, where the stack has room for `room`. -/
def checkstack (room nret : Nat) : Bool := decide (nret + 10 ≤ room)

/-- An error that ended the body. -/
def failed_call (e : E) (act : Activation V E B) : Reply E D × Activation V E B :=
  match pllua_deactivate_thread b act with
  | (some e', act) => (.error e', act)
  | (none, act) => (.error e, act)

/-- Values that the body yielded. -/
def yielded (room : Nat) (vals : List V) (act : Activation V E B) :
    Reply E D × Activation V E B :=
  if checkstack room vals.length then
    ((pllua_return_result b act.result vals).map fun d => (.ExprMultipleResult, d), act)
  else (.error b.stack_overflow, act)

/-- `pllua_resume_function`. -/
def pllua_resume_function (room : Nat) (thr : Thread V E B) (act : Activation V E B) :
    Reply E D × Activation V E B :=
  let rc := lua_resume b thr
  let act := act.setthread (resumed rc)
  match rc with
  | .ret _ =>
    -- the values are popped
    match pllua_deactivate_thread b (act.setthread (.returned [])) with
    | (some e, act) => (.error e, act)
    | (none, act) => (.ok (.ExprEndResult, none), act)
  | .yield vals _ => yielded b room vals act
  | .error e => failed_call b e act

/-- `pllua_call_function` for a function that returns a set. `start` is what comes
of the validation and of the arguments: the body, or an error. -/
def pllua_call_function (room : Nat) (start : Except E (Start B)) (act : Activation V E B) :
    Reply E D × Activation V E B :=
  match start with
  | .error e => (.error e, act)
  | .ok ⟨result, nargs, body⟩ =>
    let act := xmove_args b nargs (pllua_activate_thread body { act with result })
    let rc := b.run body
    let act := act.setthread (resumed rc)
    match rc with
    | .ret vals =>
      if checkstack room vals.length then
        match pllua_deactivate_thread b (act.setthread (.returned [])) with
        | (some e, act) => (.error e, act)
        | (none, act) =>
          if vals.isEmpty then (.ok (.ExprEndResult, none), act)
          else
            ((pllua_return_result b act.result vals).map fun d => (.ExprSingleResult, d), act)
      else (.error b.stack_overflow, act)
    | .yield vals _ => yielded b room vals act
    | .error e => failed_call b e act

/-- `pllua_common_call`, for the activation of the call. -/
def pllua_common_call (room : Nat) (start : Except E (Start B)) (act : Activation V E B) :
    Reply E D × Activation V E B :=
  match act.thread with
  | some thr => pllua_resume_function b room thr act
  | none => pllua_call_function b room start act

/-- The callbacks that are called as the context is shut down, for a rescan or at the
end. An error leaves those that were not called yet. -/
def shutdown_callbacks : Nat → Activation V E B → Activation V E B
  | 0, act => act
  | n + 1, act =>
    match pllua_resetactivation b { act with callbacks := n } with
    | (some _, act) => act
    | (none, act) => shutdown_callbacks n act

/-- `ShutdownExprContext`. -/
def ShutdownExprContext (act : Activation V E B) : Activation V E B :=
  shutdown_callbacks b act.callbacks act

/-- What the executor does with the function. -/
inductive Op (E B : Type)
  | call (room : Nat) (start : Except E (Start B))
  | shutdown

def apply (act : Activation V E B) : Op E B → Activation V E B
  | .call room start => (pllua_common_call b room start act).2
  | .shutdown => ShutdownExprContext b act

end

/-! ## The laws -/

/-- Between two calls: a thread is there exactly if the slot of the uservalue and the
callback are, and it waits. -/
structure Ready (act : Activation V E B) : Prop where
  interned : act.interned = true
  member : act.thread_member = act.thread.isSome
  callbacks : act.callbacks = if act.thread.isSome then 1 else 0
  waits : ∀ thr, act.thread = some thr → ∃ body, thr = .suspended body
  sound : act.overrun = false

section
variable (b : Backend V E B D)

/-- What the reply and the thread have to be for what the body did: a row for each
yield, one row for values that are returned before any yield, and no row else. The
thread stays only for a yield. -/
def Replies (info : ResultInfo) (first : Bool) (reply : Reply E D)
    (thread : Option (Thread V E B)) : Outcome V E B → Prop
  | .yield vals rest =>
    (∀ d, pllua_return_result b info vals = .ok d → reply = .ok (.ExprMultipleResult, d)) ∧
    (∀ e, pllua_return_result b info vals = .error e → ∃ e', reply = .error e') ∧
    thread = some (.suspended rest)
  | .ret vals =>
    thread = none ∧
      if first ∧ vals ≠ [] then
        reply = (pllua_return_result b info vals).map fun d => (.ExprSingleResult, d)
      else reply = .ok (.ExprEndResult, none)
  | .error _ => thread = none ∧ ∃ e', reply = .error e'

/-- The protocol at one operation. A waiting thread is resumed, whatever the function
has become; else the call starts the body, on a stack that has room for its arguments. -/
def Protocol (act : Activation V E B) : Op E B → Prop
  | .call room start =>
    let (reply, act') := pllua_common_call b room start act
    match act.thread, start with
    | some thr, _ =>
      (∀ body, thr = .suspended body → Replies b act.result false reply act'.thread (b.run body)) ∧
        ∀ start', pllua_common_call b room start' act = (reply, act')
    | none, .ok start =>
      Replies b start.result true reply act'.thread (b.run start.body) ∧ act'.overrun = false
    | none, .error e => reply = .error e ∧ act'.thread = none
  | .shutdown => (apply b act .shutdown).thread = none

/-- The stack has room for the values of a row, and for those that the body returns in
the first call. -/
def RoomFor (room : Nat) (info : ResultInfo) (first : Bool) : Outcome V E B → Prop
  | .yield vals _ => (∃ d, pllua_return_result b info vals = .ok d) → vals.length + 10 ≤ room
  | .ret vals => first → vals.length + 10 ≤ room
  | .error _ => True

/-- What the body does in a call: the result type, whether it is the first call, and
the outcome. -/
def turn (act : Activation V E B) (start : Except E (Start B)) :
    Option (ResultInfo × Bool × Outcome V E B) :=
  match act.thread, start with
  | some thr, _ => some (act.result, false, lua_resume b thr)
  | none, .ok start => some (start.result, true, b.run start.body)
  | none, .error _ => none

/-- The condition of a step. The stack of a new thread has room for the function and its
arguments too. -/
def Fits (act : Activation V E B) : Op E B → Prop
  | .call room start =>
    (∀ s, act.thread = none → start = .ok s → s.nargs + 1 ≤ b.newthread_room) ∧
      ∀ info first out, turn b act start = some (info, first, out) → RoomFor b room info first out
  | .shutdown => True

variable {b}

theorem ready_newactivation : Ready (pllua_newactivation : Activation V E B) := by
  constructor <;> simp [pllua_newactivation]

/-- The activation after its thread is released. -/
def released (act : Activation V E B) : Activation V E B :=
  { act with callbacks := 0, thread := none, thread_member := false }

theorem ready_released {act : Activation V E B} (hi : act.interned = true)
    (hs : act.overrun = false) : Ready (released act) := by
  constructor <;> simp [released, hi, hs]

theorem deactivate_released {act : Activation V E B} (hi : act.interned = true) :
    (pllua_deactivate_thread b act).2 = released act := by
  simp [released, pllua_deactivate_thread, pllua_resetactivation, hi]

/-- A thread whose body returned is released without an error. -/
theorem deactivate_returned {act : Activation V E B} (hi : act.interned = true)
    {vals : List V} (ht : act.thread = some (.returned vals)) :
    pllua_deactivate_thread b act = (none, released act) := by
  simp [released, pllua_deactivate_thread, pllua_resetactivation, hi, ht, lua_resetthread]

theorem failed_call_released {act : Activation V E B} (hi : act.interned = true) (e : E) :
    (failed_call b e act).2 = released act ∧
    ∃ e', (failed_call b e act).1 = .error e' := by
  have hd := deactivate_released (b := b) hi
  unfold failed_call
  split
  · rename_i e' act' heq
    rw [heq] at hd
    exact ⟨hd, e', rfl⟩
  · rename_i act' heq
    rw [heq] at hd
    exact ⟨hd, e, rfl⟩

theorem shutdown_ready {act : Activation V E B} (h : Ready act) :
    Ready (ShutdownExprContext b act) ∧ (ShutdownExprContext b act).thread = none := by
  obtain ⟨hi, hm, hc, -, hs⟩ := h
  cases ht : act.thread with
  | none =>
    rw [ht] at hc hm
    have hsame : ShutdownExprContext b act = act := by
      simp [ShutdownExprContext, hc, shutdown_callbacks]
    rw [hsame]
    refine ⟨⟨hi, by rw [ht]; exact hm, by rw [ht]; exact hc, ?_, hs⟩, ht⟩
    intro thr hthr
    rw [ht] at hthr
    cases hthr
  | some thr =>
    rw [ht] at hc
    have hreset : ShutdownExprContext b act = released act := by
      simp only [ShutdownExprContext, hc, Option.isSome_some, if_true, shutdown_callbacks,
        pllua_resetactivation, hi]
      split
      · rename_i heq
        have hact := congrArg Prod.snd heq
        simpa [released, hi] using hact.symm
      · rename_i heq
        have hact := congrArg Prod.snd heq
        simpa [released, hi] using hact.symm
    rw [hreset]
    exact ⟨ready_released hi hs, rfl⟩

/-- A yield keeps the thread, and gives its row if the row fits. -/
theorem yielded_replies (act : Activation V E B) {room : Nat} {vals : List V} {rest : B}
    {first : Bool} (ht : act.thread = some (.suspended rest)) :
    Replies b act.result first (yielded b room vals act).1 (yielded b room vals act).2.thread
        (.yield vals rest) ↔
      RoomFor b room act.result first (.yield vals rest) := by
  by_cases hroom : vals.length + 10 ≤ room
  · have hy : yielded b room vals act =
        ((pllua_return_result b act.result vals).map fun d => (.ExprMultipleResult, d), act) := by
      simp [yielded, checkstack, hroom]
    refine ⟨fun _ _ => hroom, fun _ => ?_⟩
    rw [hy]
    refine ⟨?_, ?_, ht⟩
    · intro d hd
      rw [hd]
      rfl
    · intro e he
      exact ⟨e, by rw [he]; rfl⟩
  · have hy : yielded b room vals act = (.error b.stack_overflow, act) := by
      simp [yielded, checkstack, hroom]
    rw [hy]
    constructor
    · rintro ⟨hok, -, -⟩ ⟨d, hd⟩
      cases hok d hd
    · intro h
      refine ⟨?_, fun _ _ => ⟨_, rfl⟩, ht⟩
      intro d hd
      exact absurd (h ⟨d, hd⟩) hroom

@[simp] theorem yielded_snd (act : Activation V E B) (room : Nat) (vals : List V) :
    (yielded b room vals act).2 = act := by
  unfold yielded
  split
  · rfl
  · rfl

theorem yielded_ready {act : Activation V E B} {room : Nat} {vals : List V} (h : Ready act) :
    Ready (yielded b room vals act).2 := by
  rw [yielded_snd]
  exact h

/-- An error of the body, and what is left. -/
theorem failed_replies {act : Activation V E B} (hi : act.interned = true) (info : ResultInfo)
    (first : Bool) (e : E) :
    Replies b info first (failed_call b e act).1 (failed_call b e act).2.thread (.error e) ∧
      (failed_call b e act).2 = released act := by
  obtain ⟨hact, hreply⟩ := failed_call_released (b := b) hi e
  rw [hact]
  exact ⟨⟨rfl, hreply⟩, rfl⟩

/-- A waiting thread is resumed. -/
theorem resume_spec {act : Activation V E B} (h : Ready act) {body : B}
    (ht : act.thread = some (.suspended body)) (room : Nat) :
    (Replies b act.result false (pllua_resume_function b room (.suspended body) act).1
        (pllua_resume_function b room (.suspended body) act).2.thread (b.run body) ↔
      RoomFor b room act.result false (b.run body)) ∧
    Ready (pllua_resume_function b room (.suspended body) act).2 := by
  obtain ⟨hi, hm, hc, -, hs⟩ := h
  rw [ht] at hm hc
  unfold pllua_resume_function lua_resume
  simp only
  cases hout : b.run body with
  | ret vals =>
    have hd : pllua_deactivate_thread b (act.setthread (resumed (.ret vals)) |>.setthread
        (.returned [])) = (none, released act) := deactivate_returned hi rfl
    simp only [hd]
    exact ⟨⟨fun _ hfirst => absurd hfirst Bool.false_ne_true, fun _ => ⟨rfl, by simp⟩⟩,
      ready_released hi hs⟩
  | yield vals rest =>
    simp only [resumed]
    constructor
    · exact yielded_replies (act.setthread (.suspended rest)) rfl
    · apply yielded_ready
      exact ⟨hi, hm, hc, fun thr hthr => ⟨rest, (Option.some.inj hthr).symm⟩, hs⟩
  | error e =>
    have hi' : (act.setthread (.failed e)).interned = true := hi
    obtain ⟨hrep, hact⟩ := failed_replies (b := b) hi' act.result false e
    refine ⟨⟨fun _ => trivial, fun _ => hrep⟩, ?_⟩
    simp only [resumed, hact]
    exact ready_released hi' hs

/-- The activation of a first call, as the body is to run. -/
theorem activated {act : Activation V E B} (h : Ready act) (ht : act.thread = none)
    (start : Start B) :
    ∃ act0, xmove_args b start.nargs
        (pllua_activate_thread start.body { act with result := start.result }) = act0 ∧
      act0.interned = true ∧ act0.callbacks = 1 ∧ act0.thread_member = true ∧
      act0.result = start.result ∧
      (act0.overrun = false ↔ start.nargs + 1 ≤ b.newthread_room) := by
  refine ⟨_, rfl, h.interned, ?_, rfl, rfl, ?_⟩
  · simp [xmove_args, pllua_activate_thread, h.callbacks, ht]
  · simp [xmove_args, pllua_activate_thread, h.sound]

/-- The first call, with the body that it starts. -/
theorem start_spec {act : Activation V E B} (h : Ready act) (ht : act.thread = none)
    (room : Nat) (start : Start B) :
    (Replies b start.result true (pllua_call_function b room (.ok start) act).1
        (pllua_call_function b room (.ok start) act).2.thread (b.run start.body) ↔
      RoomFor b room start.result true (b.run start.body)) ∧
    ((pllua_call_function b room (.ok start) act).2.overrun = false ↔
      start.nargs + 1 ≤ b.newthread_room) ∧
    (RoomFor b room start.result true (b.run start.body) →
      (pllua_call_function b room (.ok start) act).2.overrun = false →
        Ready (pllua_call_function b room (.ok start) act).2) := by
  generalize hcall : pllua_call_function b room (.ok start) act = r
  obtain ⟨reply, act'⟩ := r
  obtain ⟨act0, hact0, hi, hc, hm, hr, hs⟩ := activated (b := b) h ht start
  unfold pllua_call_function at hcall
  simp only [hact0] at hcall
  cases hout : b.run start.body with
  | ret vals =>
    simp only [hout, resumed] at hcall
    by_cases hroom : vals.length + 10 ≤ room
    · have hd : pllua_deactivate_thread b (act0.setthread (.returned vals) |>.setthread
          (.returned [])) = (none, released act0) := deactivate_returned hi rfl
      rw [if_pos (by simpa [checkstack] using hroom), hd] at hcall
      have hact : act' = released act0 := by
        cases vals <;> exact (congrArg Prod.snd hcall).symm
      subst hact
      refine ⟨⟨fun _ _ => hroom, fun _ => ?_⟩, hs, fun _ => ready_released hi⟩
      cases vals with
      | nil => exact ⟨rfl, by simpa using (congrArg Prod.fst hcall).symm⟩
      | cons v vals => exact ⟨rfl, by simpa [released, hr] using (congrArg Prod.fst hcall).symm⟩
    · rw [if_neg (by simpa [checkstack] using hroom)] at hcall
      cases hcall
      refine ⟨⟨?_, fun hfit => absurd (hfit rfl) hroom⟩, hs, fun hfit => absurd (hfit rfl) hroom⟩
      rintro ⟨hnone, -⟩
      cases hnone
  | yield vals rest =>
    simp only [hout, resumed] at hcall
    have hact : (yielded b room vals (act0.setthread (.suspended rest))).2 = act' := by rw [hcall]
    rw [yielded_snd] at hact
    have hreplies : Replies b act0.result true
        (yielded b room vals (act0.setthread (.suspended rest))).1
        (yielded b room vals (act0.setthread (.suspended rest))).2.thread (.yield vals rest) ↔
          RoomFor b room act0.result true (.yield vals rest) :=
      yielded_replies (act0.setthread (.suspended rest)) rfl
    rw [hcall, hr] at hreplies
    subst hact
    exact ⟨hreplies, hs, fun _ hs' =>
      ⟨hi, hm, hc, fun thr hthr => ⟨rest, (Option.some.inj hthr).symm⟩, hs'⟩⟩
  | error e =>
    simp only [hout, resumed] at hcall
    have hi' : (act0.setthread (.failed e)).interned = true := hi
    obtain ⟨hrep, hact⟩ := failed_replies (b := b) hi' start.result true e
    rw [hcall] at hrep hact
    cases hact
    exact ⟨⟨fun _ => trivial, fun _ => hrep⟩, hs, fun _ => ready_released hi'⟩

/-- At an operation the protocol is kept exactly if the values fit. -/
theorem protocol_iff {act : Activation V E B} (h : Ready act) (op : Op E B) :
    Protocol b act op ↔ Fits b act op := by
  cases op with
  | shutdown => exact ⟨fun _ => trivial, fun _ => (shutdown_ready h).2⟩
  | call room start =>
    cases ht : act.thread with
    | some thr =>
      obtain ⟨body, rfl⟩ := h.waits thr ht
      have hcall : ∀ start', pllua_common_call b room start' act =
          pllua_resume_function b room (.suspended body) act := by
        intro start'
        simp [pllua_common_call, ht]
      have hspec := (resume_spec (b := b) h ht room).1
      constructor
      · intro hp
        refine ⟨fun start' hnone => ?_, ?_⟩
        · rw [ht] at hnone
          cases hnone
        intro info first out hturn
        simp only [Protocol, ht, hcall] at hp
        simp only [turn, ht, Option.some.injEq, Prod.mk.injEq] at hturn
        obtain ⟨rfl, rfl, rfl⟩ := hturn
        exact hspec.mp (hp.1 body rfl)
      · intro hfit
        have hroom := hfit.2 act.result false (b.run body) (by simp [turn, ht, lua_resume])
        simp only [Protocol, ht, hcall]
        refine ⟨?_, fun _ => trivial⟩
        intro body' hbody
        cases hbody
        exact hspec.mpr hroom
    | none =>
      cases start with
      | error e =>
        have hcall : pllua_common_call b room (.error e) act = (.error e, act) := by
          simp [pllua_common_call, pllua_call_function, ht]
        simp [Protocol, Fits, turn, ht, hcall]
      | ok start =>
        have hcall : pllua_common_call b room (.ok start) act =
            pllua_call_function b room (.ok start) act := by
          simp [pllua_common_call, ht]
        obtain ⟨hreplies, hs, -⟩ := start_spec (b := b) h ht room start
        simp only [Protocol, ht, hcall]
        rw [hreplies, hs, and_comm]
        simp [Fits, turn, ht]

/-- Where the values fit, the activation is ready for the next operation. -/
theorem step_ready {act : Activation V E B} (h : Ready act) {op : Op E B} (hfit : Fits b act op) :
    Ready (apply b act op) := by
  cases op with
  | shutdown => exact (shutdown_ready h).1
  | call room start =>
    unfold apply pllua_common_call
    cases ht : act.thread with
    | some thr =>
      obtain ⟨body, rfl⟩ := h.waits thr ht
      exact (resume_spec h ht room).2
    | none =>
      cases start with
      | error e => exact h
      | ok start =>
        obtain ⟨-, hs, hready⟩ := start_spec h ht room start
        exact hready (hfit.2 start.result true _ (by simp [turn, ht])) (hs.mpr (hfit.1 start ht rfl))

end

/-! ## The rows between two starts -/

section
variable (b : Backend V E B D)

/-- The values of the first yields of a body. -/
def yields : Nat → B → List (List V)
  | 0, _ => []
  | n + 1, body =>
    match b.run body with
    | .yield vals rest => vals :: yields n rest
    | _ => []

/-- The rows that the body gives in so many calls: one for each yield, in order, or the
values that it returns before any yield. A row that cannot be made is an error instead. -/
def delivered (info : ResultInfo) (n : Nat) (body : B) : List (Option D) :=
  match b.run body with
  | .ret vals => if vals = [] then [] else (pllua_return_result b info vals).toOption.toList
  | _ => (yields b n body).filterMap fun vals => (pllua_return_result b info vals).toOption

/-- The replies to the calls. -/
def replies : Activation V E B → List (Nat × Except E (Start B)) → List (Reply E D)
  | _, [] => []
  | act, (room, start) :: calls =>
    (pllua_common_call b room start act).1 ::
      replies (pllua_common_call b room start act).2 calls

/-- The row of a reply. -/
def row : Reply E D → Option (Option D)
  | .ok (.ExprEndResult, _) => none
  | .ok (_, d) => some d
  | .error _ => none

/-- Each of the calls meets the condition, and resumes a thread. -/
def Resumes : Activation V E B → List (Nat × Except E (Start B)) → Prop
  | _, [] => True
  | act, (room, start) :: calls =>
    act.thread.isSome ∧ Fits b act (.call room start) ∧
      Resumes (pllua_common_call b room start act).2 calls

variable {b}

theorem yields_ret {n : Nat} {body : B} {vals : List V} (h : b.run body = .ret vals) :
    yields b n body = [] := by
  cases n with
  | zero => rfl
  | succ n => simp [yields, h]

theorem yields_error {n : Nat} {body : B} {e : E} (h : b.run body = .error e) :
    yields b n body = [] := by
  cases n with
  | zero => rfl
  | succ n => simp [yields, h]

/-- With no thread there are no more calls that resume one. -/
theorem resumes_released {act : Activation V E B} (ht : act.thread = none)
    {calls : List (Nat × Except E (Start B))} (h : Resumes b act calls) : calls = [] := by
  cases calls with
  | nil => rfl
  | cons call calls =>
    obtain ⟨hsome, -⟩ := h
    rw [ht] at hsome
    cases hsome

/-- The row of a yield. -/
theorem row_of_yield {info : ResultInfo} {first : Bool} {reply : Reply E D}
    {thread : Option (Thread V E B)} {vals : List V} {rest : B}
    (h : Replies b info first reply thread (.yield vals rest)) :
    row reply = (pllua_return_result b info vals).toOption := by
  obtain ⟨hok, herr, -⟩ := h
  cases hd : pllua_return_result b info vals with
  | ok d =>
    rw [hok d hd]
    rfl
  | error e =>
    obtain ⟨e', he'⟩ := herr e hd
    rw [he']
    rfl

/-- The rows of the calls that resume a thread. -/
theorem rows_of_resumes {calls : List (Nat × Except E (Start B))} {act : Activation V E B}
    (h : Ready act) {body : B} (ht : act.thread = some (.suspended body))
    (hc : Resumes b act calls) :
    (replies b act calls).filterMap row = (yields b calls.length body).filterMap fun vals =>
      (pllua_return_result b act.result vals).toOption := by
  induction calls generalizing act body with
  | nil => rfl
  | cons call calls ih =>
    obtain ⟨room, start⟩ := call
    obtain ⟨-, hfit, hrest⟩ := hc
    have hcall : pllua_common_call b room start act =
        pllua_resume_function b room (.suspended body) act := by
      simp [pllua_common_call, ht]
    have hroom := hfit.2 act.result false (b.run body) (by simp [turn, ht, lua_resume])
    have hrep := (resume_spec (b := b) h ht room).1.mpr hroom
    have hready := (resume_spec (b := b) h ht room).2
    rw [replies, hcall]
    rw [hcall] at hrest
    cases hout : b.run body with
    | ret vals =>
      rw [hout] at hrep
      obtain ⟨hnone, hreply⟩ := hrep
      rw [resumes_released hnone hrest, yields_ret hout]
      rw [if_neg (by simp)] at hreply
      rw [hreply]
      rfl
    | yield vals rest =>
      rw [hout] at hrep
      have hrow := row_of_yield hrep
      have hact : (pllua_resume_function b room (.suspended body) act).2 =
          act.setthread (.suspended rest) := by
        simp [pllua_resume_function, lua_resume, hout, resumed]
      rw [hact] at hrest hready ⊢
      have htail := ih hready rfl hrest
      rw [List.length_cons, yields, hout]
      cases hd : pllua_return_result b act.result vals with
      | ok d =>
        rw [hd] at hrow
        rw [List.filterMap_cons_some hrow, htail, List.filterMap_cons_some (by rw [hd]; rfl)]
        rfl
      | error e =>
        rw [hd] at hrow
        rw [List.filterMap_cons_none hrow, htail, List.filterMap_cons_none (by rw [hd]; rfl)]
        rfl
    | error e =>
      rw [hout] at hrep
      obtain ⟨hnone, e', hreply⟩ := hrep
      rw [resumes_released hnone hrest, yields_error hout, hreply]
      rfl

/-- The rows of a call that starts the body, and of those that resume it. -/
theorem rows_of_start {act : Activation V E B} (h : Ready act) (ht : act.thread = none)
    {room : Nat} {start : Start B} {calls : List (Nat × Except E (Start B))}
    (hfit : Fits b act (.call room (.ok start)))
    (hc : Resumes b (pllua_common_call b room (.ok start) act).2 calls) :
    (replies b act ((room, .ok start) :: calls)).filterMap row =
      delivered b start.result (calls.length + 1) start.body := by
  have hcall : pllua_common_call b room (.ok start) act =
      pllua_call_function b room (.ok start) act := by
    simp [pllua_common_call, ht]
  have hroom := hfit.2 start.result true (b.run start.body) (by simp [turn, ht])
  obtain ⟨hreplies, hs, hready⟩ := start_spec (b := b) h ht room start
  have hrep := hreplies.mpr hroom
  have hready := hready hroom (hs.mpr (hfit.1 start ht rfl))
  rw [replies, hcall]
  rw [hcall] at hc
  unfold delivered
  cases hout : b.run start.body with
  | ret vals =>
    rw [hout] at hrep
    obtain ⟨hnone, hreply⟩ := hrep
    rw [resumes_released hnone hc]
    by_cases hvals : vals = []
    · rw [if_neg (by simp [hvals])] at hreply
      rw [hreply]
      simp [hvals, replies, row]
    · rw [if_pos ⟨rfl, hvals⟩] at hreply
      rw [hreply]
      cases hd : pllua_return_result b start.result vals with
      | ok d => simp [hd, hvals, replies, row, Except.map, Except.toOption]
      | error e => simp [hd, hvals, replies, row, Except.map, Except.toOption]
  | yield vals rest =>
    rw [hout] at hrep
    have hrow := row_of_yield hrep
    have hact : ∃ act', (pllua_call_function b room (.ok start) act).2 = act' ∧
        act'.thread = some (.suspended rest) ∧ act'.result = start.result := by
      refine ⟨_, rfl, hrep.2.2, ?_⟩
      simp [pllua_call_function, hout, Activation.setthread, xmove_args, pllua_activate_thread]
    obtain ⟨act', hact, ht', hinfo⟩ := hact
    rw [hact] at hc hready ⊢
    have htail := rows_of_resumes hready ht' hc
    rw [hinfo] at htail
    rw [yields, hout]
    cases hd : pllua_return_result b start.result vals with
    | ok d =>
      rw [hd] at hrow
      rw [List.filterMap_cons_some hrow, htail, List.filterMap_cons_some (by rw [hd]; rfl)]
    | error e =>
      rw [hd] at hrow
      rw [List.filterMap_cons_none hrow, htail, List.filterMap_cons_none (by rw [hd]; rfl)]
  | error e =>
    rw [hout] at hrep
    obtain ⟨hnone, e', hreply⟩ := hrep
    rw [resumes_released hnone hc, yields_error hout, hreply]
    rfl

theorem null_row (info : ResultInfo) {d : Option D}
    (h : pllua_return_result b info [] = .ok d) : d = none := by
  unfold pllua_return_result at h
  simp only [List.isEmpty_nil, Bool.true_or, Bool.and_true] at h
  split at h
  · cases h
    rfl
  split at h
  · cases h
    rfl
  · cases hdom : b.check_domain info with
    | ok u =>
      rw [hdom] at h
      cases h
      rfl
    | error e =>
      rw [hdom] at h
      cases h

/-- While the values that the body gives fit on the stack, every operation keeps the
protocol, and the calls from a start on give the rows of the body. Values that do not
fit break it. -/
theorem an_srf_keeps_the_protocol_while_its_values_fit (b : Backend V E B D) :
    (∀ ops : List (Op E B), Each (apply b) (Fits b) pllua_newactivation ops →
      Each (apply b) (Protocol b) pllua_newactivation ops ∧
        Ready (run (apply b) pllua_newactivation ops)) ∧
    (∀ act : Activation V E B, Ready act → ∀ op, Protocol b act op ↔ Fits b act op) ∧
    (∀ act : Activation V E B, Ready act → act.thread = none →
      ∀ room start calls, Fits b act (.call room (.ok start)) →
        Resumes b (pllua_common_call b room (.ok start) act).2 calls →
        (replies b act ((room, .ok start) :: calls)).filterMap row =
          delivered b start.result (calls.length + 1) start.body) ∧
    ∀ info d, pllua_return_result b info [] = .ok d → d = none := by
  refine ⟨?_, fun act h op => protocol_iff h op, ?_, fun info d h => null_row info h⟩
  · intro ops h
    have hstep : ∀ (act : Activation V E B) op, Ready act → Fits b act op →
        Ready (apply b act op) := fun _ _ hact hfit => step_ready hact hfit
    constructor
    · exact each_of_invariant hstep (fun _ op hact hfit => (protocol_iff hact op).mpr hfit)
        ready_newactivation h
    · exact run_invariant hstep ready_newactivation h
  · intro act h ht room start calls hfit hc
    exact rows_of_start h ht hfit hc

end

/-! ## Bodies that yield and return numbers -/

/-- A body: what it yields, one value after another, and what it returns. -/
structure Numbers where
  rows : List Nat
  result : List Nat

/-- Bodies of numbers, and rows of one number. -/
def numbers : Backend Nat String Numbers Nat where
  run body :=
    match body.rows with
    | [] => .ret body.result
    | n :: rows => .yield [n] ⟨rows, body.result⟩
  callvalue _ := ⟨[], []⟩
  closepending _ := none
  closefailed _ := none
  isnil _ := false
  construct _ vals :=
    match vals with
    | [n] => .ok (some n)
    | _ => .error "incorrect number of arguments for type constructor"
  check_domain _ := .ok ()
  stack_overflow := "stack overflow"
  dead_coroutine := "cannot resume dead coroutine"
  newthread_room := 44

def int4 : ResultInfo := ⟨23, false, true⟩

/-- A body that yields 1 and 2 and returns 7 gives two rows. -/
theorem two_yields_are_two_rows :
    (replies numbers pllua_newactivation
      [(100, .ok ⟨int4, 3, [1, 2], [7]⟩), (100, .error ""), (100, .error "")]).filterMap row =
      [some 1, some 2] := by
  refine (an_srf_keeps_the_protocol_while_its_values_fit numbers).2.2.1 pllua_newactivation
    ready_newactivation rfl 100 ⟨int4, 3, [1, 2], [7]⟩ [(100, .error ""), (100, .error "")]
    ⟨?_, ?_⟩ ⟨rfl, ⟨fun _ _ h => (nomatch h), ?_⟩, rfl, ⟨fun _ _ h => (nomatch h), ?_⟩, trivial⟩
  · rintro start - hstart
    cases hstart
    decide
  · intro info first out h
    have hturn : some (int4, true, .yield [1] ⟨[2], [7]⟩) = some (info, first, out) := h
    cases hturn
    intro _
    decide
  · intro info first out h
    have hturn : some (int4, false, .yield [2] ⟨[], [7]⟩) = some (info, first, out) := h
    cases hturn
    intro _
    decide
  · intro info first out h
    have hturn : some (int4, false, .ret [7]) = some (info, first, out) := h
    cases hturn
    intro hfirst
    cases hfirst

/-- A body that returns at once, with more values than the stack of the caller has room
for, leaves its thread behind. -/
theorem values_that_do_not_fit_leave_the_thread :
    ¬ Protocol numbers pllua_newactivation
      (.call 999960 (.ok ⟨int4, 0, [], List.replicate 999955 0⟩)) := by
  rw [protocol_iff ready_newactivation]
  rintro ⟨-, h⟩
  have hroom := h int4 true (.ret (List.replicate 999955 0)) rfl rfl
  rw [List.length_replicate] at hroom
  omega

-- nor has a new thread room for 45 arguments
example : ¬ Protocol numbers pllua_newactivation (.call 100 (.ok ⟨int4, 45, [1], []⟩)) := by
  rw [protocol_iff ready_newactivation]
  rintro ⟨h, -⟩
  have hroom : 45 + 1 ≤ 44 := h _ rfl rfl
  omega

end pllua.srf
