-- The table of interpreters (init.c). A Lua state is created in phase 1, possibly long
-- before it is needed, and belongs to the entry of a user from phase 2 on.
import Mathlib.Logic.Function.Basic
import Pllua.Runs

open pllua.runs

namespace pllua.init

/-! ## States and entries -/

abbrev Oid := Nat

def InvalidOid : Oid := 0

/-- A Lua state, numbered in the order of creation. -/
abbrev StateId := Nat

inductive InitStrings
  | waiting | running | finished | failed
deriving DecidableEq, Repr

/-- What is known of a Lua state. -/
structure LuaState where
  /-- `_PL_IDENT` -/
  ident : Option String
  /-- `_PL_IDENT_NEW` -/
  ident_new : Option String
  /-- the string that `on_init` was when phase 1 ran it -/
  on_init : Option String
  /-- the user id that `pllua_init_state_phase2` has set up -/
  setup : Option Oid
  strings : InitStrings
  /-- how often `lua_close` was called -/
  closes : Nat
deriving DecidableEq, Repr

/-- `pllua_interpreter_hashent`. -/
structure HashEnt where
  interp : Option StateId
  trusted : Bool
  new_ident : Bool
deriving DecidableEq, Repr

/-- A call of `pllua_getstate` that has not returned: the init strings of its state run,
or `lua_close` does, after they have failed. -/
structure Call where
  user_id : Oid
  interp : StateId
  closing : Bool
deriving DecidableEq, Repr

/-- How an operation ends. -/
inductive Outcome
  | returned (interp : StateId)
  /-- the init strings of the user's new state begin to run -/
  | building (user_id : Oid) (interp : StateId)
  /-- the initialisation for the user has failed -/
  | failed (user_id : Oid) (interp : StateId)
  | raised
  | done
deriving DecidableEq, Repr

/-- The variables of init.c in one process, the states, and the calls under way. -/
structure World where
  IsUnderPostmaster : Bool
  num_held_interpreters : Nat
  on_init : Option String
  reload_ident : Option String
  interp_hash : Oid → Option HashEnt
  held_states : List StateId
  states : StateId → LuaState
  next : StateId
  /-- innermost first -/
  calls : List Call
  outcome : Outcome

/-! ## Phase 1 -/

/-- The Lua library. -/
structure LuaLibrary where
  LUA_VERSION_NUM : Nat
  /-- the result of `lua_setcstacklimit` for a limit that is too large -/
  setcstacklimit : Nat
  lua_ident : List Char

def VER545_STR : List Char := "$LuaVersion: Lua 5.4.5 ".toList

/-- The two tests of phase 1. -/
def LuaLibrary.unacceptable (lib : LuaLibrary) : Bool :=
  lib.LUA_VERSION_NUM = 504 && (lib.setcstacklimit = 0 || VER545_STR.isPrefixOf lib.lua_ident)

/-- What may go wrong in phase 1. -/
inductive Phase1
  /-- PostgreSQL or Lua has no memory for the state -/
  | no_memory
  /-- `pllua_init_state_phase1` fails: a module, or the `on_init` string -/
  | lua_error
  | ok
deriving DecidableEq, Repr

section
variable (lib : LuaLibrary)

/-- `lua_close`. -/
def lua_close (i : StateId) (w : World) : World :=
  { w with
    states := Function.update w.states i { w.states i with closes := (w.states i).closes + 1 } }

/-- `lua_newstate`. -/
def lua_newstate (ident : Option String) (w : World) : World :=
  { w with
    states := Function.update w.states w.next ⟨ident, none, w.on_init, none, .waiting, 0⟩
    next := w.next + 1 }

/-- `pllua_newstate_phase1`: an error, or an interpreter or NULL. -/
def pllua_newstate_phase1 (luck : Phase1) (ident : Option String) (w : World) :
    Except Unit (Option StateId) × World :=
  if luck = .no_memory then (.error (), w)
  else
    let i := w.next
    let w := lua_newstate ident w
    -- the error leaves the state behind
    if lib.unacceptable then (.error (), w)
    else if luck = .lua_error then (.ok none, lua_close i w)
    else (.ok (some i), w)

/-! ## Held states -/

/-- The loop of `pllua_create_held_states`. It is false if an error leaves it. The error of `lcons`
when there is no memory for the list, after a state was made, is left out. -/
def create_held_states (ident : Option String) : List Phase1 → Nat → World → Bool × World
  | _, 0, w => (true, w)
  | lucks, n + 1, w =>
    match pllua_newstate_phase1 lib (lucks.headD .ok) ident w with
    | (.error _, w) => (false, w)
    | (.ok none, w) => (true, w)
    | (.ok (some i), w) =>
      create_held_states ident lucks.tail n { w with held_states := i :: w.held_states }

/-- `pllua_create_held_states`. -/
def pllua_create_held_states (lucks : List Phase1) (ident : Option String) (w : World) :
    Bool × World :=
  create_held_states lib ident lucks w.num_held_interpreters w

/-- `pllua_destroy_held_states`. -/
def pllua_destroy_held_states (w : World) : World :=
  w.held_states.foldl (fun w i => lua_close i w) { w with held_states := [] }

/-- Whether a string is set and not empty. -/
def nonempty : Option String → Bool
  | some s => s ≠ ""
  | none => false

/-- `pllua_assign_on_init`, and the assignment after it. -/
def pllua_assign_on_init (newval : Option String) (lucks : List Phase1) (w : World) : World :=
  if newval = w.on_init then { w with outcome := .done }
  else if nonempty w.reload_ident || w.IsUnderPostmaster then
    let w := pllua_destroy_held_states w
    if w.IsUnderPostmaster then { w with on_init := newval, outcome := .done }
    else
      let (ok, w) := pllua_create_held_states lib lucks w.reload_ident { w with on_init := newval }
      { w with outcome := if ok then .done else .raised }
  else { w with on_init := newval, outcome := .done }

/-- `pllua_assign_reload_ident`, and the assignment after it. -/
def pllua_assign_reload_ident (newval : Option String) (lucks : List Phase1) (w : World) : World :=
  if newval = w.reload_ident then { w with outcome := .done }
  else if nonempty newval then
    let w := pllua_destroy_held_states w
    if w.IsUnderPostmaster then
      { w with
        interp_hash := fun u => (w.interp_hash u).map fun e => { e with new_ident := true }
        reload_ident := newval
        outcome := .done }
    else
      let (ok, w) := pllua_create_held_states lib lucks newval w
      if ok then { w with reload_ident := newval, outcome := .done }
      else { w with outcome := .raised }
  else { w with reload_ident := newval, outcome := .done }

/-! ## Phase 2 -/

def set_interp (user_id : Oid) (interp : Option StateId) (w : World) : World :=
  { w with
    interp_hash := Function.update w.interp_hash user_id
      ((w.interp_hash user_id).map fun e => { e with interp }) }

/-- The catch block of `pllua_newstate_phase2`, up to the finalizers that `lua_close` calls. -/
def initialisation_failed (user_id : Oid) (i : StateId) (w : World) : World :=
  let w := lua_close i (set_interp user_id none w)
  { w with calls := ⟨user_id, i, true⟩ :: w.calls, outcome := .failed user_id i }

/-- `pllua_newstate_phase2` up to the init strings. -/
def pllua_newstate_phase2 (setup_fails : Bool) (user_id : Oid) (i : StateId) (w : World) : World :=
  if setup_fails then initialisation_failed user_id i w
  else
    let w := set_interp user_id (some i) w
    { w with
      states := Function.update w.states i
        { w.states i with setup := some user_id, strings := .running }
      calls := ⟨user_id, i, false⟩ :: w.calls
      outcome := .building user_id i }

/-- What may go wrong in `pllua_getstate`. -/
structure Luck where
  /-- `pllua_set_new_ident` has no memory -/
  set_new_ident : Bool
  phase1 : Phase1
  /-- the language is not found, or `pllua_init_state_phase2` fails -/
  setup : Bool

/-- `pllua_set_new_ident`. -/
def pllua_set_new_ident (user_id : Oid) (e : HashEnt) (i : StateId) (w : World) : World :=
  { w with
    states := Function.update w.states i { w.states i with ident_new := w.reload_ident }
    interp_hash := Function.update w.interp_hash user_id (some { e with new_ident := false }) }

/-- `hash_search` with `HASH_ENTER`, and the entry it makes. -/
def hash_enter (trusted : Bool) (user_id : Oid) (w : World) : World :=
  match w.interp_hash user_id with
  | some _ => w
  | none =>
    { w with interp_hash := Function.update w.interp_hash user_id (some ⟨none, trusted, false⟩) }

/-- The rest of `pllua_getstate` when the entry has no interpreter. -/
def build (luck : Luck) (user_id : Oid) (w : World) : World :=
  match w.held_states with
  | i :: rest => pllua_newstate_phase2 luck.setup user_id i { w with held_states := rest }
  | [] =>
    match pllua_newstate_phase1 lib luck.phase1 w.reload_ident w with
    | (.ok (some i), w) => pllua_newstate_phase2 luck.setup user_id i w
    | (_, w) => { w with outcome := .raised }

/-- The key of an entry. -/
def key (trusted : Bool) (GetUserId : Oid) : Oid := if trusted then GetUserId else InvalidOid

/-- `pllua_getstate`, up to the init strings of a new state. -/
def pllua_getstate (trusted : Bool) (GetUserId : Oid) (luck : Luck) (w : World) : World :=
  let user_id := key trusted GetUserId
  match w.interp_hash user_id with
  | some ⟨some i, trusted', new_ident⟩ =>
    if new_ident then
      if luck.set_new_ident then { w with outcome := .raised }
      else
        { pllua_set_new_ident user_id ⟨some i, trusted', new_ident⟩ i w with outcome := .returned i }
    else { w with outcome := .returned i }
  | _ => build lib luck user_id (hash_enter trusted user_id w)

/-- The init strings of the innermost call end. -/
def pllua_run_init_strings (ok : Bool) (w : World) : World :=
  match w.calls with
  | ⟨user_id, i, false⟩ :: calls =>
    let strings := if ok then .finished else .failed
    let w := { w with
      states := Function.update w.states i { w.states i with strings }
      calls := calls }
    if ok then { w with outcome := .returned i } else initialisation_failed user_id i w
  | _ => { w with outcome := .done }

/-- `lua_close` of the innermost call ends, and the error goes on. -/
def finish_close (w : World) : World :=
  match w.calls with
  | ⟨_, _, true⟩ :: calls => { w with calls, outcome := .raised }
  | _ => { w with outcome := .done }

/-! ## Runs -/

inductive Action
  /-- a call of a function or a DO block. It may be nested in the init strings or the
  finalizers of the innermost call. -/
  | getstate (trusted : Bool) (GetUserId : Oid) (luck : Luck)
  | strings_end (ok : Bool)
  | close_end
  | assign_on_init (newval : Option String) (lucks : List Phase1)
  | assign_reload_ident (newval : Option String) (lucks : List Phase1)
  /-- the postmaster starts this process -/
  | fork

def step (w : World) : Action → World
  | .getstate trusted GetUserId luck => pllua_getstate lib trusted GetUserId luck w
  | .strings_end ok => pllua_run_init_strings ok w
  | .close_end => finish_close w
  | .assign_on_init newval lucks => pllua_assign_on_init lib newval lucks w
  | .assign_reload_ident newval lucks => pllua_assign_reload_ident lib newval lucks w
  | .fork => { w with IsUnderPostmaster := true, outcome := .done }

/-- `_PG_init`. -/
def _PG_init (IsUnderPostmaster : Bool) (num_held_interpreters : Nat)
    (on_init reload_ident : Option String) (lucks : List Phase1) : World :=
  let w : World :=
    { IsUnderPostmaster, num_held_interpreters, on_init, reload_ident
      interp_hash := fun _ => none
      held_states := []
      states := fun _ => ⟨none, none, none, none, .waiting, 0⟩
      next := 0
      calls := []
      outcome := .done }
  if IsUnderPostmaster then w else (pllua_create_held_states lib lucks reload_ident w).2

end

/-! ## The law -/

/-- The entry of the user has the state. -/
def Owned (w : World) (user_id : Oid) (i : StateId) : Prop :=
  ∃ e, w.interp_hash user_id = some e ∧ e.interp = some i

/-- The user has no interpreter. -/
def Idle (w : World) (user_id : Oid) : Prop := ∀ i, ¬ Owned w user_id i

/-- The state waits in the list, once. -/
structure Held (w : World) (i : StateId) : Prop where
  held : w.held_states.count i = 1
  free : ∀ u, ¬ Owned w u i
  unclosed : (w.states i).closes = 0

/-- The state belongs to one entry. -/
structure Entered (w : World) (i : StateId) : Prop where
  unheld : w.held_states.count i = 0
  owner : ∃ u, Owned w u i ∧ ∀ v, Owned w v i → v = u
  unclosed : (w.states i).closes = 0

/-- The state is closed, once. -/
structure Closed (w : World) (i : StateId) : Prop where
  unheld : w.held_states.count i = 0
  free : ∀ u, ¬ Owned w u i
  closed : (w.states i).closes = 1

/-- The three exclude each other. -/
def Accounted (w : World) (i : StateId) : Prop := Held w i ∨ Entered w i ∨ Closed w i

structure Sound (w : World) : Prop where
  /-- an entry denotes an open state that was set up for its user -/
  live : ∀ u i, Owned w u i →
    i < w.next ∧ (w.states i).closes = 0 ∧ (w.states i).setup = some u ∧
      (w.states i).strings ≠ .failed
  accounted : ∀ i < w.next, Accounted w i

/-- The user of a call. -/
def Action.user : Action → Option Oid
  | .getstate trusted GetUserId _ => some (key trusted GetUserId)
  | _ => none

/-- What an operation does about users without an interpreter: a failed initialisation
leaves its user without one, nobody else gives one to the user, and the next call for
the user builds one from a state that was held or is made for it. -/
structure Renewed (lib : LuaLibrary) (w : World) (a : Action) : Prop where
  failed : ∀ u i, (step lib w a).outcome = .failed u i →
    Idle (step lib w a) u ∧ Closed (step lib w a) i
  kept : ∀ u, Idle w u → a.user ≠ some u → Idle (step lib w a) u
  rebuilt : ∀ u, Idle w u → a.user = some u →
    (step lib w a).outcome = .raised ∨
      ∃ i, ((step lib w a).outcome = .building u i ∨ (step lib w a).outcome = .failed u i) ∧
        (i ∈ w.held_states ∨ i = w.next)

structure Lawful (lib : LuaLibrary) (w : World) (a : Action) : Prop where
  sound : Sound (step lib w a)
  renewed : Renewed lib w a

/-! ## The invariant -/

/-- The invariant, while at most one state is neither held nor owned nor closed. -/
structure Inv (limbo : Option StateId) (w : World) : Prop where
  live : ∀ u i, Owned w u i →
    i < w.next ∧ (w.states i).closes = 0 ∧ (w.states i).setup = some u ∧
      (w.states i).strings ≠ .failed
  accounted : ∀ i < w.next, limbo ≠ some i → Accounted w i
  in_limbo : ∀ i, limbo = some i →
    i < w.next ∧ w.held_states.count i = 0 ∧ (∀ u, ¬ Owned w u i) ∧ (w.states i).closes = 0
  held : ∀ i ∈ w.held_states, i < w.next
  /-- the init strings of a call run for the entry of its user -/
  calls : ∀ c ∈ w.calls, c.closing = false → Owned w c.user_id c.interp
  users : (w.calls.filter fun c => !c.closing).Pairwise fun c d => c.user_id ≠ d.user_id

theorem Inv.sound {w : World} (h : Inv none w) : Sound w :=
  ⟨h.live, fun i hi => h.accounted i hi (by simp)⟩

theorem Accounted.congr {w w' : World} {i : StateId} (h : Accounted w i)
    (hheld : w'.held_states.count i = w.held_states.count i)
    (howned : ∀ u, Owned w' u i ↔ Owned w u i)
    (hcloses : (w'.states i).closes = (w.states i).closes) : Accounted w' i := by
  rcases h with ⟨h1, h2, h3⟩ | ⟨h1, ⟨u, h2, h3⟩, h4⟩ | ⟨h1, h2, h3⟩
  · exact Or.inl ⟨hheld.trans h1, fun u hu => h2 u ((howned u).mp hu), hcloses.trans h3⟩
  · refine Or.inr (Or.inl ⟨hheld.trans h1, ⟨u, (howned u).mpr h2, ?_⟩, hcloses.trans h4⟩)
    exact fun v hv => h3 v ((howned v).mp hv)
  · exact Or.inr (Or.inr ⟨hheld.trans h1, fun u hu => h2 u ((howned u).mp hu), hcloses.trans h3⟩)

/-- A state with an owner is not held, and has no second owner. -/
theorem Inv.entered {limbo : Option StateId} {w : World} (h : Inv limbo w) {u : Oid} {i : StateId}
    (hi : Owned w u i) : Entered w i := by
  have hlimbo : limbo ≠ some i := fun hl => (h.in_limbo i hl).2.2.1 u hi
  rcases h.accounted i (h.live u i hi).1 hlimbo with hheld | hent | hclosed
  · exact absurd hi (hheld.free u)
  · exact hent
  · exact absurd hi (hclosed.free u)

theorem Inv.owner_unique {limbo : Option StateId} {w : World} (h : Inv limbo w) {u v : Oid}
    {i : StateId} (hu : Owned w u i) (hv : Owned w v i) : u = v := by
  obtain ⟨x, -, hx⟩ := (h.entered hu).owner
  rw [hx u hu, hx v hv]

theorem Owned.interp_unique {w : World} {u : Oid} {i j : StateId} (hi : Owned w u i)
    (hj : Owned w u j) : i = j := by
  obtain ⟨e, he, hei⟩ := hi
  obtain ⟨e', he', hej⟩ := hj
  rw [he] at he'
  cases he'
  rw [hei] at hej
  exact Option.some.inj hej

/-- What the law reads: the rest of a world is free to change. -/
theorem Inv.same {limbo : Option StateId} {w w' : World} (h : Inv limbo w)
    (howned : ∀ u i, Owned w' u i ↔ Owned w u i) (hheld : w'.held_states = w.held_states)
    (hnext : w'.next = w.next) (hcalls : w'.calls = w.calls)
    (hstates : ∀ i, (w'.states i).closes = (w.states i).closes ∧
      (w'.states i).setup = (w.states i).setup ∧ (w'.states i).strings = (w.states i).strings) :
    Inv limbo w' where
  live u i hi := by
    obtain ⟨h1, h2, h3⟩ := hstates i
    rw [hnext, h1, h2, h3]
    exact h.live u i ((howned u i).mp hi)
  accounted i hi hl := by
    rw [hnext] at hi
    exact (h.accounted i hi hl).congr (by rw [hheld]) (howned · i) (hstates i).1
  in_limbo i hl := by
    obtain ⟨h1, h2, h3, h4⟩ := h.in_limbo i hl
    rw [hnext, hheld, (hstates i).1]
    exact ⟨h1, h2, fun u hu => h3 u ((howned u i).mp hu), h4⟩
  held i hi := by
    rw [hheld] at hi
    rw [hnext]
    exact h.held i hi
  calls c hc hcl := by
    rw [hcalls] at hc
    exact (howned _ _).mpr (h.calls c hc hcl)
  users := by
    rw [hcalls]
    exact h.users

/-! ## Entries -/

theorem owned_set_interp_ne {w : World} {u v : Oid} (x : Option StateId) (h : v ≠ u) (i : StateId) :
    Owned (set_interp u x w) v i ↔ Owned w v i := by
  unfold Owned set_interp
  simp only [Function.update_of_ne h]

theorem not_owned_set_none (w : World) (u : Oid) (i : StateId) :
    ¬ Owned (set_interp u none w) u i := by
  rintro ⟨e, he, hi⟩
  simp only [set_interp, Function.update_self, Option.map_eq_some_iff] at he
  obtain ⟨e', -, rfl⟩ := he
  cases hi

theorem owned_set_some {w : World} {u : Oid} (h : (w.interp_hash u).isSome) (i j : StateId) :
    Owned (set_interp u (some j) w) u i ↔ i = j := by
  obtain ⟨e, he⟩ := Option.isSome_iff_exists.mp h
  unfold Owned set_interp
  simp only [Function.update_self, he, Option.map_some, Option.some.injEq, exists_eq_left']
  exact eq_comm

theorem owned_hash_enter (w : World) (trusted : Bool) (u v : Oid) (i : StateId) :
    Owned (hash_enter trusted u w) v i ↔ Owned w v i := by
  unfold hash_enter
  split
  · exact Iff.rfl
  · rename_i hu
    unfold Owned
    by_cases hv : v = u
    · subst hv
      simp [hu]
    · simp only [Function.update_of_ne hv]

theorem hash_enter_isSome (w : World) (trusted : Bool) (u : Oid) :
    ((hash_enter trusted u w).interp_hash u).isSome := by
  unfold hash_enter
  split
  · rename_i e he
    rw [he]
    rfl
  · simp

theorem hash_enter_rest (w : World) (trusted : Bool) (u : Oid) :
    (hash_enter trusted u w).held_states = w.held_states ∧
      (hash_enter trusted u w).next = w.next ∧ (hash_enter trusted u w).calls = w.calls ∧
      (hash_enter trusted u w).states = w.states := by
  unfold hash_enter
  split
  · exact ⟨rfl, rfl, rfl, rfl⟩
  · exact ⟨rfl, rfl, rfl, rfl⟩

theorem Inv.hash_enter {limbo : Option StateId} {w : World} (h : Inv limbo w) (trusted : Bool)
    (u : Oid) : Inv limbo (hash_enter trusted u w) := by
  obtain ⟨h1, h2, h3, h4⟩ := hash_enter_rest w trusted u
  apply h.same (fun v i => owned_hash_enter w trusted u v i) h1 h2 h3
  intro i
  rw [h4]
  exact ⟨rfl, rfl, rfl⟩

/-! ## Phase 1 -/

theorem Inv.take {w : World} {i : StateId} {rest : List StateId} (h : Inv none w)
    (hw : w.held_states = i :: rest) : Inv (some i) { w with held_states := rest } where
  live := h.live
  accounted j hj hl := by
    have hne : i ≠ j := fun hij => hl (congrArg some hij)
    have hold : Accounted w j := h.accounted j hj (by simp)
    have hcount : rest.count j = w.held_states.count j := by
      rw [hw, List.count_cons_of_ne hne]
    exact hold.congr hcount (fun _ => Iff.rfl) rfl
  in_limbo j hj := by
    cases hj
    have hi : i < w.next := h.held i (by rw [hw]; exact List.mem_cons_self)
    rcases h.accounted i hi (by simp) with ⟨h1, h2, h3⟩ | ⟨h1, -, -⟩ | ⟨h1, -, -⟩
    · rw [hw, List.count_cons_self] at h1
      exact ⟨hi, by simpa using h1, h2, h3⟩
    · rw [hw, List.count_cons_self] at h1
      omega
    · rw [hw, List.count_cons_self] at h1
      omega
  held j hj := h.held j (by rw [hw]; exact List.mem_cons_of_mem i hj)
  calls := h.calls
  users := h.users

/-- No list and no entry has a state that does not exist yet. -/
theorem Inv.fresh {w : World} (h : Inv none w) :
    w.held_states.count w.next = 0 ∧ ∀ u, ¬ Owned w u w.next := by
  constructor
  · apply List.count_eq_zero.mpr
    intro hm
    exact Nat.lt_irrefl _ (h.held _ hm)
  · intro u hu
    exact Nat.lt_irrefl _ (h.live u _ hu).1

theorem Inv.newstate {w : World} (h : Inv none w) (ident : Option String) :
    Inv (some w.next) (lua_newstate ident w) := by
  have hold : ∀ i, i < w.next → (lua_newstate ident w).states i = w.states i :=
    fun i hi => Function.update_of_ne (Nat.ne_of_lt hi) _ _
  obtain ⟨hcount, hfree⟩ := h.fresh
  constructor
  case live =>
    intro u i hi
    obtain ⟨h1, h2⟩ := h.live u i hi
    rw [hold i h1]
    exact ⟨Nat.lt_succ_of_lt h1, h2⟩
  case accounted =>
    intro i hi hl
    have hlt : i < w.next := by
      have hne : i ≠ w.next := fun he => hl (congrArg some he.symm)
      exact Nat.lt_of_le_of_ne (Nat.le_of_lt_succ hi) hne
    have hacc : Accounted w i := h.accounted i hlt (by simp)
    have hcloses : ((lua_newstate ident w).states i).closes = (w.states i).closes := by
      rw [hold i hlt]
    exact hacc.congr rfl (fun _ => Iff.rfl) hcloses
  case in_limbo =>
    intro i hi
    cases hi
    refine ⟨Nat.lt_succ_self _, hcount, hfree, ?_⟩
    simp [lua_newstate]
  case held => exact fun i hi => Nat.lt_succ_of_lt (h.held i hi)
  case calls => exact h.calls
  case users => exact h.users

/-- The state in limbo is closed. -/
theorem Inv.close {w : World} {i : StateId} (h : Inv (some i) w) : Inv none (lua_close i w) := by
  obtain ⟨hi, hcount, hfree, hopen⟩ := h.in_limbo i rfl
  have hold : ∀ j, j ≠ i → (lua_close i w).states j = w.states j :=
    fun j hj => Function.update_of_ne hj _ _
  constructor
  case live =>
    intro u j hj
    have hne : j ≠ i := fun he => hfree u (he ▸ hj)
    rw [hold j hne]
    exact h.live u j hj
  case accounted =>
    intro j hj _
    by_cases hne : j = i
    · subst hne
      refine Or.inr (Or.inr ⟨hcount, hfree, ?_⟩)
      simp [lua_close, hopen]
    · have hl : some i ≠ some j := fun he => hne (Option.some.inj he).symm
      have hacc : Accounted w j := h.accounted j hj hl
      have hcloses : ((lua_close i w).states j).closes = (w.states j).closes := by
        rw [hold j hne]
      exact hacc.congr rfl (fun _ => Iff.rfl) hcloses
  case in_limbo => exact fun j hj => absurd hj (by simp)
  case held => exact h.held
  case calls => exact h.calls
  case users => exact h.users

/-- The state in limbo joins the list. -/
theorem Inv.hold {w : World} {i : StateId} (h : Inv (some i) w) :
    Inv none { w with held_states := i :: w.held_states } := by
  obtain ⟨hi, hcount, hfree, hopen⟩ := h.in_limbo i rfl
  constructor
  case live => exact h.live
  case accounted =>
    intro j hj _
    by_cases hne : i = j
    · subst hne
      exact Or.inl ⟨by rw [List.count_cons_self, hcount], hfree, hopen⟩
    · have hl : some i ≠ some j := fun he => hne (Option.some.inj he)
      have hold : Accounted w j := h.accounted j hj hl
      have hsame : (i :: w.held_states).count j = w.held_states.count j :=
        List.count_cons_of_ne hne
      exact hold.congr hsame (fun _ => Iff.rfl) rfl
  case in_limbo => exact fun j hj => absurd hj (by simp)
  case held =>
    intro j hj
    rcases List.mem_cons.mp hj with rfl | hj
    · exact hi
    · exact h.held j hj
  case calls => exact h.calls
  case users => exact h.users

section
variable {lib : LuaLibrary}

/-- What phase 1 gives, if the library is accepted. -/
theorem Inv.phase1 {w : World} (h : Inv none w) (hlib : lib.unacceptable = false) (luck : Phase1)
    (ident : Option String) :
    match pllua_newstate_phase1 lib luck ident w with
    | (.ok (some i), w') => i = w.next ∧ Inv (some i) w' ∧ w'.interp_hash = w.interp_hash
    | (_, w') => Inv none w' ∧ w'.interp_hash = w.interp_hash := by
  have hnew := h.newstate ident
  cases luck with
  | no_memory => exact ⟨h, rfl⟩
  | lua_error =>
    simp only [pllua_newstate_phase1, hlib]
    exact ⟨hnew.close, rfl⟩
  | ok =>
    simp only [pllua_newstate_phase1, hlib]
    exact ⟨rfl, hnew, rfl⟩

/-! ## Held states -/

theorem Inv.create_held {w : World} (h : Inv none w) (hlib : lib.unacceptable = false)
    (lucks : List Phase1) (n : Nat) (ident : Option String) :
    Inv none (create_held_states lib ident lucks n w).2 ∧
      (create_held_states lib ident lucks n w).2.interp_hash = w.interp_hash := by
  induction n generalizing lucks w with
  | zero => exact ⟨h, rfl⟩
  | succ n ih =>
    have h1 := h.phase1 hlib (lucks.headD .ok) ident
    unfold create_held_states
    split at h1
    · rename_i i w' heq
      obtain ⟨-, hinv, hhash⟩ := h1
      rw [heq]
      obtain ⟨h2, h3⟩ := ih hinv.hold lucks.tail
      exact ⟨h2, h3.trans hhash⟩
    · rename_i r w' hne heq
      rw [heq]
      cases r with
      | error e => exact h1
      | ok o =>
        cases o with
        | none => exact h1
        | some i => exact (hne i rfl).elim

theorem Inv.destroy {w : World} (h : Inv none w) : Inv none (pllua_destroy_held_states w) := by
  have hloop : ∀ (l : List StateId) (w : World), Inv none w → w.held_states = l →
      Inv none (l.foldl (fun w i => lua_close i w) { w with held_states := [] }) := by
    intro l
    induction l with
    | nil =>
      intro w h hw
      have hsame : ({ w with held_states := [] } : World) = w := by rw [← hw]
      rw [List.foldl_nil, hsame]
      exact h
    | cons i rest ih =>
      intro w h hw
      exact ih _ (h.take hw).close rfl
  exact hloop w.held_states w h rfl

theorem destroy_rest (w : World) :
    (pllua_destroy_held_states w).interp_hash = w.interp_hash ∧
      (pllua_destroy_held_states w).IsUnderPostmaster = w.IsUnderPostmaster := by
  have hloop : ∀ (l : List StateId) (w : World),
      (l.foldl (fun w i => lua_close i w) w).interp_hash = w.interp_hash ∧
        (l.foldl (fun w i => lua_close i w) w).IsUnderPostmaster = w.IsUnderPostmaster := by
    intro l
    induction l with
    | nil => exact fun w => ⟨rfl, rfl⟩
    | cons i rest ih => exact fun w => ih (lua_close i w)
  exact hloop w.held_states { w with held_states := [] }

/-- A variable that the law does not read. -/
theorem Inv.setting {limbo : Option StateId} {w : World} (h : Inv limbo w)
    (IsUnderPostmaster : Bool) (on_init reload_ident : Option String) (outcome : Outcome) :
    Inv limbo { w with IsUnderPostmaster, on_init, reload_ident, outcome } :=
  h.same (fun _ _ => Iff.rfl) rfl rfl rfl fun _ => ⟨rfl, rfl, rfl⟩

theorem Inv.assign_on_init {w : World} (h : Inv none w) (hlib : lib.unacceptable = false)
    (newval : Option String) (lucks : List Phase1) :
    Inv none (pllua_assign_on_init lib newval lucks w) ∧
      (pllua_assign_on_init lib newval lucks w).interp_hash = w.interp_hash := by
  unfold pllua_assign_on_init
  obtain ⟨hhash, -⟩ := destroy_rest w
  split
  · exact ⟨h.setting _ _ _ _, rfl⟩
  · split
    · simp only
      split
      · exact ⟨h.destroy.setting _ _ _ _, hhash⟩
      · obtain ⟨h1, h2⟩ := (h.destroy.setting (pllua_destroy_held_states w).IsUnderPostmaster newval
          (pllua_destroy_held_states w).reload_ident
          (pllua_destroy_held_states w).outcome).create_held hlib lucks
          (pllua_destroy_held_states w).num_held_interpreters
          (pllua_destroy_held_states w).reload_ident
        exact ⟨h1.setting _ _ _ _, h2.trans hhash⟩
    · exact ⟨h.setting _ _ _ _, rfl⟩

/-- Only flags change in the entries. -/
theorem Inv.assign_reload_ident {w : World} (h : Inv none w) (hlib : lib.unacceptable = false)
    (newval : Option String) (lucks : List Phase1) :
    Inv none (pllua_assign_reload_ident lib newval lucks w) ∧
      ∀ u i, Owned (pllua_assign_reload_ident lib newval lucks w) u i ↔ Owned w u i := by
  unfold pllua_assign_reload_ident
  obtain ⟨hhash, -⟩ := destroy_rest w
  have howned : ∀ w' : World, w'.interp_hash = w.interp_hash → ∀ u i, Owned w' u i ↔ Owned w u i := by
    intro w' hw' u i
    unfold Owned
    rw [hw']
  split
  · exact ⟨h.setting _ _ _ _, fun _ _ => Iff.rfl⟩
  · split
    · simp only
      split
      · have hflags : ∀ u i, Owned { pllua_destroy_held_states w with
              interp_hash := fun u => ((pllua_destroy_held_states w).interp_hash u).map fun e =>
                { e with new_ident := true }
              reload_ident := newval
              outcome := .done } u i ↔ Owned w u i := by
          intro u i
          unfold Owned
          simp only [hhash, Option.map_eq_some_iff]
          constructor
          · rintro ⟨e, ⟨e', he', rfl⟩, hi⟩
            exact ⟨e', he', hi⟩
          · rintro ⟨e, he, hi⟩
            exact ⟨_, ⟨e, he, rfl⟩, hi⟩
        refine ⟨?_, hflags⟩
        refine h.destroy.same ?_ rfl rfl rfl fun _ => ⟨rfl, rfl, rfl⟩
        exact fun u i => (hflags u i).trans (howned _ hhash u i).symm
      · obtain ⟨h1, h2⟩ := h.destroy.create_held hlib lucks
          (pllua_destroy_held_states w).num_held_interpreters newval
        unfold pllua_create_held_states
        split
        · exact ⟨h1.setting _ _ _ _, howned _ (h2.trans hhash)⟩
        · exact ⟨h1.setting _ _ _ _, howned _ (h2.trans hhash)⟩
    · exact ⟨h.setting _ _ _ _, fun _ _ => Iff.rfl⟩

/-! ## Phase 2 -/

theorem Inv.call {limbo : Option StateId} {w : World} (h : Inv limbo w) (u : Oid) (i : StateId)
    (outcome : Outcome) : Inv limbo { w with calls := ⟨u, i, true⟩ :: w.calls, outcome } where
  live := h.live
  accounted j hj hl := by
    have hacc : Accounted w j := h.accounted j hj hl
    exact hacc.congr rfl (fun _ => Iff.rfl) rfl
  in_limbo := h.in_limbo
  held := h.held
  calls c hc hcl := by
    rcases List.mem_cons.mp hc with rfl | hc
    · cases hcl
    · exact h.calls c hc hcl
  users := h.users

/-- The user whose entry is about to change has no call with running init strings. -/
def Unattended (w : World) (u : Oid) : Prop := ∀ c ∈ w.calls, c.closing = false → c.user_id ≠ u

theorem Inv.unattended {limbo : Option StateId} {w : World} (h : Inv limbo w) {u : Oid}
    (hu : Idle w u) : Unattended w u := by
  intro c hc hcl heq
  have hown := h.calls c hc hcl
  rw [heq] at hown
  exact hu _ hown

/-- The entry of a user loses its state, which is in limbo then. -/
theorem Inv.disown {w : World} {u : Oid} {i : StateId} (h : Inv none w) (hi : Owned w u i)
    (hun : Unattended w u) : Inv (some i) (set_interp u none w) := by
  obtain ⟨hlt, hopen, -⟩ := h.live u i hi
  have howned : ∀ v j, j ≠ i → (Owned (set_interp u none w) v j ↔ Owned w v j) := by
    intro v j hj
    by_cases hv : v = u
    · subst hv
      constructor
      · exact fun ho => absurd ho (not_owned_set_none w v j)
      · exact fun ho => absurd (ho.interp_unique hi) hj
    · exact owned_set_interp_ne none hv j
  constructor
  case live =>
    intro v j hj
    by_cases hji : j = i
    · subst hji
      have hv : v ≠ u := fun hv => not_owned_set_none w u j (hv ▸ hj)
      exact absurd (h.owner_unique ((owned_set_interp_ne none hv j).mp hj) hi) hv
    · exact h.live v j ((howned v j hji).mp hj)
  case accounted =>
    intro j hj hl
    have hji : j ≠ i := fun he => hl (congrArg some he.symm)
    have hacc : Accounted w j := h.accounted j hj (by simp)
    exact hacc.congr rfl (fun v => howned v j hji) rfl
  case in_limbo =>
    intro j hj
    cases hj
    refine ⟨hlt, (h.entered hi).unheld, ?_, hopen⟩
    intro v hv
    by_cases hvu : v = u
    · exact not_owned_set_none w u i (hvu ▸ hv)
    · exact hvu (h.owner_unique ((owned_set_interp_ne none hvu i).mp hv) hi)
  case held => exact h.held
  case calls =>
    intro c hc hcl
    exact (owned_set_interp_ne none (hun c hc hcl) c.interp).mpr (h.calls c hc hcl)
  case users => exact h.users

/-- The state in limbo is set up, and the entry of an idle user gets it. -/
theorem Inv.own {w : World} {u : Oid} {i : StateId} (h : Inv (some i) w)
    (hent : (w.interp_hash u).isSome) (hu : Idle w u) (outcome : Outcome) :
    Inv none { set_interp u (some i) w with
      states := Function.update w.states i
        { w.states i with setup := some u, strings := .running }
      calls := ⟨u, i, false⟩ :: w.calls
      outcome } := by
  obtain ⟨hlt, hcount, hfree, hopen⟩ := h.in_limbo i rfl
  have hself : ∀ j, Owned (set_interp u (some i) w) u j ↔ j = i := fun j => owned_set_some hent j i
  have hother : ∀ v j, v ≠ u → (Owned (set_interp u (some i) w) v j ↔ Owned w v j) :=
    fun v j hv => owned_set_interp_ne (some i) hv j
  have hold : ∀ j, j ≠ i → Function.update w.states i
      { w.states i with setup := some u, strings := .running } j = w.states j :=
    fun j hj => Function.update_of_ne hj _ _
  constructor
  case live =>
    intro v j hj
    have hj' : Owned (set_interp u (some i) w) v j := hj
    by_cases hv : v = u
    · subst hv
      obtain rfl := (hself j).mp hj'
      simp [set_interp, hlt, hopen]
    · have hw := (hother v j hv).mp hj'
      have hji : j ≠ i := fun he => hfree v (he ▸ hw)
      simp only [hold j hji]
      exact h.live v j hw
  case accounted =>
    intro j hj _
    by_cases hji : j = i
    · subst hji
      refine Or.inr (Or.inl ⟨hcount, ⟨u, (hself j).mpr rfl, ?_⟩, ?_⟩)
      · intro v hv
        by_contra hvu
        exact hfree v ((hother v j hvu).mp hv)
      · simpa using hopen
    · have hacc : Accounted w j := h.accounted j hj fun he => hji (Option.some.inj he).symm
      refine hacc.congr rfl ?_ ?_
      · intro v
        by_cases hv : v = u
        · subst hv
          exact ⟨fun ho => absurd ((hself j).mp ho) hji, fun ho => absurd ho (hu j)⟩
        · exact hother v j hv
      · simp only [hold j hji]
  case in_limbo => exact fun j hj => absurd hj (by simp)
  case held => exact h.held
  case calls =>
    intro c hc hcl
    rcases List.mem_cons.mp hc with rfl | hc
    · exact (hself i).mpr rfl
    · have hne := h.unattended hu c hc hcl
      exact (hother c.user_id c.interp hne).mpr (h.calls c hc hcl)
  case users =>
    have hun := h.unattended hu
    refine List.pairwise_cons.mpr ⟨?_, h.users⟩
    intro c hc
    obtain ⟨hmem, hcl⟩ := List.mem_filter.mp hc
    exact fun he => hun c hmem (by simpa using hcl) he.symm

/-- A failed initialisation leaves its user without an interpreter and its state closed. -/
structure Failed (w : World) (u : Oid) (i : StateId) : Prop where
  inv : Inv none w
  idle : Idle w u
  closed : Closed w i
  outcome : w.outcome = .failed u i

theorem Inv.failed {w : World} {u : Oid} {i : StateId} (h : Inv (some i) (set_interp u none w)) :
    Failed (initialisation_failed u i w) u i := by
  obtain ⟨-, hcount, hfree, hopen⟩ := h.in_limbo i rfl
  refine ⟨h.close.call u i (.failed u i), not_owned_set_none w u, ⟨hcount, hfree, ?_⟩, rfl⟩
  have hcloses : (((set_interp u none w).states i).closes) = 0 := hopen
  simpa [initialisation_failed, lua_close] using hcloses

/-- An initialisation fails for a user without an interpreter. -/
theorem Inv.setup_failed {w : World} {u : Oid} {i : StateId} (h : Inv (some i) w)
    (hu : Idle w u) : Failed (initialisation_failed u i w) u i := by
  have howned : ∀ v j, Owned (set_interp u none w) v j ↔ Owned w v j := by
    intro v j
    by_cases hv : v = u
    · subst hv
      exact ⟨fun ho => absurd ho (not_owned_set_none w v j), fun ho => absurd ho (hu j)⟩
    · exact owned_set_interp_ne none hv j
  have hdis : Inv (some i) (set_interp u none w) :=
    h.same howned rfl rfl rfl fun _ => ⟨rfl, rfl, rfl⟩
  exact hdis.failed

theorem Inv.phase2 {w : World} {u : Oid} {i : StateId} (h : Inv (some i) w)
    (hent : (w.interp_hash u).isSome) (hu : Idle w u) (setup_fails : Bool) :
    Inv none (pllua_newstate_phase2 setup_fails u i w) ∧
      ((pllua_newstate_phase2 setup_fails u i w).outcome = .building u i ∨
        Failed (pllua_newstate_phase2 setup_fails u i w) u i) := by
  unfold pllua_newstate_phase2
  split
  · have hf := h.setup_failed hu
    exact ⟨hf.inv, Or.inr hf⟩
  · exact ⟨h.own hent hu (.building u i), Or.inl rfl⟩

/-- The entries after phase 2. -/
theorem phase2_owned {w : World} {u v : Oid} {i j : StateId} (setup_fails : Bool) (hv : v ≠ u) :
    Owned (pllua_newstate_phase2 setup_fails u i w) v j ↔ Owned w v j := by
  unfold pllua_newstate_phase2
  split
  · exact owned_set_interp_ne none hv j
  · exact owned_set_interp_ne (some i) hv j

/-! ## Calls -/

/-- A new interpreter is built for a user without one. -/
theorem Inv.built {w : World} {u : Oid} (h : Inv none w) (hlib : lib.unacceptable = false)
    (luck : Luck) (hent : (w.interp_hash u).isSome) (hu : Idle w u) :
    Inv none (build lib luck u w) ∧
      (∀ v j, v ≠ u → (Owned (build lib luck u w) v j ↔ Owned w v j)) ∧
      ((build lib luck u w).outcome = .raised ∨
        ∃ i, ((build lib luck u w).outcome = .building u i ∨ Failed (build lib luck u w) u i) ∧
          (i ∈ w.held_states ∨ i = w.next)) := by
  unfold build
  cases hheld : w.held_states with
  | cons i rest =>
    obtain ⟨hinv, hout⟩ := (h.take hheld).phase2 hent hu luck.setup
    refine ⟨hinv, ?_, Or.inr ⟨i, hout, Or.inl List.mem_cons_self⟩⟩
    exact fun v j hv => phase2_owned luck.setup hv
  | nil =>
    have h1 := h.phase1 hlib luck.phase1 w.reload_ident
    split at h1
    · rename_i i w' _
      obtain ⟨rfl, hinv, hhash⟩ := h1
      have hown : ∀ v j, Owned w' v j ↔ Owned w v j := by
        intro v j
        unfold Owned
        rw [hhash]
      have hu' : Idle w' u := fun j hj => hu j ((hown u j).mp hj)
      simp only
      obtain ⟨hinv', hout⟩ := hinv.phase2 (by rw [hhash]; exact hent) hu' luck.setup
      refine ⟨hinv', ?_, Or.inr ⟨w.next, hout, Or.inr rfl⟩⟩
      exact fun v j hv => (phase2_owned luck.setup hv).trans (hown v j)
    · rename_i r w' _ _
      obtain ⟨hinv, hhash⟩ := h1
      have hown : ∀ v j, Owned w' v j ↔ Owned w v j := by
        intro v j
        unfold Owned
        rw [hhash]
      simp only
      exact ⟨hinv.setting _ _ _ _, fun v j _ => hown v j, Or.inl trivial⟩

/-- The entry of the user decides what `pllua_getstate` does. -/
theorem getstate_idle {w : World} {trusted : Bool} {GetUserId : Oid} (luck : Luck)
    (hu : Idle w (key trusted GetUserId)) :
    pllua_getstate lib trusted GetUserId luck w =
      build lib luck (key trusted GetUserId) (hash_enter trusted (key trusted GetUserId) w) := by
  unfold pllua_getstate
  simp only
  split
  · rename_i i trusted' new_ident he
    exact absurd ⟨_, he, rfl⟩ (hu i)
  · rfl

theorem getstate_owned {w : World} {trusted : Bool} {GetUserId : Oid} {i : StateId} (luck : Luck)
    (h : Inv none w) (hi : Owned w (key trusted GetUserId) i) :
    Inv none (pllua_getstate lib trusted GetUserId luck w) ∧
      (∀ v j, Owned (pllua_getstate lib trusted GetUserId luck w) v j ↔ Owned w v j) ∧
      ∀ u j, (pllua_getstate lib trusted GetUserId luck w).outcome ≠ .failed u j := by
  obtain ⟨⟨interp, trusted', new_ident⟩, he, hint⟩ := hi
  cases hint
  unfold pllua_getstate
  simp only [he]
  split
  · split
    · exact ⟨h.setting _ _ _ _, fun _ _ => Iff.rfl, fun _ _ => nofun⟩
    · have howned : ∀ v j, Owned (pllua_set_new_ident (key trusted GetUserId)
          ⟨some i, trusted', new_ident⟩ i w) v j ↔ Owned w v j := by
        intro v j
        unfold Owned pllua_set_new_ident
        by_cases hv : v = key trusted GetUserId
        · subst hv
          simp [he]
        · simp only [Function.update_of_ne hv]
      have hsame : Inv none (pllua_set_new_ident (key trusted GetUserId)
          ⟨some i, trusted', new_ident⟩ i w) := by
        refine h.same howned rfl rfl rfl ?_
        intro j
        by_cases hj : j = i
        · subst hj
          simp [pllua_set_new_ident]
        · simp [pllua_set_new_ident, Function.update_of_ne hj]
      exact ⟨hsame.setting _ _ _ _, howned, fun _ _ => nofun⟩
  · exact ⟨h.setting _ _ _ _, fun _ _ => Iff.rfl, fun _ _ => nofun⟩

/-- The innermost call ends. -/
theorem Inv.pop {limbo : Option StateId} {w : World} {c : Call} {calls : List Call}
    (h : Inv limbo w) (hw : w.calls = c :: calls) (outcome : Outcome) :
    Inv limbo { w with calls, outcome } where
  live := h.live
  accounted j hj hl := by
    have hacc : Accounted w j := h.accounted j hj hl
    exact hacc.congr rfl (fun _ => Iff.rfl) rfl
  in_limbo := h.in_limbo
  held := h.held
  calls d hd := h.calls d (by rw [hw]; exact List.mem_cons_of_mem c hd)
  users := by
    have hp := h.users
    rw [hw, List.filter_cons] at hp
    split at hp
    · exact (List.pairwise_cons.mp hp).2
    · exact hp

/-- Init strings end. Where they have failed, their state has no owner. -/
theorem Inv.set_strings {limbo : Option StateId} {w : World} (h : Inv limbo w) (i : StateId)
    (strings : InitStrings) (hs : strings = .failed → ∀ u, ¬ Owned w u i) :
    Inv limbo { w with
      states := Function.update w.states i { w.states i with strings } } := by
  have hold : ∀ j, j ≠ i →
      Function.update w.states i { w.states i with strings } j = w.states j :=
    fun j hj => Function.update_of_ne hj _ _
  have hcloses : ∀ j, (Function.update w.states i { w.states i with strings } j).closes =
      (w.states j).closes := by
    intro j
    by_cases hj : j = i
    · subst hj
      simp
    · rw [hold j hj]
  constructor
  case live =>
    intro u j hj
    obtain ⟨h1, h2, h3, h4⟩ := h.live u j hj
    by_cases hji : j = i
    · subst hji
      have hne : strings ≠ .failed := fun he => hs he u hj
      simpa [h1, h2, h3] using hne
    · simp only [hold j hji]
      exact ⟨h1, h2, h3, h4⟩
  case accounted =>
    intro j hj hl
    have hacc : Accounted w j := h.accounted j hj hl
    exact hacc.congr rfl (fun _ => Iff.rfl) (hcloses j)
  case in_limbo =>
    intro j hj
    obtain ⟨h1, h2, h3, h4⟩ := h.in_limbo j hj
    exact ⟨h1, h2, h3, (hcloses j).trans h4⟩
  case held => exact h.held
  case calls => exact h.calls
  case users => exact h.users

/-- The init strings of the innermost call have failed. -/
theorem Inv.strings_failed {w : World} {u : Oid} {i : StateId} {calls : List Call} (h : Inv none w)
    (hw : w.calls = ⟨u, i, false⟩ :: calls) :
    Failed (initialisation_failed u i { w with
      states := Function.update w.states i { w.states i with strings := .failed }
      calls := calls }) u i := by
  have hown : Owned w u i := h.calls ⟨u, i, false⟩ (by rw [hw]; exact List.mem_cons_self) rfl
  have hun : Unattended { w with calls := calls } u := by
    intro c hc hcl
    have hp := h.users
    rw [hw, List.filter_cons_of_pos (by rfl)] at hp
    have hmem : c ∈ calls.filter fun c => !c.closing :=
      List.mem_filter.mpr ⟨hc, by simp [hcl]⟩
    exact ((List.pairwise_cons.mp hp).1 c hmem).symm
  have hpop : Inv none { w with calls := calls } := h.pop hw w.outcome
  have hdis : Inv (some i) (set_interp u none { w with calls := calls }) := hpop.disown hown hun
  have hfree := (hdis.in_limbo i rfl).2.2.1
  exact Inv.failed (hdis.set_strings i .failed fun _ => hfree)

/-- The entries lose a state at most. -/
theorem Inv.run_init_strings {w : World} (h : Inv none w) (ok : Bool) :
    Inv none (pllua_run_init_strings ok w) ∧
      (∀ v j, Owned (pllua_run_init_strings ok w) v j → Owned w v j) ∧
      ∀ u i, (pllua_run_init_strings ok w).outcome = .failed u i →
        Failed (pllua_run_init_strings ok w) u i := by
  unfold pllua_run_init_strings
  split
  · rename_i u i calls hw
    cases ok with
    | true =>
      have hset : Inv none { w with
          states := Function.update w.states i { w.states i with strings := .finished } } :=
        h.set_strings i .finished nofun
      exact ⟨hset.pop hw (.returned i), fun _ _ ho => ho, nofun⟩
    | false =>
      have hf := h.strings_failed hw
      refine ⟨hf.inv, ?_, ?_⟩
      · intro v j hj
        by_cases hv : v = u
        · subst hv
          exact absurd hj (hf.idle j)
        · exact (owned_set_interp_ne none hv j).mp hj
      · intro v j he
        cases he
        exact hf
  · exact ⟨h.setting _ _ _ _, fun _ _ ho => ho, nofun⟩

theorem Inv.finish_close {w : World} (h : Inv none w) : Inv none (finish_close w) := by
  unfold init.finish_close
  split
  · rename_i u i calls hw
    exact h.pop hw .raised
  · exact h.setting _ _ _ _

/-! ## Runs -/

theorem idle_or_owned (w : World) (u : Oid) : Idle w u ∨ ∃ i, Owned w u i := by
  by_cases h : ∃ i, Owned w u i
  · exact Or.inr h
  · exact Or.inl (not_exists.mp h)

/-- A call for a user without an interpreter. -/
theorem step_idle {w : World} (h : Inv none w) (hlib : lib.unacceptable = false) {trusted : Bool}
    {GetUserId : Oid} (luck : Luck) (hu : Idle w (key trusted GetUserId)) :
    Inv none (step lib w (.getstate trusted GetUserId luck)) ∧
      (∀ v j, v ≠ key trusted GetUserId →
        (Owned (step lib w (.getstate trusted GetUserId luck)) v j ↔ Owned w v j)) ∧
      ((step lib w (.getstate trusted GetUserId luck)).outcome = .raised ∨
        ∃ i, ((step lib w (.getstate trusted GetUserId luck)).outcome =
            .building (key trusted GetUserId) i ∨
          Failed (step lib w (.getstate trusted GetUserId luck)) (key trusted GetUserId) i) ∧
          (i ∈ w.held_states ∨ i = w.next)) := by
  have hstep : step lib w (.getstate trusted GetUserId luck) =
      build lib luck (key trusted GetUserId) (hash_enter trusted (key trusted GetUserId) w) :=
    getstate_idle luck hu
  have hown := owned_hash_enter w trusted (key trusted GetUserId)
  have hu' : Idle (hash_enter trusted (key trusted GetUserId) w) (key trusted GetUserId) :=
    fun i hi => hu i ((hown _ i).mp hi)
  obtain ⟨h1, h2, h3⟩ := (h.hash_enter trusted (key trusted GetUserId)).built hlib luck
    (hash_enter_isSome w trusted (key trusted GetUserId)) hu'
  obtain ⟨hheld, hnext, -, -⟩ := hash_enter_rest w trusted (key trusted GetUserId)
  rw [hheld, hnext] at h3
  rw [hstep]
  exact ⟨h1, fun v j hv => (h2 v j hv).trans (hown v j), h3⟩

/-- What one operation keeps. -/
theorem Inv.step {w : World} (h : Inv none w) (hlib : lib.unacceptable = false) (a : Action) :
    Inv none (step lib w a) := by
  cases a with
  | getstate trusted GetUserId luck =>
    rcases idle_or_owned w (key trusted GetUserId) with hu | ⟨i, hi⟩
    · exact (step_idle h hlib luck hu).1
    · exact (getstate_owned luck h hi).1
  | strings_end ok => exact (h.run_init_strings ok).1
  | close_end => exact h.finish_close
  | assign_on_init newval lucks => exact (h.assign_on_init hlib newval lucks).1
  | assign_reload_ident newval lucks => exact (h.assign_reload_ident hlib newval lucks).1
  | fork => exact h.setting _ _ _ _

/-- The assignments of the variables do not touch who owns what. -/
theorem owned_setting {w : World} (h : Inv none w) (hlib : lib.unacceptable = false) {a : Action}
    (ha : a.user = none) (u : Oid) (i : StateId) :
    Owned (step lib w a) u i → Owned w u i := by
  cases a with
  | getstate => cases ha
  | strings_end ok => exact (h.run_init_strings ok).2.1 u i
  | close_end =>
    have hhash : (finish_close w).interp_hash = w.interp_hash := by
      unfold finish_close
      split
      · rfl
      · rfl
    have hstep : init.step lib w .close_end = finish_close w := rfl
    unfold Owned
    rw [hstep, hhash]
    exact id
  | assign_on_init newval lucks =>
    unfold Owned step
    rw [(h.assign_on_init hlib newval lucks).2]
    exact id
  | assign_reload_ident newval lucks => exact ((h.assign_reload_ident hlib newval lucks).2 u i).mp
  | fork => exact id

theorem not_failed_setting {w : World} {a : Action} (ha : a.user = none)
    (hend : ∀ ok, a ≠ .strings_end ok) (u : Oid) (i : StateId) :
    (step lib w a).outcome ≠ .failed u i := by
  cases a with
  | getstate => cases ha
  | strings_end ok => exact absurd rfl (hend ok)
  | close_end =>
    unfold init.step finish_close
    simp only
    split
    · nofun
    · nofun
  | assign_on_init newval lucks =>
    unfold init.step pllua_assign_on_init
    simp only
    split
    · nofun
    · split
      · split
        · nofun
        · split
          · nofun
          · nofun
      · nofun
  | assign_reload_ident newval lucks =>
    unfold init.step pllua_assign_reload_ident
    simp only
    split
    · nofun
    · split
      · split
        · nofun
        · split
          · nofun
          · nofun
      · nofun
  | fork => nofun

theorem Inv.renewed {w : World} (h : Inv none w) (hlib : lib.unacceptable = false) (a : Action) :
    Renewed lib w a := by
  constructor
  case failed =>
    intro u i hf
    suffices hfail : Failed (init.step lib w a) u i from ⟨hfail.idle, hfail.closed⟩
    cases a with
    | getstate trusted GetUserId luck =>
      rcases idle_or_owned w (key trusted GetUserId) with hu | ⟨j, hj⟩
      · rcases (step_idle h hlib luck hu).2.2 with hr | ⟨j, hb | hfail, -⟩
        · rw [hr] at hf
          cases hf
        · rw [hb] at hf
          cases hf
        · have heq := hfail.outcome.symm.trans hf
          cases heq
          exact hfail
      · exact absurd hf ((getstate_owned luck h hj).2.2 u i)
    | strings_end ok => exact (h.run_init_strings ok).2.2 u i hf
    | close_end =>
      exact absurd hf (@not_failed_setting lib w .close_end rfl (fun _ => nofun) u i)
    | assign_on_init newval lucks =>
      exact absurd hf (@not_failed_setting lib w (.assign_on_init newval lucks) rfl (fun _ => nofun) u i)
    | assign_reload_ident newval lucks =>
      exact absurd hf (@not_failed_setting lib w (.assign_reload_ident newval lucks) rfl (fun _ => nofun) u i)
    | fork =>
      exact absurd hf (@not_failed_setting lib w .fork rfl (fun _ => nofun) u i)
  case kept =>
    intro u hu hne i hi
    cases ha : a.user with
    | none => exact hu i (owned_setting h hlib ha u i hi)
    | some v =>
      cases a with
      | getstate trusted GetUserId luck =>
        have hv : u ≠ key trusted GetUserId := fun he => hne (congrArg some he.symm)
        rcases idle_or_owned w (key trusted GetUserId) with hidle | ⟨j, hj⟩
        · exact hu i (((step_idle h hlib luck hidle).2.1 u i hv).mp hi)
        · exact hu i (((getstate_owned luck h hj).2.1 u i).mp hi)
      | _ => cases ha
  case rebuilt =>
    intro u hu ha
    cases a with
    | getstate trusted GetUserId luck =>
      obtain rfl : key trusted GetUserId = u := Option.some.inj ha
      rcases (step_idle h hlib luck hu).2.2 with hr | ⟨j, hb | hfail, hj⟩
      · exact Or.inl hr
      · exact Or.inr ⟨j, Or.inl hb, hj⟩
      · exact Or.inr ⟨j, Or.inr hfail.outcome, hj⟩
    | _ => cases ha

theorem Inv.started (hlib : lib.unacceptable = false) (IsUnderPostmaster : Bool) (num : Nat)
    (on_init reload_ident : Option String) (lucks : List Phase1) :
    Inv none (_PG_init lib IsUnderPostmaster num on_init reload_ident lucks) := by
  have hempty : ∀ w : World, w.interp_hash = (fun _ => none) → w.held_states = [] →
      w.next = 0 → w.calls = [] → Inv none w := by
    intro w h1 h2 h3 h4
    have hfree : ∀ u i, ¬ Owned w u i := by
      rintro u i ⟨e, he, -⟩
      rw [h1] at he
      cases he
    constructor
    · exact fun u i hi => absurd hi (hfree u i)
    · intro i hi
      rw [h3] at hi
      exact absurd hi (Nat.not_lt_zero i)
    · nofun
    · simp [h2]
    · simp [h4]
    · simp [h4]
  unfold _PG_init
  simp only
  split
  · exact hempty _ rfl rfl rfl rfl
  · exact ((hempty _ rfl rfl rfl rfl).create_held hlib lucks num reload_ident).1

end

/-! ## The law of the table -/

/-- The law in every run: of any sequence of calls, nested or not, of any assignments, and
of any failures. -/
def Kept (lib : LuaLibrary) : Prop :=
  ∀ IsUnderPostmaster num on_init reload_ident lucks as,
    Sound (_PG_init lib IsUnderPostmaster num on_init reload_ident lucks) ∧
      Each (step lib) (Lawful lib) (_PG_init lib IsUnderPostmaster num on_init reload_ident lucks)
        as

/-- The first call of a process without held states, with a library that is refused. -/
theorem refused_state_is_lost {lib : LuaLibrary} (hlib : lib.unacceptable = true) : ¬ Kept lib := by
  intro h
  have hrun := (h true 0 none none [] [.getstate true 10 ⟨false, .ok, false⟩]).2.1.sound
  have hlost : ∀ w, w = step lib (_PG_init lib true 0 none none [])
      (.getstate true 10 ⟨false, .ok, false⟩) →
      w.next = 1 ∧ w.held_states = [] ∧ (∀ u i, ¬ Owned w u i) ∧ (w.states 0).closes = 0 := by
    rintro w rfl
    simp only [step, pllua_getstate, key, _PG_init, if_true, hash_enter, build,
      pllua_newstate_phase1, lua_newstate, hlib]
    refine ⟨rfl, rfl, ?_, by simp⟩
    rintro u i ⟨e, he, hi⟩
    by_cases hu : u = 10
    · subst hu
      simp at he
      subst he
      cases hi
    · simp [hu] at he
  obtain ⟨hnext, hheld, hfree, hopen⟩ := hlost _ rfl
  have hcreated : 0 < (step lib (_PG_init lib true 0 none none [])
      (.getstate true 10 ⟨false, .ok, false⟩)).next := by
    rw [hnext]
    exact Nat.one_pos
  rcases hrun.accounted 0 hcreated with ⟨h1, -, -⟩ | ⟨-, ⟨u, h2, -⟩, -⟩ | ⟨-, -, h3⟩
  · rw [hheld] at h1
    cases h1
  · exact hfree u 0 h2
  · omega

/-- Every state is held, or owned by one entry, or closed once, and every entry denotes a
state that works for its user, exactly if the Lua library is accepted. -/
theorem every_state_is_accounted_for_if_the_library_is_accepted (lib : LuaLibrary) :
    Kept lib ↔ lib.unacceptable = false := by
  constructor
  · intro h
    by_contra hlib
    exact refused_state_is_lost (by simpa using hlib) h
  · intro hlib IsUnderPostmaster num on_init reload_ident lucks as
    have hstep : ∀ (w : World) (a : Action), Inv none w → True → Inv none (step lib w a) :=
      fun w a hw _ => hw.step hlib a
    have htrue : Each (step lib) (fun _ _ => True)
        (_PG_init lib IsUnderPostmaster num on_init reload_ident lucks) as := by
      generalize _PG_init lib IsUnderPostmaster num on_init reload_ident lucks = w
      induction as generalizing w with
      | nil => trivial
      | cons a as ih => exact ⟨trivial, ih _⟩
    have hstart := Inv.started hlib IsUnderPostmaster num on_init reload_ident lucks
    refine ⟨hstart.sound, ?_⟩
    apply each_of_invariant hstep _ hstart htrue
    exact fun w a hw _ => ⟨(hw.step hlib a).sound, hw.renewed hlib a⟩

/-- Lua 5.4.5. -/
def lua545 : LuaLibrary :=
  ⟨504, 200, "$LuaVersion: Lua 5.4.5  Copyright".toList⟩

/-- With Lua 5.4.5 the state of the first call is lost. -/
theorem a_refused_library_loses_a_state :
    lua545.LUA_VERSION_NUM = 504 ∧
      (step lua545 (_PG_init lua545 true 0 none none [])
        (.getstate true 10 ⟨false, .ok, false⟩)).outcome = .raised ∧ ¬ Kept lua545 := by
  refine ⟨rfl, by decide, refused_state_is_lost (by decide)⟩

end pllua.init
