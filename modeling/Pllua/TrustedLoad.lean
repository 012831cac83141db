-- The confinement law of the sandbox: a chunk of code that arrives in a trusted
-- interpreter runs in the sandbox, or in the environment that the caller of
-- load supplied. The real globals table is never its environment.
import Mathlib.Data.List.Basic

namespace pllua.confine

/-! ## Values, and the stack of a C function -/

abbrev TableId := Nat

/-- A Lua value. Functions, userdata and threads only have an identity here. -/
inductive Value
  | nil
  | boolean (b : Bool)
  | number (n : Int)
  | string (s : String)
  | table (t : TableId)
  | object (id : Nat)
deriving DecidableEq, Repr

def Value.is_table : Value → Bool
  | .table _ => true
  | _ => false

/-- The stack of a C function. Index 1 is the head of the list. -/
abbrev Stack := List Value

def lua_settop (n : Nat) (s : Stack) : Stack := s.take n ++ List.replicate (n - s.length) .nil

def lua_push (v : Value) (s : Stack) : Stack := s ++ [v]

/-- Pops the top value into the slot at `i`. -/
def lua_replace (i : Nat) (s : Stack) : Stack := (s.set (i - 1) (s.getLastD .nil)).dropLast

/-! ## The interpreter -/

/-- The tables of a Lua state, and the registry entries of the sandbox. -/
structure Machine where
  /-- `LUA_RIDX_GLOBALS`: the real globals -/
  globals : TableId
  /-- Tables from here on are not in use. -/
  next : TableId
  metatable : TableId → Option TableId
  /-- the `__index` field -/
  index : TableId → Value
  /-- `PLLUA_TRUSTED_SANDBOX` -/
  sandbox : Value
  /-- `PLLUA_SANDBOX_META` -/
  sandbox_meta : Value
  /-- `PLLUA_GLOBAL_META` -/
  global_meta : Value
  /-- `PLLUA_TRUSTED` -/
  trusted : Bool

/-- A lookup in table `t` that finds nothing on its way goes on to table `s`. -/
inductive Inherits (m : Machine) : TableId → TableId → Prop
  | self (t : TableId) : Inherits m t t
  | step {t mt u s : TableId} (hm : m.metatable t = some mt) (hi : m.index mt = .table u)
      (h : Inherits m u s) : Inherits m t s

def Machine.newtable (m : Machine) : TableId × Machine :=
  (m.next, { m with
    next := m.next + 1
    metatable := Function.update m.metatable m.next none
    index := Function.update m.index m.next .nil })

def Machine.setmetatable (m : Machine) (t mt : TableId) : Machine :=
  { m with metatable := Function.update m.metatable t (some mt) }

/-- A trusted interpreter. The sandbox is a table of its own, and the metatable for
the environments of functions leads to it. -/
structure TrustedInterp extends Machine where
  box : TableId
  box_meta : TableId
  heir : TableId
  is_trusted : trusted = true
  has_box : sandbox = .table box
  has_meta : sandbox_meta = .table box_meta
  meta_index : index box_meta = .table heir
  heir_inherits : Inherits toMachine heir box
  box_ne_globals : box ≠ globals
  globals_lt : globals < next
  box_meta_lt : box_meta < next
  metatable_lt : ∀ t mt, metatable t = some mt → t < next ∧ mt < next

/-! ## The host's load -/

/-- A function made from a chunk, with its environment. -/
structure LuaFunction (P : Type) where
  proto : P
  env : Value

/-- The Lua that the code is built with. -/
structure Host (P : Type) where
  /-- `LUA_VERSION_NUM == 501` -/
  luajit : Bool
  /-- compiles a chunk, given its name and mode, or fails with a message -/
  compile : Value → Value → Value → Except String P

section
variable {P : Type} (h : Host P)

/-- `luaL_loadbufferx`: a new function has the real globals. -/
def luaL_loadbufferx (m : Machine) (str chunkname mode : String) :
    Except String (LuaFunction P) := do
  let p ← h.compile (.string str) (.string chunkname) (.string mode)
  return ⟨p, .table m.globals⟩

/-- The function `load` of the host. Lua 5.2 and later take the fourth argument whenever
there is one. LuaJIT takes it only when it is a table. -/
def host_load (m : Machine) (args : List Value) : Except String (LuaFunction P) := do
  let p ← h.compile (args.getD 0 .nil) (args.getD 1 .nil) (args.getD 2 .nil)
  return ⟨p, match args[3]? with
    | some v => if h.luajit && !v.is_table then .table m.globals else v
    | none => .table m.globals⟩

/-! ## The ways in -/

/-- `pllua_t_load`. An error stands for the results nil and a message. -/
def pllua_t_load (m : Machine) (stack : Stack) : Except String (LuaFunction P) :=
  let stack :=
    if stack.length < 4 then lua_push m.sandbox (lua_settop 3 stack) else stack
  host_load h m (lua_replace 3 (lua_push (.string "t") stack))

/-- `pllua_set_environment`. -/
def pllua_set_environment (f : LuaFunction P) (env : Value) : LuaFunction P := { f with env }

/-- `pllua_prepare_function`. -/
def pllua_prepare_function (m : Machine) (f : LuaFunction P) (trusted : Bool) :
    Except String (LuaFunction P × Machine) :=
  let (t, m) := m.newtable
  match if trusted then m.sandbox_meta else m.global_meta with
  | .table mt => .ok (pllua_set_environment f (.table t), m.setmetatable t mt)
  | _ => .error "missing environment metatable"

/-- `pllua_compile_inline`. -/
def pllua_compile_inline (m : Machine) (str : String) (trusted : Bool) :
    Except String (LuaFunction P × Machine) := do
  let f ← luaL_loadbufferx h m str "DO-block" "t"
  pllua_prepare_function m f trusted

/-- `pllua_function_compile_info` with the `pllua_function_info` in it. The arguments
have their names and modes. -/
structure CompileInfo where
  name : String
  is_trigger : Bool
  is_event_trigger : Bool
  nargs : Nat
  allargs : List (String × Char)
  prosrc : String
  trusted : Bool
  validate_only : Bool

/-- The loop over the parameter names: OUT parameters are left out, and the first
parameter with no name ends the list. -/
def parameter_names : List (String × Char) → List String
  | [] => []
  | (argname, argmode) :: rest =>
    if argmode = 'o' then parameter_names rest
    else if argname ≠ "" then argname :: parameter_names rest
    else []

def parameter_list (info : CompileInfo) : String :=
  if info.is_trigger then "trigger,old,new,..."
  else if info.is_event_trigger then "trigger"
  else if 0 < info.nargs then
    let names := parameter_names info.allargs
    ",".intercalate (names ++ if names.length < info.nargs then ["..."] else [])
  else ""

/-- The source text of a function. -/
def function_source (info : CompileInfo) : String :=
  "local self = (...) local function " ++ info.name ++ "(" ++ parameter_list info ++ ") " ++
    info.prosrc ++ " end return " ++ info.name

/-- `pllua_compile`, up to the run of the chunk. The function that the chunk returns has
the environment of the chunk. With `validate_only` nothing is made. -/
def pllua_compile (m : Machine) (info : CompileInfo) :
    Except String (Option (LuaFunction P) × Machine) := do
  let f ← luaL_loadbufferx h m (function_source info) info.name "t"
  if info.validate_only then return (none, m)
  let (f, m) ← pllua_prepare_function m f info.trusted
  return (some f, m)

/-- `pllua_runstring`, up to the call of the chunk. -/
def pllua_runstring (m : Machine) (chunkname str : String) (use_sandbox : Bool) :
    Except String (LuaFunction P) := do
  let f ← luaL_loadbufferx h m str chunkname "t"
  return if use_sandbox then pllua_set_environment f m.sandbox else f

/-- How code arrives in a trusted interpreter. -/
inductive Arrival
  | function_body (info : CompileInfo)
  | do_block (source_text : String)
  | on_common_init (str : String)
  | load (args : List Value)

/-- The function made from the code, and the machine after it. A function and an
activation have `trusted` from their language, which is that of the interpreter. -/
def arrive (m : Machine) : Arrival → Except String (Option (LuaFunction P) × Machine)
  | .function_body info => pllua_compile h m { info with trusted := m.trusted }
  | .do_block source_text => do
    let (f, m) ← pllua_compile_inline h m source_text m.trusted
    return (some f, m)
  | .on_common_init str => do
    let f ← pllua_runstring h m "on_common_init" str m.trusted
    return (some f, m)
  | .load args => do
    let f ← pllua_t_load h m args
    return (some f, m)

end

/-! ## The law -/

/-- The environment that the caller of `load` supplied, if any. -/
def Arrival.supplied : Arrival → Option Value
  | .load args => args[3]?
  | _ => none

/-- The sandbox, or a table made for the chunk that inherits from it. -/
def Sandboxed (m : TrustedInterp) (m' : Machine) (env : Value) : Prop :=
  env = .table m.box ∨ ∃ t, env = .table t ∧ m.next ≤ t ∧ Inherits m' t m.box

/-- The environment is what the caller supplied, or else the sandbox. It is not the
real globals, which the caller does not have. -/
def Confined (m : TrustedInterp) (a : Arrival) (m' : Machine) (env : Value) : Prop :=
  (match a.supplied with
    | some v => env = v
    | none => Sandboxed m m' env) ∧
  (a.supplied ≠ some (.table m.globals) → env ≠ .table m.globals)

/-- The case that goes wrong: LuaJIT is given an environment that is not a table. -/
def Unheeded {P : Type} (h : Host P) (a : Arrival) : Prop :=
  h.luajit = true ∧ ∃ v, a.supplied = some v ∧ v.is_table = false

/-! ## The arguments of load -/

theorem settop_push_replace (args : List Value) (v w : Value) (h : args.length < 4) :
    (lua_replace 3 (lua_push w (lua_push v (lua_settop 3 args))))[3]? = some v := by
  match args with
  | [] => rfl
  | [_] => rfl
  | [_, _] => rfl
  | [_, _, _] => rfl
  | _ :: _ :: _ :: _ :: rest => exact absurd h (by simp)

theorem push_replace (args : List Value) (w : Value) (h : 4 ≤ args.length) :
    (lua_replace 3 (lua_push w args))[3]? = args[3]? := by
  match args with
  | a :: b :: c :: d :: rest =>
    simp [lua_replace, lua_push]
  | [] | [_] | [_, _] | [_, _, _] => simp at h

theorem bind_ok {α β : Type} {x : Except String α} {k : α → Except String β} {b : β}
    (h : (x >>= k) = .ok b) : ∃ a, x = .ok a ∧ k a = .ok b := by
  cases x with
  | error e => cases h
  | ok a => exact ⟨a, rfl, h⟩

/-- The fourth argument that the host's `load` gets is the caller's, or the sandbox. -/
theorem t_load_env {P : Type} {h : Host P} {m : Machine} {args : List Value} {f : LuaFunction P}
    (hf : pllua_t_load h m args = .ok f) :
    f.env = if h.luajit && !(args[3]?.getD m.sandbox).is_table then .table m.globals
      else args[3]?.getD m.sandbox := by
  unfold pllua_t_load host_load at hf
  obtain ⟨p, -, hp⟩ := bind_ok hf
  cases hp
  by_cases hlen : args.length < 4
  · have hnone : args[3]? = none := List.getElem?_eq_none (by omega)
    simp only [hlen, if_true, settop_push_replace args _ _ hlen, hnone, Option.getD_none]
  · have hlt : 3 < args.length := by omega
    simp only [hlen, if_false, push_replace args _ (Nat.le_of_not_lt hlen),
      List.getElem?_eq_getElem hlt, Option.getD_some]

/-! ## The environment of a function -/

/-- A new table, and a metatable for it, do not come between the tables in use. -/
theorem Inherits.newtable {m : Machine} {t s : TableId} (mt' : TableId) (h : Inherits m t s)
    (hlt : ∀ t mt, m.metatable t = some mt → t < m.next ∧ mt < m.next) :
    Inherits (m.newtable.2.setmetatable m.next mt') t s := by
  induction h with
  | self t => exact Inherits.self t
  | @step t mt u s hm hi _ ih =>
    obtain ⟨ht, hmt⟩ := hlt _ _ hm
    have hm' : (m.newtable.2.setmetatable m.next mt').metatable t = some mt := by
      simpa [Machine.setmetatable, Machine.newtable, Nat.ne_of_lt ht] using hm
    have hi' : (m.newtable.2.setmetatable m.next mt').index mt = .table u := by
      simpa [Machine.setmetatable, Machine.newtable, Nat.ne_of_lt hmt] using hi
    exact Inherits.step hm' hi' ih

theorem prepare_function_sandboxed {P : Type} {m : TrustedInterp} {f f' : LuaFunction P}
    {m' : Machine} (hp : pllua_prepare_function m.toMachine f m.trusted = .ok (f', m')) :
    f'.env = .table m.next ∧ Inherits m' m.next m.box := by
  have hmeta : m.newtable.2.sandbox_meta = .table m.box_meta := m.has_meta
  unfold pllua_prepare_function at hp
  simp only [m.is_trusted, if_true, hmeta] at hp
  cases hp
  have hm : (m.newtable.2.setmetatable m.next m.box_meta).metatable m.next = some m.box_meta := by
    simp [Machine.setmetatable, Machine.newtable]
  have hi : (m.newtable.2.setmetatable m.next m.box_meta).index m.box_meta = .table m.heir := by
    simpa [Machine.setmetatable, Machine.newtable, Nat.ne_of_lt m.box_meta_lt] using m.meta_index
  exact ⟨rfl, Inherits.step hm hi (m.heir_inherits.newtable m.box_meta m.metatable_lt)⟩

/-- A chunk that does not come through `load` gets the sandbox, or a table of its own
that inherits from it. -/
theorem arrive_sandboxed {P : Type} {h : Host P} {m : TrustedInterp} {a : Arrival}
    {f : LuaFunction P} {m' : Machine} (ha : ∀ args, a ≠ .load args)
    (hf : arrive h m.toMachine a = .ok (some f, m')) :
    f.env = .table m.box ∨ f.env = .table m.next ∧ Inherits m' m.next m.box := by
  cases a with
  | function_body info =>
    obtain ⟨g, -, hg⟩ := bind_ok hf
    split at hg
    · cases hg
    · obtain ⟨r, hr, hret⟩ := bind_ok hg
      cases hret
      exact Or.inr (prepare_function_sandboxed hr)
  | do_block source_text =>
    obtain ⟨r, hr, hret⟩ := bind_ok hf
    cases hret
    obtain ⟨g, -, hg⟩ := bind_ok hr
    exact Or.inr (prepare_function_sandboxed hg)
  | on_common_init str =>
    obtain ⟨g, hg, hret⟩ := bind_ok hf
    cases hret
    obtain ⟨g0, -, hg0⟩ := bind_ok hg
    cases hg0
    simp only [m.is_trusted, if_true]
    exact Or.inl m.has_box
  | load args => exact absurd rfl (ha args)

/-- Neither the sandbox nor a table made for a chunk is the real globals. -/
theorem sandboxed_confined {m : TrustedInterp} (m' : Machine) {env : Value}
    (he : env = .table m.box ∨ env = .table m.next ∧ Inherits m' m.next m.box) :
    Sandboxed m m' env ∧ env ≠ .table m.globals := by
  rcases he with rfl | ⟨rfl, hinh⟩
  · refine ⟨Or.inl rfl, ?_⟩
    intro heq
    exact m.box_ne_globals (Value.table.inj heq)
  · refine ⟨Or.inr ⟨m.next, rfl, Nat.le_refl _, hinh⟩, ?_⟩
    intro heq
    have hlt := m.globals_lt
    rw [Value.table.inj heq] at hlt
    exact absurd hlt (Nat.lt_irrefl _)

theorem confined_supplied {m : TrustedInterp} {a : Arrival} {m' : Machine} {env v : Value}
    (h : a.supplied = some v) :
    Confined m a m' env ↔ env = v ∧ (v ≠ .table m.globals → env ≠ .table m.globals) := by
  unfold Confined
  rw [h]
  simp

theorem confined_not_supplied {m : TrustedInterp} {a : Arrival} {m' : Machine} {env : Value}
    (h : a.supplied = none) :
    Confined m a m' env ↔ Sandboxed m m' env ∧ env ≠ .table m.globals := by
  unfold Confined
  rw [h]
  simp

theorem not_unheeded {P : Type} {h : Host P} {a : Arrival} (hs : a.supplied = none) :
    ¬ Unheeded h a := by
  rintro ⟨-, v, hv, -⟩
  rw [hs] at hv
  cases hv

/-- A chunk of code is confined, in every way in and on every Lua, unless LuaJIT's `load`
is given an environment that is not a table. Then the chunk has the real globals. -/
theorem a_chunk_is_confined_unless_its_environment_goes_unheeded {P : Type} (h : Host P)
    (m : TrustedInterp) (a : Arrival) (f : LuaFunction P) (m' : Machine)
    (hf : arrive h m.toMachine a = .ok (some f, m')) :
    Confined m a m' f.env ↔ ¬ Unheeded h a := by
  cases a with
  | load args =>
    obtain ⟨g, hg, hret⟩ := bind_ok hf
    cases hret
    have henv := t_load_env hg
    rw [m.has_box] at henv
    cases hsup : (Arrival.load args).supplied with
    | none =>
      -- no environment: the code puts the sandbox in its place
      have hnone : args[3]? = none := hsup
      rw [hnone] at henv
      have hbox : f.env = .table m.box := by simpa [Value.is_table] using henv
      have hc := sandboxed_confined m.toMachine (Or.inl hbox)
      exact iff_of_true ((confined_not_supplied hsup).mpr hc) (not_unheeded hsup)
    | some v =>
      have hsome : args[3]? = some v := hsup
      rw [hsome, Option.getD_some] at henv
      rw [confined_supplied hsup]
      by_cases hbad : h.luajit = true ∧ v.is_table = false
      · have hglob : f.env = .table m.globals := by simp [henv, hbad.1, hbad.2]
        refine iff_of_false ?_ (not_not_intro ⟨hbad.1, v, hsup, hbad.2⟩)
        rintro ⟨heq, -⟩
        rw [← heq, hglob] at hbad
        cases hbad.2
      · have hok : f.env = v := by
          rw [henv, if_neg]
          simpa using hbad
        refine iff_of_true ⟨hok, fun hne => hok ▸ hne⟩ ?_
        rintro ⟨hj, w, hw, ht⟩
        rw [hsup] at hw
        cases hw
        exact hbad ⟨hj, ht⟩
  | function_body info =>
    have hc := sandboxed_confined m' (arrive_sandboxed (by simp) hf)
    exact iff_of_true ((confined_not_supplied rfl).mpr hc) (not_unheeded rfl)
  | do_block source_text =>
    have hc := sandboxed_confined m' (arrive_sandboxed (by simp) hf)
    exact iff_of_true ((confined_not_supplied rfl).mpr hc) (not_unheeded rfl)
  | on_common_init str =>
    have hc := sandboxed_confined m' (arrive_sandboxed (by simp) hf)
    exact iff_of_true ((confined_not_supplied rfl).mpr hc) (not_unheeded rfl)

/-! ## A new trusted interpreter -/

/-- A state from `luaL_newstate`, with no sandbox. -/
def luaL_newstate : Machine where
  globals := 0
  next := 1
  metatable _ := none
  index _ := .nil
  sandbox := .nil
  sandbox_meta := .nil
  global_meta := .nil
  trusted := true

/-- `pllua_open_trusted`, as far as it makes the sandbox and the metatable for it. -/
def pllua_open_trusted (m : Machine) : Machine :=
  let (box, m) := m.newtable
  let (mt, m) := m.newtable
  { m with
    index := Function.update m.index mt (.table box)
    sandbox := .table box
    sandbox_meta := .table mt }

/-- A new trusted interpreter has its sandbox. -/
def opened : TrustedInterp where
  toMachine := pllua_open_trusted luaL_newstate
  box := 1
  box_meta := 2
  heir := 1
  is_trusted := rfl
  has_box := rfl
  has_meta := rfl
  meta_index := rfl
  heir_inherits := Inherits.self 1
  box_ne_globals := by decide
  globals_lt := by decide
  box_meta_lt := by decide
  metatable_lt := by
    intro t mt h
    simp [pllua_open_trusted, Machine.newtable, luaL_newstate] at h

/-- A LuaJIT that compiles every chunk to itself. -/
def any_luajit : Host Value := ⟨true, fun chunk _ _ => .ok chunk⟩

/-- On LuaJIT, `load("return _G", "x", "t", nil)` gives a function whose environment is
the real globals. -/
theorem luajit_load_with_nil_has_the_real_globals :
    ∃ f, arrive any_luajit opened.toMachine
        (.load [.string "return _G", .string "x", .string "t", .nil]) =
          .ok (some f, opened.toMachine) ∧
      f.env = .table opened.globals ∧
      ¬ Confined opened (.load [.string "return _G", .string "x", .string "t", .nil])
        opened.toMachine f.env := by
  refine ⟨⟨.string "return _G", .table 0⟩, rfl, rfl, ?_⟩
  rintro ⟨h, -⟩
  cases h

/-- With a table of its own the caller is heeded. -/
theorem luajit_load_with_a_table_is_confined :
    Confined opened (.load [.string "return 1", .string "x", .string "t", .table 1])
      opened.toMachine (.table 1) := by
  refine (a_chunk_is_confined_unless_its_environment_goes_unheeded any_luajit opened _
    ⟨.string "return 1", .table 1⟩ opened.toMachine rfl).mpr ?_
  rintro ⟨-, v, hv, ht⟩
  cases hv
  cases ht

end pllua.confine
