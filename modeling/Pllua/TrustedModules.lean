-- The modules of the sandbox (trusted.c): `trusted.allow` enters a module in up to three tables,
-- and `trusted.remove` takes it out of them if it is told of a global variable.
import Mathlib.Logic.Function.Basic
import Mathlib.Tactic.Common

namespace pllua.trusted

/-! ## Arguments -/

abbrev Name := List UInt8

/-- An argument, where `M` are the functions that adapt a module. A number has its text. -/
inductive Arg (M : Type)
  | nil
  | boolean (b : Bool)
  | string (s : Name)
  | number (text : Name)
  | func (mode : M)
  | other

/-- Why a call fails. -/
inductive Err
  /-- `bad argument #%d` -/
  | argument (n : Nat)
  /-- `trusted.modes value is not a function` -/
  | no_mode
  /-- raised by the module or by its adapter -/
  | module (e : Name)
  /-- `table index is nil` -/
  | nil_index

section
variable {M : Type}

/-- `luaL_checkstring` -/
def checkstring (n : Nat) : Arg M → Except Err Name
  | .string s => .ok s
  | .number text => .ok text
  | _ => .error (.argument n)

/-- `luaL_optstring`, where nothing stands for the default. -/
def optstring (n : Nat) : Arg M → Except Err (Option Name)
  | .nil => .ok none
  | a => (checkstring n a).map some

/-- The name of the global variable: true stands for the name of the module. -/
def global_name (n : Nat) (name : Name) : Arg M → Except Err (Option Name)
  | .boolean b => .ok (if b then some name else none)
  | a => optstring n a

def Arg.toboolean : Arg M → Bool
  | .nil => false
  | .boolean b => b
  | _ => true

/-! ## Tables -/

/-- What the list of allowed modules has for a name: the value of a module that is loaded, or the
call that loads it. -/
inductive Closure (V M : Type)
  | bind_one_value (v : Option V)
  | bind_one_call (mode : M) (modname : Name)

/-- A table with strings as its keys. A value that is nil is absent. -/
abbrev Tab (A : Type) := Name → Option A

/-- The tables `PLLUA_TRUSTED_SANDBOX_ALLOW`, `PLLUA_TRUSTED_SANDBOX_LOADED` and
`PLLUA_TRUSTED_SANDBOX`. -/
structure State (V M : Type) where
  allow : Tab (Closure V M)
  loaded : Tab V
  sandbox : Tab V

/-- `lua_rawset`, where a key may be nil. -/
def rawset {A : Type} (t : Tab A) (key : Option Name) (v : Option A) : Except Err (Tab A) :=
  match key with
  | none => .error .nil_index
  | some k => .ok (Function.update t k v)

/-- What the calls need from outside: `trusted.modes`, and what comes of a module that is required
and adapted, with whatever this does to the tables. -/
structure Host (V M : Type) where
  modes : Tab M
  load : M → Name → State V M → Except Name (Option V) × State V M

/-! ## Allowing a module -/

/-- The arguments of `_allow` once they are checked. -/
structure Request (M : Type) where
  modname : Name
  newname : Name
  mode : M
  glob : Option Name
  load_now : Bool

variable {V : Type} (host : Host V M)

def find_mode : Arg M → Except Err M
  | .func mode => .ok mode
  | a => do
    let mode ← optstring 3 a
    match host.modes (mode.getD [112, 114, 111, 120, 121]) with
    | some mode => .ok mode
    | none => .error .no_mode

def read_request (modname newname mode glob immed : Arg M) : Except Err (Request M) := do
  let modname ← checkstring 1 modname
  let newname ← optstring 2 newname
  let glob ← global_name 4 (newname.getD modname) glob
  let mode ← find_mode host mode
  .ok
    { modname, newname := newname.getD modname, mode, glob
      load_now := glob.isSome || immed.toboolean }

/-- What is entered in the tables for the value of a module. -/
def install (r : Request M) (value : Option V) (s : State V M) : State V M :=
  have s : State V M :=
    { s with allow := Function.update s.allow r.newname (some (.bind_one_value value)) }
  match r.glob with
  | none => s
  | some g =>
    { s with
      loaded := Function.update s.loaded r.newname value
      sandbox := Function.update s.sandbox g value }

def allow_request (r : Request M) (s : State V M) : Except Err Unit × State V M :=
  if r.load_now then
    match host.load r.mode r.modname s with
    | (.error e, s) => (.error (.module e), s)
    | (.ok value, s) => (.ok (), install r value s)
  else
    (.ok (),
      { s with
        allow := Function.update s.allow r.newname (some (.bind_one_call r.mode r.modname)) })

/-- An entry that was made, with the argument for the global variable. -/
structure Entry (M : Type) where
  name : Name
  glob : Arg M

/-- `pllua_trusted_allow`, with the entry that it makes. -/
def pllua_trusted_allow (modname newname mode glob immed : Arg M) (s : State V M) :
    Except Err (Entry M) × State V M :=
  match read_request host modname newname mode glob immed with
  | .error e => (.error e, s)
  | .ok r =>
    have done := allow_request host r s
    (done.1.map fun _ => ⟨r.newname, glob⟩, done.2)

/-- An element of a list of modules: a name, or a table of the arguments. -/
inductive Item (M : Type)
  | plain (v : Arg M)
  | fields (mod new mode glob immed : Arg M)

/-- The first argument of `trusted.allow`. -/
inductive Modules (M : Type)
  | single (v : Arg M)
  | list (items : List (Item M))

/-- An argument that an element of a list leaves out. -/
def Arg.or_default (a default : Arg M) : Arg M :=
  match a with
  | .nil => default
  | a => a

/-- The call for an element of a list. -/
def allow_item (mode glob immed : Arg M) (item : Item M) (s : State V M) :
    Except Err (Entry M) × State V M :=
  match item with
  | .plain v => pllua_trusted_allow host v .nil mode glob immed s
  | .fields e_mod e_new e_mode e_glob e_immed =>
    pllua_trusted_allow host e_mod e_new (if e_mode.toboolean then e_mode else mode)
      (e_glob.or_default glob) (e_immed.or_default immed) s

/-- The loop over a list, which an error ends: the entries that were made, and the state. -/
def allow_list (mode glob immed : Arg M) : List (Item M) → State V M →
    List (Entry M) × State V M
  | [], s => ([], s)
  | item :: items, s =>
    match allow_item host mode glob immed item s with
    | (.error _, s) => ([], s)
    | (.ok e, s) =>
      have rest := allow_list mode glob immed items s
      (e :: rest.1, rest.2)

/-- The arguments of a call of `trusted.allow`. -/
structure Call (M : Type) where
  mod : Modules M
  new : Arg M
  mode : Arg M
  glob : Arg M
  immed : Arg M

/-- `lib.allow`: a first argument that is neither a string nor a table does nothing. -/
def lib_allow (c : Call M) (s : State V M) : List (Entry M) × State V M :=
  match c.mod with
  | .single (.string m) =>
    match pllua_trusted_allow host (.string m) c.new c.mode c.glob c.immed s with
    | (.error _, s) => ([], s)
    | (.ok e, s) => ([e], s)
  | .single _ => ([], s)
  | .list items => allow_list host c.mode c.glob c.immed items s

/-- `lib.require` -/
def lib_require (mod : Modules M) (new mode : Arg M) (s : State V M) :
    List (Entry M) × State V M :=
  lib_allow host ⟨mod, new, mode, .boolean true, .nil⟩ s

/-- Calls one after the other: all entries that were made. -/
def run_calls : List (Call M) → State V M → List (Entry M) × State V M
  | [], s => ([], s)
  | c :: cs, s =>
    have first := lib_allow host c s
    have rest := run_calls cs first.2
    (first.1 ++ rest.1, rest.2)

/-! ## Removing a module -/

/-- `pllua_trusted_remove` -/
def pllua_trusted_remove (name glob : Arg M) (s : State V M) : Except Err Unit × State V M :=
  match checkstring 1 name with
  | .error e => (.error e, s)
  | .ok name =>
    match global_name 2 name glob with
    | .error e => (.error e, s)
    | .ok key =>
      match rawset s.sandbox key none with
      | .error e => (.error e, s)
      | .ok sandbox =>
        (.ok (),
          { allow := Function.update s.allow name none
            loaded := Function.update s.loaded name none
            sandbox })

/-! ## What a call enters -/

/-- The argument says which global variable it is. -/
def Arg.names_global : Arg M → Prop
  | .string _ => True
  | .number _ => True
  | .boolean b => b = true
  | _ => False

theorem global_name_cases (n : Nat) (name : Name) (glob : Arg M) :
    (glob.names_global ∧ ∃ g, global_name n name glob = .ok (some g)) ∨
      (¬ glob.names_global ∧ ∀ g, global_name n name glob ≠ .ok (some g)) := by
  cases glob with
  | string s => exact Or.inl ⟨trivial, s, rfl⟩
  | number text => exact Or.inl ⟨trivial, text, rfl⟩
  | boolean b =>
    cases b with
    | true => exact Or.inl ⟨rfl, name, rfl⟩
    | false => exact Or.inr ⟨Bool.false_ne_true, fun g h => (by cases h)⟩
  | nil => exact Or.inr ⟨id, fun g h => (by cases h)⟩
  | func mode => exact Or.inr ⟨id, fun g h => (by cases h)⟩
  | other => exact Or.inr ⟨id, fun g h => (by cases h)⟩

/-! ## What a call of `remove` takes out -/

/-- The name is gone from the tables, and so is its variable. Nothing else is changed. -/
structure Undone (s s' : State V M) (name : Name) (glob : Arg M) : Prop where
  allow : s'.allow = Function.update s.allow name none
  loaded : s'.loaded = Function.update s.loaded name none
  sandbox : ∀ g, global_name 2 name glob = .ok (some g) →
    s'.sandbox = Function.update s.sandbox g none
  untouched : (∀ g, global_name 2 name glob ≠ .ok (some g)) → s'.sandbox = s.sandbox

/-- The call succeeds and undoes the entry. -/
def Undoes (s : State V M) (e : Entry M) : Prop :=
  ∃ s', pllua_trusted_remove (.string e.name) e.glob s = (.ok (), s') ∧
    Undone s s' e.name e.glob

/-- With a global variable nothing stays. -/
theorem remove_named {name : Arg M} {n : Name} (hname : checkstring 1 name = .ok n) {glob : Arg M}
    (h : glob.names_global) (s : State V M) :
    ∃ s', pllua_trusted_remove name glob s = (.ok (), s') ∧ Undone s s' n glob := by
  rcases global_name_cases 2 n glob with ⟨-, g, hg⟩ | ⟨hnot, -⟩
  · have hremove : pllua_trusted_remove name glob s =
        (.ok (), ⟨Function.update s.allow n none, Function.update s.loaded n none,
          Function.update s.sandbox g none⟩) := by
      simp [pllua_trusted_remove, hname, hg, rawset]
    refine ⟨_, hremove, ⟨rfl, rfl, fun g' hg' => ?_, ?_⟩⟩
    · rw [hg] at hg'
      cases hg'
      rfl
    · exact fun hnone => absurd hg (hnone g)
  · exact absurd h hnot

/-- Without one the call fails before it has changed anything. -/
theorem remove_unnamed (name : Arg M) {glob : Arg M} (h : ¬ glob.names_global) (s : State V M) :
    ∃ e, pllua_trusted_remove name glob s = (.error e, s) := by
  unfold pllua_trusted_remove
  cases checkstring 1 name with
  | error e => exact ⟨e, rfl⟩
  | ok n =>
    rcases global_name_cases 2 n glob with ⟨hnames, -⟩ | ⟨-, hnone⟩
    · exact absurd hnames h
    · dsimp only
      cases hkey : global_name 2 n glob with
      | error e => exact ⟨e, rfl⟩
      | ok key =>
        cases key with
        | none => exact ⟨.nil_index, rfl⟩
        | some g => exact absurd hkey (hnone g)

/-- A call of `remove` undoes the call that made the entry if and only if its argument names a global
variable; with any other argument all tables stay as they are. -/
theorem remove_undoes_iff (calls : List (Call M)) (s : State V M) :
    (∀ e ∈ (run_calls host calls s).1,
      Undoes (run_calls host calls s).2 e ↔ e.glob.names_global) ∧
    ∀ (s : State V M) (name glob : Arg M) (n : Name), checkstring 1 name = .ok n →
      ((∃ s', pllua_trusted_remove name glob s = (.ok (), s') ∧ Undone s s' n glob) ↔
        glob.names_global) := by
  have each (s : State V M) (name glob : Arg M) (n : Name) (hname : checkstring 1 name = .ok n) :
      (∃ s', pllua_trusted_remove name glob s = (.ok (), s') ∧ Undone s s' n glob) ↔
        glob.names_global := by
    refine ⟨fun ⟨s', hremove, _⟩ => ?_, fun h => remove_named hname h s⟩
    by_contra hnot
    obtain ⟨e, herror⟩ := remove_unnamed name hnot s
    rw [herror] at hremove
    cases hremove
  exact ⟨fun e _ => each _ (.string e.name) e.glob e.name rfl, each⟩

end

/-! ## The module `os` -/

/-- No module runs any code, and each is its name. -/
def plain_host : Host Name Unit where
  modes := fun _ => some ()
  load := fun _ modname s => (.ok (some modname), s)

def os : Name := [111, 115]

def empty_state : State Name Unit := ⟨fun _ => none, fun _ => none, fun _ => none⟩

/-- `trusted.allow("os", nil, nil, glob)` -/
def allow_os (glob : Arg Unit) : Call Unit := ⟨.single (.string os), .nil, .nil, glob, .nil⟩

/-- With `true` it is gone from all tables. -/
theorem named_os_undone :
    Undoes (run_calls plain_host [allow_os (.boolean true)] empty_state).2
      ⟨os, .boolean true⟩ :=
  ((remove_undoes_iff plain_host [allow_os (.boolean true)] empty_state).1 ⟨os, .boolean true⟩
    (List.mem_singleton.mpr rfl)).mpr rfl

/-- `trusted.allow("os")` and then `trusted.remove("os")`: the call fails and `os` is allowed. -/
theorem unnamed_os_stays :
    ¬ ∀ (host : Host Name Unit) (calls : List (Call Unit)) (s : State Name Unit),
      ∀ e ∈ (run_calls host calls s).1, Undoes (run_calls host calls s).2 e := by
  intro holds
  obtain ⟨s', hremove, -⟩ := holds plain_host [allow_os .nil] empty_state ⟨os, .nil⟩
    (List.mem_singleton.mpr rfl)
  cases hremove

end pllua.trusted
