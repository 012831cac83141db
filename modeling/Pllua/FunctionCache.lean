-- The cache of compiled functions (compile.c): function objects interned by oid, the
-- activations of call sites that point to them, and the loop that brings both up to date.
import Mathlib.Logic.Function.Basic
import Pllua.Runs

open pllua.runs

namespace pllua.compile

/-! ## The catalog and the function objects -/

abbrev Oid := Nat

/-- What tells two versions of a row of pg_proc apart: `xmin` and `t_self`. -/
structure Version where
  xmin : Nat
  tid : Nat × Nat
deriving DecidableEq, Repr

/-- A row of pg_proc, as far as it is read, with the trust of its language. -/
structure ProcTup where
  version : Version
  prorettype : Oid
  proretset : Bool
  proargtypes : List Oid
  provolatile : Bool
  lanpltrusted : Bool
deriving DecidableEq, Repr

/-- `pllua_function_info`, as far as an activation needs it. -/
structure FunctionInfo where
  fn_oid : Oid
  version : Version
  rettype : Oid
  returns_row : Bool
  retset : Bool
  polymorphic_ret : Bool
  readonly : Bool
  nargs : Nat
  argtypes : List Oid
  polymorphic : Bool
  trusted : Bool
deriving DecidableEq, Repr

/-- A `func_info`, and the function object that holds it once it is compiled. -/
abbrev FunctionId := Nat

abbrev ActivationId := Nat

/-- The call site: `flinfo`, whose expression decides the types of a polymorphic call. -/
structure FmgrInfo where
  fn_oid : Oid
  fn_expr : Nat
deriving DecidableEq, Repr

/-- `ReturnSetInfo`, or NULL: whether value-per-call mode is allowed. -/
abbrev ResultInfo := Option Bool

/-- `argtypes` of an activation: the list of its `func_info`, or one of its own. -/
inductive ArgTypes
  | shared (i : FunctionId)
  | own (types : List Oid)
deriving DecidableEq, Repr

/-- What `pllua_resolve_activation` sets. -/
structure Resolution where
  rettype : Oid
  retdomain : Bool
  polymorphic : Bool
  variadic_call : Bool
  nargs : Nat
  retset : Bool
  readonly : Bool
  argtypes : ArgTypes
deriving DecidableEq, Repr

/-- `pllua_func_activation`. The function object that it references from its user value
is its `member`. -/
structure Activation where
  flinfo : FmgrInfo
  func_info : Option FunctionId
  resolved : Bool
  resolution : Resolution
  member : Option FunctionId
deriving DecidableEq, Repr

/-- PostgreSQL's knowledge of types and call sites. -/
structure Types where
  type_is_rowtype : Oid → Bool
  IsPolymorphicType : Oid → Bool
  ANYOID : Oid
  is_domain : Oid → Bool
  get_call_result_type : FmgrInfo → ResultInfo → Option Oid
  get_fn_expr_variadic : FmgrInfo → Bool
  resolve_polymorphic_argtypes : FmgrInfo → List Oid → Option (List Oid)

section
variable (types : Types)

/-- `pllua_load_from_proctup`, apart from what compiling needs. -/
def pllua_load_from_proctup (fn_oid : Oid) (tup : ProcTup) (trusted : Bool) :
    Option FunctionInfo :=
  if tup.lanpltrusted = trusted then
    some
      { fn_oid
        version := tup.version
        rettype := tup.prorettype
        returns_row := types.type_is_rowtype tup.prorettype
        retset := tup.proretset
        polymorphic_ret := types.IsPolymorphicType tup.prorettype
        readonly := !tup.provolatile
        nargs := tup.proargtypes.length
        argtypes := tup.proargtypes
        polymorphic := tup.proargtypes.any fun t => types.IsPolymorphicType t || t = types.ANYOID
        trusted }
  else none

/-- `pllua_resolve_activation` for an activation that is not resolved. -/
def pllua_resolve_activation (flinfo : FmgrInfo) (rsi : ResultInfo) (i : FunctionId)
    (info : FunctionInfo) : Option Resolution := do
  let rettype ←
    if info.polymorphic_ret || info.returns_row then types.get_call_result_type flinfo rsi
    else some info.rettype
  let argtypes ←
    if info.polymorphic then
      (types.resolve_polymorphic_argtypes flinfo info.argtypes).map ArgTypes.own
    else some (.shared i)
  return {
    rettype
    retdomain := types.is_domain rettype
    polymorphic := info.polymorphic
    variadic_call := types.get_fn_expr_variadic flinfo
    nargs := info.nargs
    retset := info.retset
    readonly := info.readonly
    argtypes }

/-! ## The state -/

inductive Point
  /-- at the head of the loop -/
  | looping
  /-- `pllua_compile` runs the user's code -/
  | compiling (i : FunctionId)
deriving DecidableEq, Repr

/-- A call of `pllua_validate_and_push` that has not ended. -/
structure Frame where
  act : ActivationId
  rsi : ResultInfo
  trusted : Bool
  point : Point
deriving DecidableEq, Repr

/-- How a step ends. -/
inductive Outcome
  | none
  /-- it returns the activation; the row is the one of the last iteration -/
  | returned (a : ActivationId) (tup : ProcTup)
  | raised (a : ActivationId)

structure State where
  /-- the rows that `SearchSysCache1` finds -/
  catalog : Oid → Option ProcTup
  /-- all rows that a function ever had, the newest first -/
  history : Oid → List ProcTup
  infos : FunctionId → FunctionInfo
  freed : FunctionId → Bool
  next : FunctionId
  /-- the table in the registry under `PLLUA_FUNCS` -/
  funcs : Oid → Option FunctionId
  /-- those in the registry under `PLLUA_ACTIVATIONS` -/
  acts : ActivationId → Option Activation
  next_act : ActivationId
  /-- innermost first -/
  frames : List Frame
  outcome : Outcome

/-- What may fail in a step, for want of memory or since a type cannot be found. -/
structure Luck where
  newactivation : Bool
  unintern : Bool
  load : Bool
  setactivation : Bool
  /-- `pllua_setactivation` fails when it stores the reference to the object -/
  setactivation_store : Bool
  intern : Bool

def good_luck : Luck := ⟨false, false, false, false, false, false⟩

/-- `pllua_function_valid`. -/
def pllua_function_valid (s : State) (i : Option FunctionId) (tup : ProcTup) : Bool :=
  match i with
  | some i => (s.infos i).version = tup.version
  | none => false

def State.set_act (s : State) (a : ActivationId) (act : Activation) : State :=
  { s with acts := Function.update s.acts a (some act) }

/-- The error goes on to the caller. -/
def State.raise (s : State) (f : Frame) (frames : List Frame) : State :=
  { s with frames, outcome := .raised f.act }

/-! ## The loop -/

/-- The rest of `pllua_validate_and_push` after the loop. -/
def finish (f : Frame) (frames : List Frame) (act : Activation) (tup : ProcTup) (s : State) :
    State :=
  match act.func_info with
  | none => s.raise f frames
  | some i =>
    if (s.infos i).retset && f.rsi ≠ some true then s.raise f frames
    else if act.resolved then { s with frames, outcome := .returned f.act tup }
    else
      match pllua_resolve_activation types act.flinfo f.rsi i (s.infos i) with
      | none => s.raise f frames
      | some resolution =>
        { s.set_act f.act { act with resolution, resolved := true } with
          frames, outcome := .returned f.act tup }

/-- The function is to be compiled: its row is loaded, and the activation is resolved. -/
def start_compile (luck : Luck) (f : Frame) (frames : List Frame) (act : Activation)
    (tup : ProcTup) (s : State) : State :=
  let act := { act with resolved := false, func_info := none }
  let s := s.set_act f.act act
  if luck.load then s.raise f frames
  else
    match pllua_load_from_proctup types act.flinfo.fn_oid tup f.trusted with
    | none => s.raise f frames
    | some info =>
      let i := s.next
      let s := { s with infos := Function.update s.infos i info, next := i + 1 }
      match pllua_resolve_activation types act.flinfo f.rsi i info with
      | none => s.raise f frames
      | some resolution =>
        { s.set_act f.act { act with resolution, resolved := true } with
          frames := { f with point := .compiling i } :: frames, outcome := .none }

/-- `pllua_setactivation`, and what follows. -/
def pllua_setactivation (luck : Luck) (f : Frame) (frames : List Frame) (act : Activation)
    (i : FunctionId) (tup : ProcTup) (s : State) : State :=
  if luck.setactivation then s.raise f frames
  else
    let act := { act with func_info := some i, resolved := false }
    if luck.setactivation_store then (s.set_act f.act act).raise f frames
    else
      let act := { act with member := some i }
      finish types f frames act tup (s.set_act f.act act)

/-- One iteration of the loop, up to the compile. -/
def iterate (luck : Luck) (f : Frame) (frames : List Frame) (act : Activation) (s : State) :
    State :=
  match s.catalog act.flinfo.fn_oid with
  | none => s.raise f frames
  | some tup =>
    if pllua_function_valid s act.func_info tup then finish types f frames act tup s
    else
      match s.funcs act.flinfo.fn_oid with
      | some i =>
        if pllua_function_valid s (some i) tup then
          pllua_setactivation types luck f frames act i tup s
        else if luck.unintern then s.raise f frames
        else
          start_compile types luck f frames act tup
            { s with funcs := Function.update s.funcs act.flinfo.fn_oid none }
      | none => start_compile types luck f frames act tup s

/-- `pllua_intern_function` for an object. -/
def pllua_intern_function (oid : Oid) (i : FunctionId) (s : State) : State :=
  match s.funcs oid with
  | some _ => s
  | none => { s with funcs := Function.update s.funcs oid (some i) }

/-- The rest of the iteration when `pllua_compile` has ended. -/
def compiled (luck : Luck) (ok : Bool) (i : FunctionId) (f : Frame) (frames : List Frame)
    (act : Activation) (s : State) : State :=
  if ok then
    if luck.intern then s.raise f frames
    else
      { pllua_intern_function act.flinfo.fn_oid i s with
        frames := { f with point := .looping } :: frames, outcome := .none }
  else
    ({ s.set_act f.act { act with resolved := false } with
      freed := Function.update s.freed i true }).raise f frames

/-- `pllua_validate_and_push` up to the loop, for a call site that has an activation or
none yet. -/
def pllua_validate_and_push (luck : Luck) (a : Option ActivationId) (flinfo : FmgrInfo)
    (rsi : ResultInfo) (trusted : Bool) (s : State) : State :=
  match a with
  | some a =>
    match s.acts a with
    | some _ => { s with frames := ⟨a, rsi, trusted, .looping⟩ :: s.frames, outcome := .none }
    | none => { s with outcome := .none }
  | none =>
    if luck.newactivation then { s with outcome := .none }
    else
      let a := s.next_act
      { s.set_act a ⟨flinfo, none, false, ⟨0, false, false, false, 0, false, false, .own []⟩, none⟩
        with
        next_act := a + 1
        frames := ⟨a, rsi, trusted, .looping⟩ :: s.frames
        outcome := .none }

/-! ## Runs -/

inductive Action
  /-- a call, nested in the user's code of a compile or not. It is one of a call site that
  has an activation, or of a new call site. -/
  | call (luck : Luck) (a : Option ActivationId) (flinfo : FmgrInfo) (rsi : ResultInfo)
      (trusted : Bool)
  | iterate (luck : Luck)
  | compiled (luck : Luck) (ok : Bool)
  /-- CREATE OR REPLACE or ALTER FUNCTION -/
  | replace (oid : Oid) (tup : ProcTup)
  | drop (oid : Oid)
  /-- a transaction with a change of the function is rolled back -/
  | rollback (oid : Oid) (tup : ProcTup)
  /-- a function object is collected -/
  | gc (i : FunctionId)
  /-- the memory context of a call site is reset -/
  | free (a : ActivationId)

/-- The function that a call is compiling. -/
def Frame.compiling (f : Frame) : Option FunctionId :=
  match f.point with
  | .looping => none
  | .compiling i => some i

/-- No table and no activation has the object, and no call is about to make it. An object
is interned under its own oid only. -/
def Unreferenced (s : State) (i : FunctionId) : Prop :=
  i < s.next ∧ s.funcs (s.infos i).fn_oid ≠ some i ∧
    (∀ a < s.next_act, (s.acts a).all fun act => act.member ≠ some i) ∧
    i ∉ s.frames.filterMap Frame.compiling

instance (s : State) (i : FunctionId) : Decidable (Unreferenced s i) :=
  inferInstanceAs (Decidable (_ ∧ _ ∧ _ ∧ _))

/-- One step. An action that does not fit the state changes nothing. -/
def step (s : State) : Action → State
  | .call luck a flinfo rsi trusted =>
    match s.frames with
    | ⟨_, _, _, .looping⟩ :: _ => { s with outcome := .none }
    | _ => pllua_validate_and_push luck a flinfo rsi trusted s
  | .iterate luck =>
    match s.frames with
    | f :: frames =>
      match f.point, s.acts f.act with
      | .looping, some act => iterate types luck f frames act s
      | _, _ => { s with outcome := .none }
    | [] => { s with outcome := .none }
  | .compiled luck ok =>
    match s.frames with
    | f :: frames =>
      match f.point, s.acts f.act with
      | .compiling i, some act => compiled luck ok i f frames act s
      | _, _ => { s with outcome := .none }
    | [] => { s with outcome := .none }
  | .replace oid tup =>
    if tup.version ∈ (s.history oid).map ProcTup.version then { s with outcome := .none }
    else
      { s with
        catalog := Function.update s.catalog oid (some tup)
        history := Function.update s.history oid (tup :: s.history oid)
        outcome := .none }
  | .drop oid => { s with catalog := Function.update s.catalog oid none, outcome := .none }
  | .rollback oid tup =>
    if tup ∈ s.history oid then
      { s with catalog := Function.update s.catalog oid (some tup), outcome := .none }
    else { s with outcome := .none }
  | .gc i =>
    if Unreferenced s i then
      { s with freed := Function.update s.freed i true, outcome := .none }
    else { s with outcome := .none }
  | .free a =>
    if a ∈ s.frames.map Frame.act then { s with outcome := .none }
    else { s with acts := Function.update s.acts a none, outcome := .none }

end

/-- A new interpreter. -/
def start (catalog : Oid → Option ProcTup) : State where
  catalog := catalog
  history := fun oid => (catalog oid).toList
  infos := fun _ => ⟨0, ⟨0, 0, 0⟩, 0, false, false, false, false, 0, [], false, false⟩
  freed := fun _ => false
  next := 0
  funcs := fun _ => none
  acts := fun _ => none
  next_act := 0
  frames := []
  outcome := .none

/-! ## The law -/

section
variable (types : Types)

/-- The version is the other one, or was created after it. -/
def AtLeastAsNew (s : State) (oid : Oid) (w v : Version) : Prop :=
  w = v ∨ ∃ l m r, (s.history oid).map ProcTup.version = l ++ w :: m ++ v :: r

/-- The activation is resolved against the `func_info`. -/
def Resolves (s : State) (act : Activation) (i : FunctionId) : Prop :=
  act.resolved = true ∧ ∃ rsi,
    pllua_resolve_activation types act.flinfo rsi i (s.infos i) = some act.resolution

/-- The law of a call that returns. -/
structure Valid (s : State) (act : Activation) (tup : ProcTup) : Prop where
  func_info : ∃ i, act.func_info = some i ∧ (s.infos i).version = tup.version ∧
    Resolves types s act i ∧ act.member = some i ∧ s.freed i = false
  interned : ∃ e, s.funcs act.flinfo.fn_oid = some e ∧ s.freed e = false ∧
    AtLeastAsNew s act.flinfo.fn_oid (s.infos e).version tup.version

/-- The law of a call that raises an error. -/
structure Deresolved (s : State) (act : Activation) : Prop where
  resolved : act.resolved = false
  func_info : ∀ i, act.func_info = some i → s.freed i = false

/-- The law of how a step ends. -/
def Ended (s : State) : Prop :=
  match s.outcome with
  | .none => True
  | .returned a tup => ∃ act, s.acts a = some act ∧ Valid types s act tup
  | .raised a => ∃ act, s.acts a = some act ∧ Deresolved s act

def Lawful (s : State) (a : Action) : Prop := Ended types (step types s a)

/-! ## The condition -/

/-- An iteration raises no error as long as its activation is resolved, and the reference
to the function object is stored. -/
def Spared (s : State) (luck : Luck) (f : Frame) (act : Activation) : Prop :=
  match s.catalog act.flinfo.fn_oid with
  | none => act.resolved = false
  | some tup =>
    if pllua_function_valid s act.func_info tup then
      ∀ i, act.func_info = some i → (s.infos i).retset = true → f.rsi ≠ some true →
        act.resolved = false
    else
      match s.funcs act.flinfo.fn_oid with
      | some i =>
        if pllua_function_valid s (some i) tup then
          (luck.setactivation = true → act.resolved = false) ∧ luck.setactivation_store = false
        else luck.unintern = true → act.resolved = false
      | none => True

/-- The condition of a step. No rollback brings back a version that an activation still
has and the table has lost. -/
def Met (s : State) : Action → Prop
  | .iterate luck =>
    ∀ f frames act, s.frames = f :: frames → f.point = .looping → s.acts f.act = some act →
      Spared s luck f act
  | .compiled luck ok =>
    ∀ f frames act i, s.frames = f :: frames → f.point = .compiling i →
      s.acts f.act = some act → ok = true → luck.intern = true → act.resolved = false
  | .rollback oid tup =>
    ∀ a act i, s.acts a = some act → act.flinfo.fn_oid = oid → act.func_info = some i →
      (s.infos i).version = tup.version →
      ∃ e, s.funcs oid = some e ∧ (s.infos e).version = tup.version
  | _ => True

/-! ## The invariant -/

/-- The function object exists, and no call is compiling it. -/
structure Live (s : State) (oid : Oid) (i : FunctionId) : Prop where
  created : i < s.next
  unfreed : s.freed i = false
  compiled : i ∉ s.frames.filterMap Frame.compiling
  oid : (s.infos i).fn_oid = oid

structure Inv (s : State) : Prop where
  /-- an activation references the object that it points to -/
  held : ∀ a act i, s.acts a = some act → act.func_info = some i → act.member = some i
  members : ∀ a act i, s.acts a = some act → act.member = some i → Live s act.flinfo.fn_oid i
  entries : ∀ oid e, s.funcs oid = some e → Live s oid e
  compiling : (s.frames.filterMap Frame.compiling).Nodup
  made : ∀ i ∈ s.frames.filterMap Frame.compiling, i < s.next ∧ s.freed i = false
  unmade : ∀ i, s.next ≤ i → s.freed i = false
  frames : ∀ f ∈ s.frames, ∃ act, s.acts f.act = some act ∧
    ∀ i, f.compiling = some i → (s.infos i).fn_oid = act.flinfo.fn_oid
  resolved : ∀ a act i, s.acts a = some act → act.func_info = some i → act.resolved = true →
    Resolves types s act i
  known : ∀ i < s.next, (s.infos i).version ∈ (s.history (s.infos i).fn_oid).map ProcTup.version
  current : ∀ oid tup, s.catalog oid = some tup → tup ∈ s.history oid
  numbered : ∀ a, s.next_act ≤ a → s.acts a = none
  /-- an activation that is up to date is not ahead of the table -/
  interned : ∀ a act i tup, s.acts a = some act → act.func_info = some i →
    s.catalog act.flinfo.fn_oid = some tup → (s.infos i).version = tup.version →
    ∃ e, s.funcs act.flinfo.fn_oid = some e ∧ (s.infos e).version = tup.version

/-! ## Changes of one part -/

variable {types}

theorem Live.weaken {s s' : State} {oid : Oid} {i : FunctionId} (h : Live s oid i)
    (hnext : s.next ≤ s'.next) (hfreed : s'.freed i = s.freed i) (hinfo : s'.infos i = s.infos i)
    (hframes : i ∈ s'.frames.filterMap Frame.compiling → i ∈ s.frames.filterMap Frame.compiling) :
    Live s' oid i where
  created := Nat.lt_of_lt_of_le h.created hnext
  unfreed := hfreed.trans h.unfreed
  compiled hm := h.compiled (hframes hm)
  oid := by
    rw [hinfo]
    exact h.oid

theorem mem_compiling_tail {f : Frame} {frames : List Frame} {i : FunctionId}
    (h : i ∈ frames.filterMap Frame.compiling) : i ∈ (f :: frames).filterMap Frame.compiling := by
  rw [List.filterMap_cons]
  split
  · exact h
  · exact List.mem_cons_of_mem _ h

/-- The innermost call ends. -/
theorem Inv.pop {s : State} {f : Frame} {frames : List Frame} (h : Inv types s)
    (hf : s.frames = f :: frames) (outcome : Outcome) : Inv types { s with frames, outcome } := by
  have hlive : ∀ {oid i}, Live s oid i → Live { s with frames, outcome } oid i := by
    intro oid i hl
    refine hl.weaken (Nat.le_refl _) rfl rfl ?_
    intro hm
    rw [hf]
    exact mem_compiling_tail hm
  constructor
  case held => exact h.held
  case members => exact fun a act i ha hm => hlive (h.members a act i ha hm)
  case entries => exact fun oid e he => hlive (h.entries oid e he)
  case unmade => exact h.unmade
  case compiling =>
    have hn := h.compiling
    rw [hf, List.filterMap_cons] at hn
    split at hn
    · exact hn
    · exact (List.nodup_cons.mp hn).2
  case made =>
    intro i hi
    apply h.made
    rw [hf]
    exact mem_compiling_tail hi
  case frames =>
    intro g hg
    apply h.frames
    rw [hf]
    exact List.mem_cons_of_mem f hg
  case resolved => exact h.resolved
  case known => exact h.known
  case current => exact h.current
  case numbered => exact h.numbered
  case interned => exact h.interned

/-- An activation changes. -/
theorem Inv.set_act {s : State} {a : ActivationId} {old act : Activation} (h : Inv types s)
    (ha : s.acts a = some old) (hflinfo : act.flinfo = old.flinfo)
    (hheld : ∀ i, act.func_info = some i → act.member = some i)
    (hmember : ∀ i, act.member = some i → Live s act.flinfo.fn_oid i)
    (hresolved : ∀ i, act.func_info = some i → act.resolved = true → Resolves types s act i)
    (hinterned : ∀ i tup, act.func_info = some i → s.catalog act.flinfo.fn_oid = some tup →
      (s.infos i).version = tup.version →
      ∃ e, s.funcs act.flinfo.fn_oid = some e ∧ (s.infos e).version = tup.version) :
    Inv types (s.set_act a act) := by
  have hcases : ∀ b x, (s.set_act a act).acts b = some x → (b = a ∧ x = act) ∨ s.acts b = some x := by
    intro b x hb
    by_cases hba : b = a
    · subst hba
      simp only [State.set_act, Function.update_self, Option.some.injEq] at hb
      exact Or.inl ⟨rfl, hb.symm⟩
    · simp only [State.set_act, Function.update_of_ne hba] at hb
      exact Or.inr hb
  have hlive : ∀ {oid i}, Live s oid i → Live (s.set_act a act) oid i :=
    fun hl => hl.weaken (Nat.le_refl _) rfl rfl id
  constructor
  case held =>
    intro b x i hb hi
    rcases hcases b x hb with ⟨-, rfl⟩ | hold
    · exact hheld i hi
    · exact h.held b x i hold hi
  case members =>
    intro b x i hb hi
    rcases hcases b x hb with ⟨-, rfl⟩ | hold
    · exact hlive (hmember i hi)
    · exact hlive (h.members b x i hold hi)
  case entries => exact fun oid e he => hlive (h.entries oid e he)
  case compiling => exact h.compiling
  case made => exact h.made
  case unmade => exact h.unmade
  case frames =>
    intro f hf
    obtain ⟨x, hx, hoid⟩ := h.frames f hf
    by_cases hfa : f.act = a
    · rw [hfa, ha] at hx
      cases hx
      refine ⟨act, by simp [State.set_act, hfa], ?_⟩
      rw [hflinfo]
      exact hoid
    · exact ⟨x, by simpa [State.set_act, Function.update_of_ne hfa] using hx, hoid⟩
  case resolved =>
    intro b x i hb hi hr
    rcases hcases b x hb with ⟨-, rfl⟩ | hold
    · exact hresolved i hi hr
    · exact h.resolved b x i hold hi hr
  case known => exact h.known
  case current => exact h.current
  case numbered =>
    intro b hb
    have hba : b ≠ a := by
      intro heq
      rw [heq] at hb
      rw [h.numbered a hb] at ha
      cases ha
    simp only [State.set_act, Function.update_of_ne hba]
    exact h.numbered b hb
  case interned =>
    intro b x i tup hb hi hc hv
    rcases hcases b x hb with ⟨-, rfl⟩ | hold
    · exact hinterned i tup hi hc hv
    · exact h.interned b x i tup hold hi hc hv

/-- An object is freed that nothing has. -/
theorem Inv.free_info {s : State} {i : FunctionId} (h : Inv types s) (hi : i < s.next)
    (hcompiling : i ∉ s.frames.filterMap Frame.compiling)
    (hentries : ∀ oid, s.funcs oid ≠ some i)
    (hmembers : ∀ a act, s.acts a = some act → act.member ≠ some i) :
    Inv types { s with freed := Function.update s.freed i true } := by
  have hlive : ∀ {oid j}, j ≠ i → Live s oid j →
      Live { s with freed := Function.update s.freed i true } oid j :=
    fun hj hl => hl.weaken (Nat.le_refl _) (Function.update_of_ne hj _ _) rfl id
  constructor
  case held => exact h.held
  case members =>
    intro a act j ha hj
    have hne : j ≠ i := fun he => hmembers a act ha (he ▸ hj)
    exact hlive hne (h.members a act j ha hj)
  case entries =>
    intro oid e he
    have hne : e ≠ i := fun heq => hentries oid (heq ▸ he)
    exact hlive hne (h.entries oid e he)
  case compiling => exact h.compiling
  case made =>
    intro j hj
    have hne : j ≠ i := fun he => hcompiling (he ▸ hj)
    obtain ⟨h1, h2⟩ := h.made j hj
    exact ⟨h1, (Function.update_of_ne hne _ _).trans h2⟩
  case unmade =>
    intro j hj
    have hne : j ≠ i := fun he => Nat.lt_irrefl _ (Nat.lt_of_lt_of_le hi (he ▸ hj))
    exact (Function.update_of_ne hne _ _).trans (h.unmade j hj)
  case frames => exact h.frames
  case resolved => exact h.resolved
  case known => exact h.known
  case current => exact h.current
  case numbered => exact h.numbered
  case interned => exact h.interned

/-- The catalog changes. -/
theorem Inv.set_catalog {s : State} (h : Inv types s) (oid : Oid) (row : Option ProcTup)
    (history : List ProcTup) (hhistory : ∀ t ∈ s.history oid, t ∈ history)
    (hrow : ∀ tup, row = some tup → tup ∈ history)
    (hinterned : ∀ a act i tup, s.acts a = some act → act.flinfo.fn_oid = oid →
      act.func_info = some i → row = some tup → (s.infos i).version = tup.version →
      ∃ e, s.funcs oid = some e ∧ (s.infos e).version = tup.version) (outcome : Outcome) :
    Inv types { s with
      catalog := Function.update s.catalog oid row
      history := Function.update s.history oid history
      outcome } := by
  have hsub : ∀ o, ∀ t ∈ s.history o, t ∈ Function.update s.history oid history o := by
    intro o t ht
    by_cases ho : o = oid
    · subst ho
      rw [Function.update_self]
      exact hhistory t ht
    · rw [Function.update_of_ne ho]
      exact ht
  have hlive : ∀ {o i}, Live s o i → Live { s with
      catalog := Function.update s.catalog oid row
      history := Function.update s.history oid history
      outcome } o i := fun hl => hl.weaken (Nat.le_refl _) rfl rfl id
  constructor
  case held => exact h.held
  case members => exact fun a act i ha hm => hlive (h.members a act i ha hm)
  case entries => exact fun o e he => hlive (h.entries o e he)
  case compiling => exact h.compiling
  case made => exact h.made
  case unmade => exact h.unmade
  case frames => exact h.frames
  case resolved => exact h.resolved
  case known =>
    intro i hi
    obtain ⟨t, ht, heq⟩ := List.mem_map.mp (h.known i hi)
    exact List.mem_map.mpr ⟨t, hsub _ t ht, heq⟩
  case current =>
    intro o tup ho
    by_cases hoid : o = oid
    · subst hoid
      simp only [Function.update_self] at ho ⊢
      exact hrow tup ho
    · simp only [Function.update_of_ne hoid] at ho ⊢
      exact h.current o tup ho
  case numbered => exact h.numbered
  case interned =>
    intro a act i tup ha hi hc hv
    by_cases hoid : act.flinfo.fn_oid = oid
    · simp only [hoid, Function.update_self] at hc ⊢
      exact hinterned a act i tup ha hoid hi hc hv
    · simp only [Function.update_of_ne hoid] at hc
      exact h.interned a act i tup ha hi hc hv

/-- An entry is taken out of the table, while no activation of the function is up to date. -/
theorem Inv.unintern {s : State} (h : Inv types s) (oid : Oid)
    (hstale : ∀ a act i tup, s.acts a = some act → act.flinfo.fn_oid = oid →
      act.func_info = some i → s.catalog oid = some tup → (s.infos i).version ≠ tup.version) :
    Inv types { s with funcs := Function.update s.funcs oid none } := by
  have hlive : ∀ {o i}, Live s o i → Live { s with funcs := Function.update s.funcs oid none } o i :=
    fun hl => hl.weaken (Nat.le_refl _) rfl rfl id
  constructor
  case held => exact h.held
  case members => exact fun a act i ha hm => hlive (h.members a act i ha hm)
  case entries =>
    intro o e he
    by_cases ho : o = oid
    · subst ho
      simp at he
    · simp only [Function.update_of_ne ho] at he
      exact hlive (h.entries o e he)
  case compiling => exact h.compiling
  case made => exact h.made
  case unmade => exact h.unmade
  case frames => exact h.frames
  case resolved => exact h.resolved
  case known => exact h.known
  case current => exact h.current
  case numbered => exact h.numbered
  case interned =>
    intro a act i tup ha hi hc hv
    by_cases ho : act.flinfo.fn_oid = oid
    · rw [ho] at hc
      exact absurd hv (hstale a act i tup ha ho hi hc)
    · simp only [Function.update_of_ne ho]
      exact h.interned a act i tup ha hi hc hv

/-- An activation that is not up to date. -/
theorem stale_of_entry {s : State} (h : Inv types s) {oid : Oid} {e : FunctionId} {tup : ProcTup}
    (he : s.funcs oid = some e) (hc : s.catalog oid = some tup)
    (hstale : (s.infos e).version ≠ tup.version) (a : ActivationId) (act : Activation)
    (i : FunctionId) (tup' : ProcTup) (ha : s.acts a = some act) (ho : act.flinfo.fn_oid = oid)
    (hi : act.func_info = some i) (hc' : s.catalog oid = some tup') :
    (s.infos i).version ≠ tup'.version := by
  intro hv
  rw [hc] at hc'
  cases hc'
  rw [← ho] at hc
  obtain ⟨e', he', hv'⟩ := h.interned a act i tup ha hi hc hv
  rw [ho, he] at he'
  cases he'
  exact hstale hv'

/-- A compiled object is interned, unless there is one. -/
theorem Inv.intern {s : State} (h : Inv types s) {oid : Oid} {i : FunctionId}
    (hi : Live s oid i) : Inv types (pllua_intern_function oid i s) := by
  unfold pllua_intern_function
  split
  · exact h
  · rename_i hnone
    have hlive : ∀ {o j}, Live s o j →
        Live { s with funcs := Function.update s.funcs oid (some i) } o j :=
      fun hl => hl.weaken (Nat.le_refl _) rfl rfl id
    constructor
    case held => exact h.held
    case members => exact fun a act j ha hm => hlive (h.members a act j ha hm)
    case entries =>
      intro o e he
      by_cases ho : o = oid
      · subst ho
        simp only [Function.update_self, Option.some.injEq] at he
        subst he
        exact hlive hi
      · simp only [Function.update_of_ne ho] at he
        exact hlive (h.entries o e he)
    case compiling => exact h.compiling
    case made => exact h.made
    case unmade => exact h.unmade
    case frames => exact h.frames
    case resolved => exact h.resolved
    case known => exact h.known
    case current => exact h.current
    case numbered => exact h.numbered
    case interned =>
      intro a act j tup ha hj hc hv
      obtain ⟨e, he, hv'⟩ := h.interned a act j tup ha hj hc hv
      have hne : act.flinfo.fn_oid ≠ oid := by
        intro ho
        rw [ho, hnone] at he
        cases he
      exact ⟨e, by simp only [Function.update_of_ne hne]; exact he, hv'⟩

/-! ## The ends of a call -/

theorem ended_raised {s : State} {a : ActivationId} {act : Activation} (h : Inv types s)
    (hout : s.outcome = .raised a) (ha : s.acts a = some act) (hr : act.resolved = false) :
    Ended types s := by
  unfold Ended
  rw [hout]
  refine ⟨act, ha, hr, ?_⟩
  intro i hi
  exact (h.members a act i ha (h.held a act i ha hi)).unfreed

theorem ended_returned {s : State} {a : ActivationId} {act : Activation} {i : FunctionId}
    {tup : ProcTup} (h : Inv types s) (hout : s.outcome = .returned a tup)
    (ha : s.acts a = some act) (hi : act.func_info = some i)
    (hc : s.catalog act.flinfo.fn_oid = some tup) (hv : (s.infos i).version = tup.version)
    (hr : act.resolved = true) : Ended types s := by
  have hmember := h.held a act i ha hi
  obtain ⟨e, he, hve⟩ := h.interned a act i tup ha hi hc hv
  unfold Ended
  rw [hout]
  refine ⟨act, ha, ⟨i, hi, hv, h.resolved a act i ha hi hr, hmember, ?_⟩, ⟨e, he, ?_, ?_⟩⟩
  · exact (h.members a act i ha hmember).unfreed
  · exact (h.entries _ e he).unfreed
  · exact Or.inl hve

/-- A step that keeps the invariant and ends as it should. -/
def Good (types : Types) (s : State) : Prop := Inv types s ∧ Ended types s

/-- An error leaves an activation that is not resolved. -/
theorem good_raise {s : State} {f : Frame} {frames : List Frame} {act : Activation}
    (h : Inv types s) (hf : s.frames = f :: frames) (ha : s.acts f.act = some act)
    (hr : act.resolved = false) : Good types (s.raise f frames) := by
  have hpop : Inv types (s.raise f frames) := h.pop hf (.raised f.act)
  exact ⟨hpop, ended_raised hpop rfl ha hr⟩

/-- A call returns an activation that is up to date and resolved. -/
theorem good_return {s : State} {f : Frame} {frames : List Frame} {act : Activation}
    {i : FunctionId} {tup : ProcTup} (h : Inv types s) (hf : s.frames = f :: frames)
    (ha : s.acts f.act = some act) (hi : act.func_info = some i)
    (hc : s.catalog act.flinfo.fn_oid = some tup) (hv : (s.infos i).version = tup.version)
    (hr : act.resolved = true) :
    Good types { s with frames, outcome := .returned f.act tup } := by
  have hpop := h.pop hf (.returned f.act tup)
  exact ⟨hpop, ended_returned hpop rfl ha hi hc hv hr⟩

theorem set_act_self (s : State) (a : ActivationId) (act : Activation) :
    (s.set_act a act).acts a = some act := by
  simp [State.set_act]

/-- The activation is resolved against the `func_info` that it has. -/
theorem Inv.resolve {s : State} {a : ActivationId} {act : Activation} {i : FunctionId}
    {rsi : ResultInfo} {resolution : Resolution} (h : Inv types s) (ha : s.acts a = some act)
    (hi : act.func_info = some i)
    (hres : pllua_resolve_activation types act.flinfo rsi i (s.infos i) = some resolution) :
    Inv types (s.set_act a { act with resolution, resolved := true }) := by
  refine h.set_act ha rfl ?_ ?_ ?_ ?_
  · exact fun j hj => h.held a act j ha hj
  · exact fun j hj => h.members a act j ha hj
  · intro j hj _
    have hij : i = j := Option.some.inj (hi.symm.trans hj)
    subst hij
    exact ⟨rfl, rsi, hres⟩
  · exact fun j tup' hj hc' hv' => h.interned a act j tup' ha hj hc' hv'

theorem good_finish {s : State} {f : Frame} {frames : List Frame} {act : Activation}
    {i : FunctionId} {tup : ProcTup} (h : Inv types s) (hf : s.frames = f :: frames)
    (ha : s.acts f.act = some act) (hi : act.func_info = some i)
    (hc : s.catalog act.flinfo.fn_oid = some tup) (hv : (s.infos i).version = tup.version)
    (hset : (s.infos i).retset = true → f.rsi ≠ some true → act.resolved = false) :
    Good types (finish types f frames act tup s) := by
  unfold finish
  split
  · rename_i hnone
    rw [hnone] at hi
    cases hi
  · rename_i j hj
    obtain rfl : i = j := Option.some.inj (hi.symm.trans hj)
    split
    · rename_i hbad
      simp only [ne_eq, Bool.and_eq_true, decide_eq_true_eq] at hbad
      exact good_raise h hf ha (hset hbad.1 hbad.2)
    · split
      · rename_i hr
        exact good_return h hf ha hi hc hv hr
      · rename_i hr
        have hr' : act.resolved = false := by simpa using hr
        split
        · exact good_raise h hf ha hr'
        · rename_i resolution hres
          exact good_return (h.resolve ha hi hres) hf (set_act_self s f.act _) hi hc hv rfl

/-- `pllua_setactivation` for the entry of the table. -/
theorem good_setactivation {s : State} {f : Frame} {frames : List Frame} {act : Activation}
    {i : FunctionId} {tup : ProcTup} (luck : Luck) (h : Inv types s) (hf : s.frames = f :: frames)
    (ha : s.acts f.act = some act) (he : s.funcs act.flinfo.fn_oid = some i)
    (hc : s.catalog act.flinfo.fn_oid = some tup) (hv : (s.infos i).version = tup.version)
    (hluck : (luck.setactivation = true → act.resolved = false) ∧
      luck.setactivation_store = false) :
    Good types (pllua_setactivation types luck f frames act i tup s) := by
  unfold pllua_setactivation
  split
  · rename_i hfail
    exact good_raise h hf ha (hluck.1 hfail)
  · simp only [hluck.2, Bool.false_eq_true, if_false]
    have hset : Inv types (s.set_act f.act
        { act with func_info := some i, resolved := false, member := some i }) := by
      refine h.set_act ha rfl (fun _ hj => hj) ?_ (fun _ _ hr => by cases hr) ?_
      · intro j hj
        cases hj
        exact h.entries _ i he
      · intro j tup' hj hc' hv'
        cases hj
        exact ⟨i, he, hv'⟩
    exact good_finish hset hf (set_act_self s f.act _) rfl hc hv fun _ _ => rfl

/-- The function object that a call begins to compile. -/
theorem Inv.new_info {s : State} {info : FunctionInfo} (h : Inv types s)
    (hknown : info.version ∈ (s.history info.fn_oid).map ProcTup.version) :
    Inv types { s with infos := Function.update s.infos s.next info, next := s.next + 1 } := by
  have hsame : ∀ i, i < s.next → Function.update s.infos s.next info i = s.infos i :=
    fun i hi => Function.update_of_ne (Nat.ne_of_lt hi) _ _
  have hlive : ∀ {o i}, Live s o i →
      Live { s with infos := Function.update s.infos s.next info, next := s.next + 1 } o i :=
    fun hl => hl.weaken (Nat.le_succ _) rfl (hsame _ hl.created) id
  have hmember : ∀ a act i, s.acts a = some act → act.func_info = some i → i < s.next :=
    fun a act i ha hi => (h.members a act i ha (h.held a act i ha hi)).created
  constructor
  case held => exact h.held
  case members => exact fun a act i ha hm => hlive (h.members a act i ha hm)
  case entries => exact fun o e he => hlive (h.entries o e he)
  case compiling => exact h.compiling
  case made => exact fun i hi => ⟨Nat.lt_succ_of_lt (h.made i hi).1, (h.made i hi).2⟩
  case unmade => exact fun i hi => h.unmade i (Nat.le_of_succ_le hi)
  case frames =>
    intro f hf
    obtain ⟨act, ha, hoid⟩ := h.frames f hf
    refine ⟨act, ha, ?_⟩
    intro i hi
    have hlt := (h.made i (List.mem_filterMap.mpr ⟨f, hf, hi⟩)).1
    simp only [hsame i hlt]
    exact hoid i hi
  case resolved =>
    intro a act i ha hi hr
    obtain ⟨h1, rsi, h2⟩ := h.resolved a act i ha hi hr
    refine ⟨h1, rsi, ?_⟩
    simp only [hsame i (hmember a act i ha hi)]
    exact h2
  case known =>
    intro i hi
    by_cases hn : i = s.next
    · subst hn
      simpa using hknown
    · have hlt : i < s.next := Nat.lt_of_le_of_ne (Nat.le_of_lt_succ hi) hn
      simp only [hsame i hlt]
      exact h.known i hlt
  case current => exact h.current
  case numbered => exact h.numbered
  case interned =>
    intro a act i tup ha hi hc hv
    simp only [hsame i (hmember a act i ha hi)] at hv
    obtain ⟨e, he, hve⟩ := h.interned a act i tup ha hi hc hv
    refine ⟨e, he, ?_⟩
    simp only [hsame e (h.entries _ e he).created]
    exact hve

/-- The innermost call goes on at another point. -/
theorem Inv.goto {s : State} {f : Frame} {frames : List Frame} (h : Inv types s)
    (hf : s.frames = f :: frames) (point : Point) (outcome : Outcome)
    (hpoint : ∀ i, point = .compiling i → i < s.next ∧ i ∉ s.frames.filterMap Frame.compiling ∧
      (∀ oid, s.funcs oid ≠ some i) ∧ (∀ a act, s.acts a = some act → act.member ≠ some i) ∧
      s.freed i = false ∧
      ∀ act, s.acts f.act = some act → (s.infos i).fn_oid = act.flinfo.fn_oid) :
    Inv types { s with frames := { f with point } :: frames, outcome } := by
  have hmem : ∀ i, i ∈ ({ f with point } :: frames).filterMap Frame.compiling →
      i ∈ frames.filterMap Frame.compiling ∨ point = .compiling i := by
    intro i hi
    rw [List.filterMap_cons] at hi
    cases point with
    | looping => exact Or.inl hi
    | compiling j =>
      rcases List.mem_cons.mp hi with rfl | hi
      · exact Or.inr rfl
      · exact Or.inl hi
  have htail : ∀ i, i ∈ frames.filterMap Frame.compiling → i ∈ s.frames.filterMap Frame.compiling := by
    intro i hi
    rw [hf]
    exact mem_compiling_tail hi
  have hlive : ∀ {o i}, (∀ j, point = .compiling j → j ≠ i) → Live s o i →
      Live { s with frames := { f with point } :: frames, outcome } o i := by
    intro o i hne hl
    refine hl.weaken (Nat.le_refl _) rfl rfl ?_
    intro hi
    rcases hmem i hi with hi | hi
    · exact htail i hi
    · exact absurd rfl (hne i hi)
  constructor
  case held => exact h.held
  case members =>
    intro a act i ha hm
    refine hlive ?_ (h.members a act i ha hm)
    intro j hj heq
    exact (hpoint j hj).2.2.2.1 a act ha (heq ▸ hm)
  case entries =>
    intro o e he
    refine hlive ?_ (h.entries o e he)
    intro j hj heq
    exact (hpoint j hj).2.2.1 o (heq ▸ he)
  case compiling =>
    have hn : (frames.filterMap Frame.compiling).Nodup := (h.pop hf .none).compiling
    simp only [List.filterMap_cons]
    cases point with
    | looping => exact hn
    | compiling i =>
      have hi := (hpoint i rfl).2.1
      exact List.nodup_cons.mpr ⟨fun hm => hi (htail i hm), hn⟩
  case made =>
    intro i hi
    rcases hmem i hi with hi | hi
    · exact h.made i (htail i hi)
    · exact ⟨(hpoint i hi).1, (hpoint i hi).2.2.2.2.1⟩
  case unmade => exact h.unmade
  case frames =>
    intro g hg
    rcases List.mem_cons.mp hg with rfl | hg
    · obtain ⟨act, ha, -⟩ := h.frames f (by rw [hf]; exact List.mem_cons_self)
      refine ⟨act, ha, ?_⟩
      intro i hi
      cases point with
      | looping => cases hi
      | compiling j =>
        cases hi
        exact (hpoint i rfl).2.2.2.2.2 act ha
    · exact h.frames g (by rw [hf]; exact List.mem_cons_of_mem f hg)
  case resolved => exact h.resolved
  case known => exact h.known
  case current => exact h.current
  case numbered => exact h.numbered
  case interned => exact h.interned

/-! ## Steps -/

theorem load_info {oid : Oid} {tup : ProcTup} {trusted : Bool} {info : FunctionInfo}
    (h : pllua_load_from_proctup types oid tup trusted = some info) :
    info.fn_oid = oid ∧ info.version = tup.version := by
  unfold pllua_load_from_proctup at h
  split at h
  · cases h
    exact ⟨rfl, rfl⟩
  · cases h

/-- An activation that keeps its call site and its object. -/
theorem set_act_acts {s : State} {a b : ActivationId} {act act' x : Activation}
    (ha : s.acts a = some act) (hflinfo : act'.flinfo = act.flinfo)
    (hmember : act'.member = act.member) (hb : (s.set_act a act').acts b = some x) :
    ∃ y, s.acts b = some y ∧ x.flinfo = y.flinfo ∧ x.member = y.member := by
  by_cases hba : b = a
  · subst hba
    simp only [State.set_act, Function.update_self, Option.some.injEq] at hb
    subst hb
    exact ⟨act, ha, hflinfo, hmember⟩
  · simp only [State.set_act, Function.update_of_ne hba] at hb
    exact ⟨x, hb, rfl, rfl⟩

/-- A call compiles a new object for an activation that has none. -/
theorem good_compiling {s : State} {f : Frame} {frames : List Frame} {act : Activation}
    {info : FunctionInfo} (h : Inv types s) (hf : s.frames = f :: frames)
    (ha : s.acts f.act = some act) (hnone : act.func_info = none)
    (hknown : info.version ∈ (s.history info.fn_oid).map ProcTup.version)
    (hoid : info.fn_oid = act.flinfo.fn_oid) (resolution : Resolution) :
    Good types
      { State.set_act
          { s with infos := Function.update s.infos s.next info, next := s.next + 1 }
          f.act { act with resolution, resolved := true } with
        frames := { f with point := .compiling s.next } :: frames, outcome := .none } := by
  have hinfo := h.new_info hknown
  have hset := @Inv.set_act types
    { s with infos := Function.update s.infos s.next info, next := s.next + 1 } f.act act
    { act with resolution, resolved := true } hinfo ha rfl
    (fun i hi => h.held f.act act i ha hi) (fun i hi => hinfo.members f.act act i ha hi)
    (fun i hi => absurd hi (by simp [hnone])) (fun i _ hi => absurd hi (by simp [hnone]))
  have hacts := fun b x => @set_act_acts
    { s with infos := Function.update s.infos s.next info, next := s.next + 1 } f.act b act
    { act with resolution, resolved := true } x ha rfl rfl
  refine ⟨hset.goto hf (.compiling s.next) .none ?_, trivial⟩
  intro i hi
  cases hi
  refine ⟨Nat.lt_succ_self _, ?_, ?_, ?_, h.unmade _ (Nat.le_refl _), ?_⟩
  · exact fun hm => Nat.lt_irrefl _ (h.made _ hm).1
  · exact fun oid he => Nat.lt_irrefl _ (h.entries oid _ he).created
  · intro b x hb hm
    obtain ⟨y, hy, -, hmember⟩ := hacts b x hb
    rw [hmember] at hm
    exact Nat.lt_irrefl _ (h.members b y _ hy hm).created
  · intro x hx
    obtain ⟨y, hy, hflinfo, -⟩ := hacts f.act x hx
    have hya : y = act := Option.some.inj (hy.symm.trans ha)
    have hnew : (Function.update s.infos s.next info s.next).fn_oid = act.flinfo.fn_oid := by
      rw [Function.update_self, hoid]
    rw [hflinfo, hya]
    exact hnew

theorem good_start_compile {s : State} {f : Frame} {frames : List Frame} {act : Activation}
    {tup : ProcTup} (luck : Luck) (h : Inv types s) (hf : s.frames = f :: frames)
    (ha : s.acts f.act = some act) (hc : s.catalog act.flinfo.fn_oid = some tup) :
    Good types (start_compile types luck f frames act tup s) := by
  have hset : Inv types (s.set_act f.act { act with resolved := false, func_info := none }) := by
    refine h.set_act ha rfl ?_ ?_ ?_ ?_
    · intro i hi
      cases hi
    · exact fun i hi => h.members f.act act i ha hi
    · intro i hi
      cases hi
    · intro i tup' hi
      cases hi
  have hself := set_act_self s f.act { act with resolved := false, func_info := none }
  unfold start_compile
  simp only
  split
  · exact good_raise hset hf hself rfl
  · split
    · exact good_raise hset hf hself rfl
    · rename_i info hload
      obtain ⟨hoid, hversion⟩ := load_info hload
      have hknown : info.version ∈ (s.history info.fn_oid).map ProcTup.version := by
        rw [hoid, hversion]
        exact List.mem_map_of_mem (h.current _ _ hc)
      split
      · exact good_raise (hset.new_info hknown) hf hself rfl
      · rename_i resolution hres
        exact good_compiling hset hf hself rfl hknown hoid resolution

theorem good_iterate {s : State} {f : Frame} {frames : List Frame} {act : Activation}
    (luck : Luck) (h : Inv types s) (hf : s.frames = f :: frames) (ha : s.acts f.act = some act)
    (hspared : Spared s luck f act) : Good types (iterate types luck f frames act s) := by
  unfold iterate
  unfold Spared at hspared
  split
  · rename_i hc
    rw [hc] at hspared
    exact good_raise h hf ha hspared
  · rename_i tup hc
    rw [hc] at hspared
    simp only at hspared
    split
    · rename_i hvalid
      rw [if_pos hvalid] at hspared
      cases hi : act.func_info with
      | none =>
        rw [hi] at hvalid
        cases hvalid
      | some i =>
        rw [hi] at hvalid
        exact good_finish h hf ha hi hc (of_decide_eq_true hvalid) (hspared i hi)
    · rename_i hvalid
      rw [if_neg hvalid] at hspared
      split
      · rename_i i he
        rw [he] at hspared
        simp only at hspared
        split
        · rename_i hv
          rw [if_pos hv] at hspared
          exact good_setactivation luck h hf ha he hc (of_decide_eq_true hv) hspared
        · rename_i hv
          rw [if_neg hv] at hspared
          split
          · rename_i hfail
            exact good_raise h hf ha (hspared hfail)
          · have hstale : (s.infos i).version ≠ tup.version := by
              intro heq
              exact hv (decide_eq_true heq)
            -- no activation has what the table lacks, so none is up to date here
            have hun := h.unintern act.flinfo.fn_oid (stale_of_entry h he hc hstale)
            exact good_start_compile luck hun hf ha hc
      · exact good_start_compile luck h hf ha hc

theorem intern_frames (oid : Oid) (i : FunctionId) (s : State) (frames : List Frame)
    (outcome : Outcome) :
    { pllua_intern_function oid i s with frames, outcome } =
      pllua_intern_function oid i { s with frames, outcome } := by
  unfold pllua_intern_function
  simp only
  split <;> rfl

/-- The object that the innermost call compiles is its own. -/
theorem Inv.private_info {s : State} {f : Frame} {frames : List Frame} {i : FunctionId}
    (h : Inv types s) (hf : s.frames = f :: frames) (hpoint : f.point = .compiling i) :
    i ∈ s.frames.filterMap Frame.compiling ∧ i ∉ frames.filterMap Frame.compiling := by
  have hcompiling : f.compiling = some i := by
    unfold Frame.compiling
    rw [hpoint]
  have hn := h.compiling
  rw [hf, List.filterMap_cons, hcompiling] at hn
  refine ⟨?_, (List.nodup_cons.mp hn).1⟩
  rw [hf, List.filterMap_cons, hcompiling]
  exact List.mem_cons_self

theorem good_compiled {s : State} {f : Frame} {frames : List Frame} {act : Activation}
    {i : FunctionId} (luck : Luck) (ok : Bool) (h : Inv types s) (hf : s.frames = f :: frames)
    (hpoint : f.point = .compiling i) (ha : s.acts f.act = some act)
    (hmet : ok = true → luck.intern = true → act.resolved = false) :
    Good types (compiled luck ok i f frames act s) := by
  obtain ⟨hmade, hrest⟩ := h.private_info hf hpoint
  obtain ⟨hcreated, hunfreed⟩ := h.made i hmade
  unfold compiled
  split
  · rename_i hok
    split
    · rename_i hfail
      exact good_raise h hf ha (hmet hok hfail)
    · refine ⟨?_, trivial⟩
      rw [intern_frames]
      have hgoto := h.goto hf .looping .none (fun j hj => by cases hj)
      obtain ⟨act', ha', hoid⟩ := h.frames f (by rw [hf]; exact List.mem_cons_self)
      have hact : act' = act := Option.some.inj (ha'.symm.trans ha)
      subst hact
      refine hgoto.intern ⟨hcreated, hunfreed, ?_, ?_⟩
      · exact fun hm => hrest hm
      · apply hoid
        unfold Frame.compiling
        rw [hpoint]
  · have hset : Inv types (s.set_act f.act { act with resolved := false }) := by
      refine h.set_act ha rfl ?_ ?_ ?_ ?_
      · exact fun j hj => h.held f.act act j ha hj
      · exact fun j hj => h.members f.act act j ha hj
      · intro j _ hr
        cases hr
      · exact fun j tup hj hc hv => h.interned f.act act j tup ha hj hc hv
    have hacts := fun b x =>
      @set_act_acts s f.act b act { act with resolved := false } x ha rfl rfl
    have hpop := hset.pop hf (.raised f.act)
    have hfree : Inv types
        (({ s.set_act f.act { act with resolved := false } with
          freed := Function.update s.freed i true }).raise f frames) := by
      refine hpop.free_info hcreated hrest ?_ ?_
      · exact fun oid he => (h.entries oid i he).compiled hmade
      · intro b x hb hm
        obtain ⟨y, hy, -, hmember⟩ := hacts b x hb
        rw [hmember] at hm
        exact (h.members b y i hy hm).compiled hmade
    exact ⟨hfree, ended_raised hfree rfl (set_act_self s f.act _) rfl⟩

/-- A call begins. -/
theorem Inv.push {s : State} (h : Inv types s) (a : ActivationId) (rsi : ResultInfo)
    (trusted : Bool) (ha : ∃ act, s.acts a = some act) :
    Inv types { s with frames := ⟨a, rsi, trusted, .looping⟩ :: s.frames, outcome := .none } := by
  have hlive : ∀ {o i}, Live s o i → Live
      { s with frames := ⟨a, rsi, trusted, .looping⟩ :: s.frames, outcome := .none } o i :=
    fun hl => hl.weaken (Nat.le_refl _) rfl rfl id
  constructor
  case held => exact h.held
  case members => exact fun b act i hb hm => hlive (h.members b act i hb hm)
  case entries => exact fun o e he => hlive (h.entries o e he)
  case compiling => exact h.compiling
  case made => exact h.made
  case unmade => exact h.unmade
  case frames =>
    intro f hf
    rcases List.mem_cons.mp hf with rfl | hf
    · obtain ⟨act, hact⟩ := ha
      exact ⟨act, hact, fun i hi => by cases hi⟩
    · exact h.frames f hf
  case resolved => exact h.resolved
  case known => exact h.known
  case current => exact h.current
  case numbered => exact h.numbered
  case interned => exact h.interned

/-- A call site gets an activation, which has no object yet. -/
theorem Inv.newactivation {s : State} {act : Activation} (h : Inv types s)
    (hnone : act.func_info = none) (hmember : act.member = none) :
    Inv types { s.set_act s.next_act act with next_act := s.next_act + 1 } := by
  have hcases : ∀ b x, (s.set_act s.next_act act).acts b = some x → x = act ∨ s.acts b = some x := by
    intro b x hb
    by_cases hba : b = s.next_act
    · subst hba
      simp only [State.set_act, Function.update_self, Option.some.injEq] at hb
      exact Or.inl hb.symm
    · simp only [State.set_act, Function.update_of_ne hba] at hb
      exact Or.inr hb
  have hlive : ∀ {o i}, Live s o i →
      Live { s.set_act s.next_act act with next_act := s.next_act + 1 } o i :=
    fun hl => hl.weaken (Nat.le_refl _) rfl rfl id
  constructor
  case held =>
    intro b x i hb hi
    rcases hcases b x hb with rfl | hold
    · rw [hnone] at hi
      cases hi
    · exact h.held b x i hold hi
  case members =>
    intro b x i hb hi
    rcases hcases b x hb with rfl | hold
    · rw [hmember] at hi
      cases hi
    · exact hlive (h.members b x i hold hi)
  case entries => exact fun o e he => hlive (h.entries o e he)
  case compiling => exact h.compiling
  case made => exact h.made
  case unmade => exact h.unmade
  case frames =>
    intro f hf
    obtain ⟨x, hx, hoid⟩ := h.frames f hf
    have hne : f.act ≠ s.next_act := by
      intro heq
      rw [heq, h.numbered _ (Nat.le_refl _)] at hx
      cases hx
    exact ⟨x, (Function.update_of_ne hne _ _).trans hx, hoid⟩
  case resolved =>
    intro b x i hb hi hr
    rcases hcases b x hb with rfl | hold
    · rw [hnone] at hi
      cases hi
    · exact h.resolved b x i hold hi hr
  case known => exact h.known
  case current => exact h.current
  case numbered =>
    intro b hb
    have hne : b ≠ s.next_act := Nat.ne_of_gt hb
    exact (Function.update_of_ne hne _ _).trans (h.numbered b (Nat.le_of_succ_le hb))
  case interned =>
    intro b x i tup hb hi hc hv
    rcases hcases b x hb with rfl | hold
    · rw [hnone] at hi
      cases hi
    · exact h.interned b x i tup hold hi hc hv

/-- An activation is freed. -/
theorem Inv.free_act {s : State} {a : ActivationId} (h : Inv types s)
    (ha : a ∉ s.frames.map Frame.act) : Inv types { s with acts := Function.update s.acts a none } := by
  have hold : ∀ b x, Function.update s.acts a none b = some x → s.acts b = some x := by
    intro b x hb
    by_cases hba : b = a
    · subst hba
      simp at hb
    · rw [Function.update_of_ne hba] at hb
      exact hb
  have hlive : ∀ {o i}, Live s o i → Live { s with acts := Function.update s.acts a none } o i :=
    fun hl => hl.weaken (Nat.le_refl _) rfl rfl id
  constructor
  case held => exact fun b x i hb hi => h.held b x i (hold b x hb) hi
  case members => exact fun b x i hb hm => hlive (h.members b x i (hold b x hb) hm)
  case entries => exact fun o e he => hlive (h.entries o e he)
  case compiling => exact h.compiling
  case made => exact h.made
  case unmade => exact h.unmade
  case frames =>
    intro f hf
    have hne : f.act ≠ a := fun heq => ha (List.mem_map.mpr ⟨f, hf, heq⟩)
    simp only [Function.update_of_ne hne]
    exact h.frames f hf
  case resolved => exact fun b x i hb hi hr => h.resolved b x i (hold b x hb) hi hr
  case known => exact h.known
  case current => exact h.current
  case numbered =>
    intro b hb
    by_cases hba : b = a
    · subst hba
      simp
    · simp only [Function.update_of_ne hba]
      exact h.numbered b hb
  case interned => exact fun b x i tup hb hi hc hv => h.interned b x i tup (hold b x hb) hi hc hv

theorem Inv.quiet {s : State} (h : Inv types s) : Inv types { s with outcome := .none } := by
  have hlive : ∀ {o i}, Live s o i → Live { s with outcome := .none } o i :=
    fun hl => hl.weaken (Nat.le_refl _) rfl rfl id
  constructor
  case held => exact h.held
  case members => exact fun b act i hb hm => hlive (h.members b act i hb hm)
  case entries => exact fun o e he => hlive (h.entries o e he)
  case compiling => exact h.compiling
  case made => exact h.made
  case unmade => exact h.unmade
  case frames => exact h.frames
  case resolved => exact h.resolved
  case known => exact h.known
  case current => exact h.current
  case numbered => exact h.numbered
  case interned => exact h.interned

theorem good_quiet {s : State} (h : Inv types s) : Good types { s with outcome := .none } :=
  ⟨h.quiet, trivial⟩

theorem good_call {s : State} (h : Inv types s) (luck : Luck) (a : Option ActivationId)
    (flinfo : FmgrInfo) (rsi : ResultInfo) (trusted : Bool) :
    Good types (pllua_validate_and_push luck a flinfo rsi trusted s) := by
  unfold pllua_validate_and_push
  split
  · rename_i a
    split
    · rename_i act hact
      exact ⟨h.push a rsi trusted ⟨act, hact⟩, trivial⟩
    · exact good_quiet h
  · split
    · exact good_quiet h
    · have hnew := @Inv.newactivation types s
        ⟨flinfo, none, false, ⟨0, false, false, false, 0, false, false, .own []⟩, none⟩ h rfl rfl
      exact ⟨hnew.push s.next_act rsi trusted ⟨_, set_act_self s s.next_act _⟩, trivial⟩

/-- Another version of the function that the table keeps up with. -/
theorem good_restored {s : State} (h : Inv types s) (oid : Oid) (row : Option ProcTup)
    (hrow : ∀ tup, row = some tup → tup ∈ s.history oid)
    (hinterned : ∀ a act i tup, s.acts a = some act → act.flinfo.fn_oid = oid →
      act.func_info = some i → row = some tup → (s.infos i).version = tup.version →
      ∃ e, s.funcs oid = some e ∧ (s.infos e).version = tup.version) :
    Good types { s with catalog := Function.update s.catalog oid row, outcome := .none } := by
  have hcatalog := h.set_catalog oid row (s.history oid) (fun _ ht => ht) hrow hinterned .none
  rw [Function.update_eq_self] at hcatalog
  exact ⟨hcatalog, trivial⟩

theorem good_replace {s : State} (h : Inv types s) (oid : Oid) (tup : ProcTup)
    (hnew : tup.version ∉ (s.history oid).map ProcTup.version) :
    Good types { s with
      catalog := Function.update s.catalog oid (some tup)
      history := Function.update s.history oid (tup :: s.history oid)
      outcome := .none } := by
  refine ⟨h.set_catalog oid (some tup) _ (fun _ ht => List.mem_cons_of_mem _ ht) ?_ ?_ .none,
    trivial⟩
  · intro t ht
    cases ht
    exact List.mem_cons_self
  · intro a act i t ha hoid hi ht hv
    cases ht
    have hl := h.members a act i ha (h.held a act i ha hi)
    have hknown := h.known i hl.created
    rw [hl.oid, hoid, hv] at hknown
    exact absurd hknown hnew

theorem good_gc {s : State} (h : Inv types s) (i : FunctionId) (hi : Unreferenced s i) :
    Good types { s with freed := Function.update s.freed i true, outcome := .none } := by
  obtain ⟨hcreated, hfuncs, hacts, hframes⟩ := hi
  refine ⟨(h.free_info hcreated hframes ?_ ?_).quiet, trivial⟩
  · intro oid he
    rw [(h.entries oid i he).oid] at hfuncs
    exact hfuncs he
  · intro a act ha hm
    have hlt : a < s.next_act := by
      by_contra hge
      rw [h.numbered a (Nat.le_of_not_lt hge)] at ha
      cases ha
    have hall := hacts a hlt
    rw [ha] at hall
    exact of_decide_eq_true hall hm

theorem good_step {s : State} (h : Inv types s) (a : Action) (hmet : Met s a) :
    Good types (step types s a) := by
  cases a with
  | call luck a flinfo rsi trusted =>
    unfold step
    simp only
    split
    · exact good_quiet h
    · exact good_call h luck a flinfo rsi trusted
  | iterate luck =>
    unfold step
    simp only
    split
    · rename_i f frames hf
      split
      · rename_i act hpoint ha
        exact good_iterate luck h hf ha (hmet f frames act hf hpoint ha)
      · exact good_quiet h
    · exact good_quiet h
  | compiled luck ok =>
    unfold step
    simp only
    split
    · rename_i f frames hf
      split
      · rename_i i act hpoint ha
        exact good_compiled luck ok h hf hpoint ha (hmet f frames act i hf hpoint ha)
      · exact good_quiet h
    · exact good_quiet h
  | replace oid tup =>
    unfold step
    simp only
    split
    · exact good_quiet h
    · rename_i hnew
      exact good_replace h oid tup hnew
  | drop oid =>
    apply good_restored h
    · intro tup hrow
      cases hrow
    · intro a act i tup ha hoid hi hrow
      cases hrow
  | rollback oid tup =>
    unfold step
    simp only
    split
    · rename_i hold
      apply good_restored h
      · intro t ht
        cases ht
        exact hold
      · intro a act i t ha hoid hi ht hv
        cases ht
        exact hmet a act i ha hoid hi hv
    · exact good_quiet h
  | gc i =>
    unfold step
    simp only
    split
    · rename_i hi
      exact good_gc h i hi
    · exact good_quiet h
  | free a =>
    unfold step
    simp only
    split
    · exact good_quiet h
    · rename_i ha
      exact ⟨(h.free_act ha).quiet, trivial⟩

theorem start_inv (catalog : Oid → Option ProcTup) : Inv types (start catalog) := by
  constructor
  case held => exact fun a act i ha => by cases ha
  case members => exact fun a act i ha => by cases ha
  case entries => exact fun o e he => by cases he
  case compiling => exact List.nodup_nil
  case made => exact fun i hi => by cases hi
  case unmade => exact fun i _ => rfl
  case frames => exact fun f hf => by cases hf
  case resolved => exact fun a act i ha => by cases ha
  case known => exact fun i hi => absurd hi (Nat.not_lt_zero i)
  case current =>
    intro oid tup hc
    exact Option.mem_toList.mpr hc
  case numbered => exact fun a _ => rfl
  case interned => exact fun a act i tup ha => by cases ha

/-! ## The law of the function cache -/

/-- In every run without a failure at a point where the activation is still resolved, every
call returns a valid activation or leaves one that is not resolved. -/
theorem calls_return_valid_activations (types : Types) (catalog : Oid → Option ProcTup)
    (as : List Action) (h : Each (step types) Met (start catalog) as) :
    Each (step types) (Lawful types) (start catalog) as := by
  have hstep : ∀ s a, Inv types s → Met s a → Inv types (step types s a) :=
    fun s a hs hmet => (good_step hs a hmet).1
  have hlaw : ∀ s a, Inv types s → Met s a → Lawful types s a :=
    fun s a hs hmet => (good_step hs a hmet).2
  exact each_of_invariant hstep hlaw (start_inv catalog) h

end

/-! ## Runs that fail -/

/-- No type is polymorphic, a row type or a domain. -/
def plain_types : Types where
  type_is_rowtype _ := false
  IsPolymorphicType _ := false
  ANYOID := 2276
  is_domain _ := false
  get_call_result_type _ _ := none
  get_fn_expr_variadic _ := false
  resolve_polymorphic_argtypes _ _ := none

def old_version : ProcTup := ⟨⟨700, 3, 12⟩, 23, false, [23], false, true⟩

def new_version : ProcTup := ⟨⟨702, 3, 13⟩, 23, false, [23], false, true⟩

def one_function (oid : Oid) : Option ProcTup :=
  if oid = 16400 then some old_version else none

/-- A call from a new call site, which compiles the function. -/
def first_call : List Action :=
  [.call good_luck none ⟨16400, 0⟩ none true, .iterate good_luck, .compiled good_luck true,
    .iterate good_luck]

theorem first_call_is_valid :
    (run (step plain_types) (start one_function) first_call).outcome = .returned 0 old_version ∧
      Each (step plain_types) (Lawful plain_types) (start one_function) first_call := by
  refine ⟨rfl, calls_return_valid_activations plain_types one_function first_call ?_⟩
  refine ⟨trivial, ?_, ?_, ?_, trivial⟩
  · intro f frames act hf _ ha
    cases hf
    cases ha
    trivial
  · intro f frames act i hf hp ha hok hluck
    cases hluck
  · intro f frames act hf _ ha
    cases hf
    cases ha
    exact ⟨nofun, rfl⟩

/-- The compiled object cannot be interned. -/
def failed_intern : List Action :=
  [.call good_luck none ⟨16400, 0⟩ none true, .iterate good_luck,
    .compiled { good_luck with intern := true } true]

/-- The function is dropped between two calls of one call site. -/
def dropped_function : List Action :=
  first_call ++
    [.drop 16400, .call good_luck (some 0) ⟨16400, 0⟩ none true, .iterate good_luck]

/-- The function is replaced, another call site fails to compile it, and the replacement is
rolled back. -/
def undone_replacement : List Action :=
  first_call ++
    [.replace 16400 new_version, .call good_luck none ⟨16400, 1⟩ none true, .iterate good_luck,
      .compiled good_luck false, .rollback 16400 old_version,
      .call good_luck (some 0) ⟨16400, 0⟩ none true, .iterate good_luck]

theorem calls_break_the_law :
    ¬ Each (step plain_types) (Lawful plain_types) (start one_function) failed_intern ∧
      ¬ Each (step plain_types) (Lawful plain_types) (start one_function) dropped_function ∧
      ¬ Each (step plain_types) (Lawful plain_types) (start one_function) undone_replacement := by
  refine ⟨?_, ?_, ?_⟩
  · rintro ⟨-, -, ⟨act, hact, hr, -⟩, -⟩
    cases hact
    cases hr
  · rintro ⟨-, -, -, -, -, -, ⟨act, hact, hr, -⟩, -⟩
    cases hact
    cases hr
  · rintro ⟨-, -, -, -, -, -, -, -, -, -, ⟨act, hact, -, e, he, -⟩, -⟩
    cases hact
    cases he

end pllua.compile
