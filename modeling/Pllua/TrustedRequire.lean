-- `require` in the sandbox (trusted.c): code of the sandbox loads modules of its own and those that
-- are allowed, in any nesting. What is loaded stays, and nothing else runs outside.
import Pllua.RowText
import Pllua.TrustedModules

open pllua.rowtext (CString)

namespace pllua.trusted

/-! ## Code of the sandbox -/

/-- What the sandbox code has put in `package.preload`. A number has its text. -/
inductive Preload (C : Type)
  | func (loader : C)
  | text (s : Name)
  | other

/-- Code of the sandbox, by what it does to `package`. -/
inductive Code (V : Type)
  | done (v : Option V)
  | fail (e : Name)
  | require (name : CString) (next : V → Code V)
  /-- `pcall(require, name)` -/
  | pcall (name : CString) (next : Except Name V → Code V)
  | get_loaded (name : Name) (next : Option V → Code V)
  | set_loaded (name : Name) (v : Option V) (next : Code V)
  | set_preload (name : Name) (p : Option (Preload (Code V))) (next : Code V)

/-- The values of Lua, as `lua_toboolean` sees them. -/
structure Values (V : Type) where
  toboolean : V → Bool
  yes : V
  yes_true : toboolean yes = true

/-- What happens to the tables. -/
inductive Event (V M : Type)
  /-- a loader of `package.preload` is called -/
  | inside (name : Name)
  /-- a loader of the list of allowed modules was called, and the tables after it -/
  | outside (name : Name) (loader : Closure V M) (s : State V M)
  /-- `require` enters the value of a module -/
  | loaded (name : Name) (v : V)
  /-- the code sets a field of `package.loaded` itself -/
  | assigned (name : Name) (v : Option V)

/-- The tables, the table `package.preload`, and what happened to them so far. -/
structure Box (V M : Type) where
  tables : State V M
  preload : Tab (Preload (Code V))
  log : List (Event V M)

/-! ## The searchers -/

/-- A loader, which runs in the sandbox or outside. -/
inductive Loader (V M : Type)
  | inside (code : Code V)
  | outside (closure : Closure V M)

/-- What a searcher returns: a loader, or a message, or neither. -/
inductive Search (V M : Type)
  | found (loader : Loader V M)
  | message (s : Name)
  | neither

def ascii (s : String) : Name := s.toList.map fun c => c.toNat.toUInt8

section
variable {V M : Type}

/-- `pllua_package_preload_search` -/
def pllua_package_preload_search (b : Box V M) (name : CString) : Search V M :=
  match b.preload name.val with
  | none => .message (ascii "\n\tno field package.preload['" ++ name.val ++ ascii "']")
  | some (.func code) => .found (.inside code)
  | some (.text s) => .message s
  | some .other => .neither

/-- `pllua_package_allowed_search` -/
def pllua_package_allowed_search (b : Box V M) (name : CString) : Search V M :=
  match b.tables.allow name.val with
  | none =>
    .message (ascii "\n\tno module '" ++ name.val ++ ascii "' in list of allowed modules")
  | some closure => .found (.outside closure)

/-- `package.searchers` as `pllua_open_trusted_package` fills it. -/
def searchers : List (Box V M → CString → Search V M) :=
  [pllua_package_preload_search, pllua_package_allowed_search]

/-- The loop of `pllua_t_require_findloader`, with the messages so far. -/
def pllua_t_require_findloader (b : Box V M) (name : CString) :
    Name → List (Box V M → CString → Search V M) → Except Name (Loader V M)
  | msg, [] => .error (ascii "module '" ++ name.val ++ ascii "' not found:" ++ msg)
  | msg, searcher :: rest =>
    match searcher b name with
    | .found loader => .ok loader
    | .message s => pllua_t_require_findloader b name (msg ++ s) rest
    | .neither => pllua_t_require_findloader b name msg rest

/-! ## `require` -/

variable (host : Host V M) (vals : Values V)

/-- `pllua_bind_one_value`, or `pllua_bind_one_call` of `pllua_do_trusted_require` -/
def Closure.call (s : State V M) : Closure V M → Except Name (Option V) × State V M
  | .bind_one_value v => (.ok v, s)
  | .bind_one_call mode modname => host.load mode modname s

/-- A run of code, which may not end: what it returns, and the box after it. -/
abbrev Run (V M : Type) := Code V → Box V M → Option (Except Name (Option V) × Box V M)

/-- The call of a loader. -/
def Loader.call (run : Run V M) (name : CString) (b : Box V M) :
    Loader V M → Option (Except Name (Option V) × Box V M)
  | .inside code => run code { b with log := b.log ++ [.inside name.val] }
  | .outside closure =>
    have done := closure.call host b.tables
    some (done.1,
      { b with tables := done.2, log := b.log ++ [.outside name.val closure done.2] })

/-- The field of `package.loaded` is set to the value of the module: nil is what the module has set
there itself, or true. -/
def enter (name : CString) (v : Option V) (b : Box V M) : V × Box V M :=
  have v := v.getD ((b.tables.loaded name.val).getD vals.yes)
  (v,
    { b with
      tables := { b.tables with loaded := Function.update b.tables.loaded name.val (some v) }
      log := b.log ++ [.loaded name.val v] })

/-- The value that a name is loaded as, if there is one that is true. -/
def is_loaded (s : State V M) (name : Name) : Option V := (s.loaded name).filter vals.toboolean

/-- `pllua_t_require` -/
def pllua_t_require (run : Run V M) (name : CString) (b : Box V M) :
    Option (Except Name V × Box V M) :=
  match is_loaded vals b.tables name.val with
  | some v => some (.ok v, b)
  | none =>
    match pllua_t_require_findloader b name [] searchers with
    | .error e => some (.error e, b)
    | .ok loader =>
      match loader.call host run name b with
      | none => none
      | some (.error e, b) => some (.error e, b)
      | some (.ok v, b) =>
        have entered := enter vals name v b
        some (.ok entered.1, entered.2)

/-- Code of the sandbox, for as many steps as `n` says. -/
def exec : Nat → Run V M
  | 0, _, _ => none
  | _ + 1, .done v, b => some (.ok v, b)
  | _ + 1, .fail e, b => some (.error e, b)
  | n + 1, .require name next, b =>
    match pllua_t_require host vals (exec n) name b with
    | none => none
    | some (.error e, b) => some (.error e, b)
    | some (.ok v, b) => exec n (next v) b
  | n + 1, .pcall name next, b =>
    match pllua_t_require host vals (exec n) name b with
    | none => none
    | some (r, b) => exec n (next r) b
  | n + 1, .get_loaded name next, b => exec n (next (b.tables.loaded name)) b
  | n + 1, .set_loaded name v next, b =>
    exec n next
      { b with
        tables := { b.tables with loaded := Function.update b.tables.loaded name v }
        log := b.log ++ [.assigned name v] }
  | n + 1, .set_preload name p next, b =>
    exec n next { b with preload := Function.update b.preload name p }

/-! ## What is in the log -/

/-- The tables after an event. -/
def Event.effect (s : State V M) : Event V M → State V M
  | .inside _ => s
  | .outside _ _ s' => s'
  | .loaded name v => { s with loaded := Function.update s.loaded name (some v) }
  | .assigned name v => { s with loaded := Function.update s.loaded name v }

def replay (s : State V M) (log : List (Event V M)) : State V M := log.foldl Event.effect s

/-- The event calls a loader of this module. -/
def Event.Starts (name : Name) : Event V M → Prop
  | .inside n => n = name
  | .outside n _ _ => n = name
  | _ => False

/-- What holds before an event: only a module that is not loaded is, and from outside only one that
is allowed. -/
def Event.Allowed (s : State V M) : Event V M → Prop
  | .inside name => is_loaded vals s name = none
  | .outside name loader s' =>
    is_loaded vals s name = none ∧ s.allow name = some loader ∧ s' = (loader.call host s).2
  | .loaded _ _ => True
  | .assigned _ _ => True

def Orderly (s : State V M) : List (Event V M) → Prop
  | [] => True
  | e :: log => e.Allowed host vals s ∧ Orderly (e.effect s) log

theorem orderly_append {s : State V M} {l₁ l₂ : List (Event V M)} :
    Orderly host vals s (l₁ ++ l₂) ↔
      Orderly host vals s l₁ ∧ Orderly host vals (replay s l₁) l₂ := by
  induction l₁ generalizing s with
  | nil => simp [Orderly, replay]
  | cons e l₁ ih =>
    dsimp only [List.cons_append, Orderly]
    rw [ih, and_assoc]
    rfl

/-- A run from one box to another. -/
def Grown (b b' : Box V M) : Prop :=
  ∃ new, b'.log = b.log ++ new ∧ Orderly host vals b.tables new ∧
    b'.tables = replay b.tables new

variable {host vals}

theorem Grown.refl (b : Box V M) : Grown host vals b b :=
  ⟨[], (List.append_nil _).symm, trivial, rfl⟩

theorem Grown.trans {b₁ b₂ b₃ : Box V M} (h₁ : Grown host vals b₁ b₂)
    (h₂ : Grown host vals b₂ b₃) : Grown host vals b₁ b₃ := by
  obtain ⟨l₁, hlog₁, horderly₁, htables₁⟩ := h₁
  obtain ⟨l₂, hlog₂, horderly₂, htables₂⟩ := h₂
  refine ⟨l₁ ++ l₂, ?_, ?_, ?_⟩
  · rw [hlog₂, hlog₁, List.append_assoc]
  · rw [orderly_append]
    exact ⟨horderly₁, htables₁ ▸ horderly₂⟩
  · rw [htables₂, htables₁, replay, replay, replay, List.foldl_append]

/-- One event. -/
theorem Grown.event {b b' : Box V M} (e : Event V M) (h : e.Allowed host vals b.tables)
    (hlog : b'.log = b.log ++ [e]) (htables : b'.tables = e.effect b.tables) :
    Grown host vals b b' :=
  ⟨[e], hlog, ⟨h, trivial⟩, htables⟩

/-- A loader from outside is one of the list of allowed modules. -/
theorem findloader_allowed {b : Box V M} {name : CString} {closure : Closure V M}
    (h : pllua_t_require_findloader b name [] searchers = .ok (.outside closure)) :
    b.tables.allow name.val = some closure := by
  have allowed : ∀ msg, pllua_t_require_findloader b name msg [pllua_package_allowed_search] =
      .ok (.outside closure) → b.tables.allow name.val = some closure := by
    intro msg h
    dsimp only [pllua_t_require_findloader, pllua_package_allowed_search] at h
    cases hallow : b.tables.allow name.val with
    | none =>
      rw [hallow] at h
      cases h
    | some c =>
      rw [hallow] at h
      cases h
      rfl
  unfold searchers pllua_t_require_findloader at h
  dsimp only [pllua_package_preload_search] at h
  cases hpreload : b.preload name.val with
  | none =>
    rw [hpreload] at h
    exact allowed _ h
  | some p =>
    rw [hpreload] at h
    cases p with
    | func code => cases h
    | text s => exact allowed _ h
    | other => exact allowed _ h

/-- Code that the sandbox runs. -/
def Grows (host : Host V M) (vals : Values V) (run : Run V M) : Prop :=
  ∀ {code b r b'}, run code b = some (r, b') → Grown host vals b b'

theorem call_grown {run : Run V M} (hrun : Grows host vals run) {name : CString} {b b' : Box V M}
    {loader : Loader V M} {r : Except Name (Option V)}
    (hnone : is_loaded vals b.tables name.val = none)
    (hfound : pllua_t_require_findloader b name [] searchers = .ok loader)
    (h : loader.call host run name b = some (r, b')) : Grown host vals b b' := by
  cases loader with
  | inside code =>
    have hstart : Grown host vals b { b with log := b.log ++ [.inside name.val] } :=
      Grown.event (.inside name.val) hnone rfl rfl
    exact hstart.trans (hrun h)
  | outside closure =>
    cases h
    exact Grown.event (.outside name.val closure (closure.call host b.tables).2)
      ⟨hnone, findloader_allowed hfound, rfl⟩ rfl rfl

/-- What `require` returns is in `package.loaded` then. -/
theorem require_spec {run : Run V M} (hrun : Grows host vals run) {name : CString}
    {b b' : Box V M} {r : Except Name V}
    (h : pllua_t_require host vals run name b = some (r, b')) :
    Grown host vals b b' ∧ ∀ v, r = .ok v → b'.tables.loaded name.val = some v := by
  unfold pllua_t_require at h
  cases hloaded : is_loaded vals b.tables name.val with
  | some v =>
    rw [hloaded] at h
    cases h
    refine ⟨Grown.refl b, fun v' hv' => ?_⟩
    cases hv'
    exact (Option.filter_eq_some_iff.mp hloaded).1
  | none =>
    rw [hloaded] at h
    cases hfound : pllua_t_require_findloader b name [] searchers with
    | error e =>
      rw [hfound] at h
      cases h
      exact ⟨Grown.refl b, fun v hv => by cases hv⟩
    | ok loader =>
      rw [hfound] at h
      dsimp only at h
      cases hcall : loader.call host run name b with
      | none =>
        rw [hcall] at h
        cases h
      | some done =>
        obtain ⟨r₁, b₁⟩ := done
        rw [hcall] at h
        have hgrown := call_grown hrun hloaded hfound hcall
        cases r₁ with
        | error e =>
          cases h
          exact ⟨hgrown, fun v hv => by cases hv⟩
        | ok v =>
          cases h
          refine ⟨hgrown.trans (Grown.event (.loaded name.val _) trivial rfl rfl), ?_⟩
          intro v' hv'
          cases hv'
          exact Function.update_self ..

theorem exec_grown (n : Nat) : Grows host vals (exec host vals n) := by
  induction n with
  | zero =>
    intro code b r b' h
    cases h
  | succ n ih =>
    intro code b r b' h
    cases code with
    | done v =>
      cases h
      exact Grown.refl b
    | fail e =>
      cases h
      exact Grown.refl b
    | require name next =>
      dsimp only [exec] at h
      cases hreq : pllua_t_require host vals (exec host vals n) name b with
      | none =>
        rw [hreq] at h
        cases h
      | some done =>
        obtain ⟨r₁, b₁⟩ := done
        rw [hreq] at h
        have hgrown := (require_spec ih hreq).1
        cases r₁ with
        | error e =>
          cases h
          exact hgrown
        | ok v => exact hgrown.trans (ih h)
    | pcall name next =>
      dsimp only [exec] at h
      cases hreq : pllua_t_require host vals (exec host vals n) name b with
      | none =>
        rw [hreq] at h
        cases h
      | some done =>
        rw [hreq] at h
        exact (require_spec ih hreq).1.trans (ih h)
    | get_loaded name next => exact ih h
    | set_loaded name v next =>
      have hset : Grown host vals b
          { b with
            tables := { b.tables with loaded := Function.update b.tables.loaded name v }
            log := b.log ++ [.assigned name v] } :=
        Grown.event (.assigned name v) trivial rfl rfl
      exact hset.trans (ih h)
    | set_preload name p next =>
      have hset : Grown host vals b
          { b with preload := Function.update b.preload name p } :=
        Grown.refl b
      exact hset.trans (ih h)

/-! ## Loaded once -/

variable (vals) in
/-- The event leaves the module loaded, with this value or another. -/
def Event.Keeps (name : Name) : Event V M → Prop
  | .inside _ => True
  | .outside _ _ s => (is_loaded vals s name).isSome
  | .loaded n v => n = name → vals.toboolean v = true
  | .assigned n v => n = name → ∃ v', v = some v' ∧ vals.toboolean v' = true

theorem keeps_loaded {s : State V M} {name : Name} (h : (is_loaded vals s name).isSome)
    {e : Event V M} (hkeeps : e.Keeps vals name) : (is_loaded vals (e.effect s) name).isSome := by
  cases e with
  | inside n => exact h
  | outside n loader s' => exact hkeeps
  | loaded n v =>
    by_cases hn : n = name
    · subst hn
      simpa [is_loaded, Event.effect] using hkeeps rfl
    · simpa [is_loaded, Event.effect, Function.update_of_ne (Ne.symm hn)] using h
  | assigned n v =>
    by_cases hn : n = name
    · subst hn
      obtain ⟨v', rfl, hv'⟩ := hkeeps rfl
      simpa [is_loaded, Event.effect] using hv'
    · simpa [is_loaded, Event.effect, Function.update_of_ne (Ne.symm hn)] using h

theorem allowed_starts {s : State V M} {name : Name} (h : (is_loaded vals s name).isSome)
    {e : Event V M} (hallowed : e.Allowed host vals s) : ¬ e.Starts name := by
  intro hstarts
  cases e with
  | inside n =>
    cases hstarts
    rw [show is_loaded vals s name = none from hallowed] at h
    cases h
  | outside n loader s' =>
    cases hstarts
    rw [hallowed.1] at h
    cases h
  | loaded n v => exact hstarts
  | assigned n v => exact hstarts

/-- A module stays loaded as long as no event loses it. -/
theorem replay_loaded {s : State V M} {name : Name} (h : (is_loaded vals s name).isSome)
    {log : List (Event V M)} (hkeeps : ∀ e ∈ log, e.Keeps vals name) :
    (is_loaded vals (replay s log) name).isSome := by
  induction log generalizing s with
  | nil => exact h
  | cons first log ih =>
    have hloaded := keeps_loaded h (hkeeps first List.mem_cons_self)
    exact ih hloaded fun e he => hkeeps e (List.mem_cons_of_mem _ he)

theorem replay_allow (hleaves : ∀ mode modname s, (host.load mode modname s).2.allow = s.allow)
    {s : State V M} {log : List (Event V M)} (h : Orderly host vals s log) :
    (replay s log).allow = s.allow := by
  induction log generalizing s with
  | nil => rfl
  | cons e log ih =>
    obtain ⟨hallowed, hrest⟩ := h
    have hstep : (e.effect s).allow = s.allow := by
      cases e with
      | outside n loader s' =>
        rw [Event.effect, hallowed.2.2]
        cases loader with
        | bind_one_value v => rfl
        | bind_one_call mode modname => exact hleaves mode modname s
      | _ => rfl
    exact (ih hrest).trans hstep

/-- In any run of code of the sandbox, once a module is loaded, no loader of it is called, until
`package.loaded` loses it; `require` returns what is there; and what runs outside is in the list of
allowed modules, which stays as it was if the modules leave it. -/
theorem a_loaded_module_stays {n : Nat} {code : Code V} {b b' : Box V M}
    {r : Except Name (Option V)} (h : exec host vals n code b = some (r, b')) :
    ∃ new, b'.log = b.log ++ new ∧ b'.tables = replay b.tables new ∧
      (∀ l₁ l₂ e l₃ name v, new = l₁ ++ .loaded name v :: (l₂ ++ e :: l₃) →
        vals.toboolean v = true → (∀ e' ∈ l₂, e'.Keeps vals name) → ¬ e.Starts name) ∧
      (∀ l₁ l₂ name loader s', new = l₁ ++ .outside name loader s' :: l₂ →
        (replay b.tables l₁).allow name = some loader ∧
          ((∀ mode modname s, (host.load mode modname s).2.allow = s.allow) →
            b.tables.allow name = some loader)) ∧
      ∀ name v b₁ b₂, pllua_t_require host vals (exec host vals n) name b₁ = some (.ok v, b₂) →
        b₂.tables.loaded name.val = some v := by
  obtain ⟨new, hlog, horderly, htables⟩ := exec_grown n h
  refine ⟨new, hlog, htables, ?_, ?_, ?_⟩
  · rintro l₁ l₂ e l₃ name v rfl hv hkeeps
    obtain ⟨-, -, hrest⟩ := (orderly_append host vals).mp horderly
    obtain ⟨-, hallowed, -⟩ := (orderly_append host vals).mp hrest
    refine allowed_starts (replay_loaded ?_ hkeeps) hallowed
    simpa [is_loaded, Event.effect] using hv
  · rintro l₁ l₂ name loader s' rfl
    obtain ⟨hbefore, hallowed, -⟩ := (orderly_append host vals).mp horderly
    have hallow : (replay b.tables l₁).allow name = some loader := hallowed.2.1
    refine ⟨hallow, fun hleaves => ?_⟩
    rw [← replay_allow hleaves hbefore]
    exact hallow
  · intro name v b₁ b₂ hreq
    exact (require_spec (exec_grown n) hreq).2 v rfl

end

/-! ## A module of the sandbox that requires `os` -/

def plain_values : Values Name := ⟨fun _ => true, ascii "true", rfl⟩

/-- `package.preload.a = function() require "os" return "a" end`, and `os` is allowed -/
def a_and_os : Box Name Unit where
  tables := (run_calls plain_host [allow_os .nil] empty_state).2
  preload := Function.update (fun _ => none) (ascii "a")
    (some (.func (.require ⟨os, by decide⟩ fun _ => .done (some (ascii "a")))))
  log := []

/-- `require "a" require "a" package.loaded.a = nil return require "a"` -/
def require_a_again : Code Name :=
  .require ⟨ascii "a", by decide⟩ fun _ =>
    .require ⟨ascii "a", by decide⟩ fun _ =>
      .set_loaded (ascii "a") none
        (.require ⟨ascii "a", by decide⟩ fun v => .done (some v))

/-- The module is loaded once, and again when it is lost, and what it runs outside is what was
allowed. -/
theorem a_is_loaded_again_when_lost :
    ∃ b', exec plain_host plain_values 10 require_a_again a_and_os =
        some (.ok (some (ascii "a")), b') ∧ b'.log.length = 7 ∧
      (∀ l₁ l₂ e l₃ v, b'.log = l₁ ++ .loaded (ascii "a") v :: (l₂ ++ e :: l₃) →
        (∀ e' ∈ l₂, e'.Keeps plain_values (ascii "a")) → ¬ e.Starts (ascii "a")) ∧
      ∀ l₁ l₂ name loader s', b'.log = l₁ ++ .outside name loader s' :: l₂ →
        a_and_os.tables.allow name = some loader := by
  refine ⟨_, rfl, by decide +kernel, ?_⟩
  obtain ⟨new, hlog, -, hloaded, houtside, -⟩ :=
    a_loaded_module_stays
      (show exec plain_host plain_values 10 require_a_again a_and_os = some _ from rfl)
  constructor
  · intro l₁ l₂ e l₃ v hsplit
    have hnew : new = l₁ ++ .loaded (ascii "a") v :: (l₂ ++ e :: l₃) := hlog.symm.trans hsplit
    exact hloaded l₁ l₂ e l₃ _ v hnew rfl
  · intro l₁ l₂ name loader s' hsplit
    have hnew : new = l₁ ++ .outside name loader s' :: l₂ := hlog.symm.trans hsplit
    exact (houtside l₁ l₂ name loader s' hnew).2 fun _ _ _ => rfl

end pllua.trusted
