-- The source text of a function (compile.c): the names that the validator accepts, the list of
-- parameters, and the chunk in which the body is pasted.
import Mathlib.Data.List.TakeWhile
import Pllua.LuaGrammar
import Pllua.RowText

open grammars lua
open pllua.rowtext (CString)

namespace pllua.source

/-! ## Names -/

/-- The loop of `pllua_acceptable_name` over a string with its zero at the end. -/
def scan_name : List UInt8 → Bool
  | [] => true
  | c :: p =>
    if c == 0 then true
    else if !((c ≥ 65 && c ≤ 90) || (c ≥ 97 && c ≤ 122) || (c ≥ 48 && c ≤ 57) || c == 95) then false
    else scan_name p

/-- The reserved words are looked for by the first letter. -/
def check_keywords (name : List UInt8) : Bool :=
  match name with
  | 97 :: _ => name != bytes "and"
  | 98 :: _ => name != bytes "break"
  | 100 :: _ => name != bytes "do"
  | 101 :: _ => name != bytes "else" && name != bytes "elseif" && name != bytes "end"
  | 102 :: _ => name != bytes "false" && name != bytes "for" && name != bytes "function"
  | 103 :: _ => name != bytes "goto"
  | 105 :: _ => name != bytes "if" && name != bytes "in"
  | 108 :: _ => name != bytes "local"
  | 110 :: _ => name != bytes "nil" && name != bytes "not"
  | 111 :: _ => name != bytes "or"
  | 114 :: _ => name != bytes "repeat" && name != bytes "return"
  | 116 :: _ => name != bytes "then" && name != bytes "true"
  | 117 :: _ => name != bytes "until"
  | 119 :: _ => name != bytes "while"
  | _ => true

/-- `pllua_acceptable_name`, where none is a null pointer. -/
def pllua_acceptable_name (name : Option CString) : Bool :=
  match name with
  | none => false
  | some name =>
    have c : UInt8 := (name.val ++ [0]).headD 0
    if c == 0 || (c ≥ 48 && c ≤ 57) then false
    else if !scan_name (name.val ++ [0]) then false
    else check_keywords name.val

theorem scan_name_iff {name : List UInt8} (h : 0 ∉ name) :
    scan_name (name ++ [0]) = true ↔ ∀ c ∈ name, is_alnum c = true := by
  induction name with
  | nil => simp [scan_name]
  | cons c cs ih =>
    have hc : (c == 0) = false := by
      have : c ≠ 0 := fun zero => h (zero ▸ List.mem_cons_self)
      simpa using this
    have hcs := ih fun mem => h (List.mem_cons_of_mem _ mem)
    have same : ((c ≥ 65 && c ≤ 90) || (c ≥ 97 && c ≤ 122) || (c ≥ 48 && c ≤ 57) || c == 95) =
        is_alnum c := by
      simp only [is_alnum, is_alpha, is_digit, ge_iff_le]
      grind
    simp only [List.cons_append, scan_name, hc, same, Bool.false_eq_true, if_false,
      List.mem_cons, forall_eq_or_imp]
    cases is_alnum c with
    | false => simp
    | true => simpa using hcs

theorem reserved_refused : ∀ e ∈ reserved, check_keywords e.1 = false := by decide

theorem refused_reserved {name : List UInt8} (h : check_keywords name = false) :
    ∃ e ∈ reserved, e.1 = name := by
  unfold check_keywords at h
  split at h
  case h_15 => cases h
  all_goals
    simp only [Bool.and_eq_false_iff, bne_eq_false_iff_eq] at h
    simp only [reserved, List.mem_cons, List.not_mem_nil, or_false, exists_eq_or_imp,
      exists_eq_left]
    grind

/-- The names that are accepted are the names of Lua. -/
theorem acceptable_name_iff (name : CString) :
    pllua_acceptable_name (some name) = true ↔ IsName name.val := by
  obtain ⟨name, hzero⟩ := name
  have keywords : check_keywords name = true ↔ ∀ e ∈ reserved, e.1 ≠ name := by
    constructor
    · rintro h e he rfl
      rw [reserved_refused e he] at h
      cases h
    · intro h
      by_contra refused
      obtain ⟨e, he, same⟩ := refused_reserved (Bool.eq_false_iff.mpr refused)
      exact h e he same
  cases name with
  | nil =>
    refine ⟨fun h => (by cases h), fun h => ?_⟩
    obtain ⟨c, cs, eq, -⟩ := h.first
    cases eq
  | cons c cs =>
    have scan := scan_name_iff hzero
    have hc : (c == 0) = false := by
      have : c ≠ 0 := fun zero => hzero (zero ▸ List.mem_cons_self)
      simpa using this
    have first : is_alpha c = true ↔ is_alnum c = true ∧ ¬ is_digit c = true := by
      simp only [is_alnum, is_alpha, is_digit, Bool.or_eq_true, Bool.and_eq_true,
        decide_eq_true_eq, beq_iff_eq, UInt8.le_iff_toNat_le, UInt8.toNat_inj.symm,
        UInt8.reduceToNat]
      omega
    have value : pllua_acceptable_name (some ⟨c :: cs, hzero⟩) = true ↔
        ¬ is_digit c = true ∧ (∀ d ∈ c :: cs, is_alnum d = true) ∧
          ∀ e ∈ reserved, e.1 ≠ c :: cs := by
      rw [← scan, ← keywords, pllua_acceptable_name]
      simp only [List.cons_append, List.headD_cons, hc, Bool.false_or]
      change (if is_digit c = true then _ else _) = true ↔ _
      cases is_digit c <;> cases scan_name (c :: (cs ++ [0])) <;> simp
    rw [value]
    constructor
    · rintro ⟨digit, alnum, words⟩
      have hcs := List.forall_mem_cons.mp alnum
      exact ⟨⟨c, cs, rfl, first.mpr ⟨hcs.1, digit⟩, hcs.2⟩, words⟩
    · intro h
      obtain ⟨c', cs', eq, hc', hcs⟩ := h.first
      cases eq
      have hfirst := first.mp hc'
      exact ⟨hfirst.2, List.forall_mem_cons.mpr ⟨hfirst.1, hcs⟩, h.not_reserved⟩

/-! ## Functions of the catalog -/

/-- The modes `'i'`, `'o'`, `'b'`, `'v'` and `'t'`. -/
inductive ArgMode
  | IN | OUT | INOUT | VARIADIC | TABLE
deriving DecidableEq, Repr

def ArgMode.is_input : ArgMode → Bool
  | .IN | .INOUT | .VARIADIC => true
  | _ => false

/-- The pseudotypes, of which those that the code does not know are `other`. -/
inductive Pseudo
  | TRIGGEROID | EVENT_TRIGGEROID | VOIDOID | ANYOID | RECORDOID | RECORDARRAYOID | CSTRINGOID
  | ANYARRAYOID | ANYNONARRAYOID | ANYELEMENTOID | ANYENUMOID | ANYRANGEOID
  | other (oid : Nat)
deriving DecidableEq, Repr

/-- A type, by what `get_typtype` says of it. -/
inductive ArgType
  | plain (oid : Nat)
  | pseudo (p : Pseudo)
deriving DecidableEq, Repr

def CString.empty : CString := ⟨[], List.not_mem_nil⟩

/-- What is known of a function when it is compiled: `func_info`, and `comp_info` with the arrays of
`get_func_arg_info`, which may be missing. -/
structure FunctionInfo where
  name : CString
  rettype : ArgType
  is_trigger : Bool
  is_event_trigger : Bool
  nargs : Nat
  nallargs : Nat
  allargtypes : List ArgType
  argnames : Option (List CString)
  argmodes : Option (List ArgMode)
  prosrc : CString

structure Param where
  name : CString
  mode : ArgMode
  type : ArgType

namespace FunctionInfo
variable (f : FunctionInfo)

/-- An entry of the arrays: without `argmodes` all are `'i'`, and without `argnames` none has a
name. -/
def param (i : Nat) : Param where
  name := (f.argnames.getD []).getD i CString.empty
  mode := (f.argmodes.getD []).getD i .IN
  type := f.allargtypes.getD i (.plain 0)

def params : List Param := (List.range f.nallargs).map f.param

/-- The input parameters. -/
def inputs : List Param := f.params.filter fun p => p.mode.is_input

end FunctionInfo

def Param.named (p : Param) : Bool := !p.name.val.isEmpty

/-- What PostgreSQL sees to: `pronargs` counts the input parameters, no two of which have one name, a
result-table column has a name, and the arrays have an entry for each parameter. -/
structure Catalogued (f : FunctionInfo) : Prop where
  nargs : f.nargs = f.inputs.length
  table_named : ∀ p ∈ f.params, p.mode = .TABLE → p.named = true
  distinct : ((f.inputs.filter Param.named).map Param.name).Nodup
  argnames : f.argnames = none → ∀ p ∈ f.params, p.named = false

/-! ## The validator -/

/-- The error messages. -/
inductive Refusal
  /-- `PL/Lua function name "%s" is not a valid Lua identifier` -/
  | function_name (name : CString)
  /-- `PL/Lua functions cannot return type %s` -/
  | rettype (t : ArgType)
  /-- `PL/Lua functions cannot accept type %s` -/
  | argtype (t : ArgType)
  /-- `PL/Lua function arguments with names must not follow arguments without names` -/
  | name_after_nameless
  /-- `PL/Lua function arguments of type VARIADIC "any" must not have names` -/
  | named_variadic_any
  /-- `PL/Lua argument name "%s" is not a valid Lua identifier` -/
  | argument_name (name : CString)
deriving DecidableEq

/-- `pllua_acceptable_pseudotype`, where no mode stands for a result. -/
def pllua_acceptable_pseudotype (typeid : Pseudo) (argmode : Option ArgMode) : Bool :=
  have is_input := match argmode with
    | some .TABLE | some .OUT | none => false
    | _ => true
  have is_output := match argmode with
    | some .VARIADIC | some .IN => false
    | _ => true
  match typeid with
  | .TRIGGEROID | .EVENT_TRIGGEROID | .VOIDOID => !is_input
  | .ANYOID => !is_output
  | .other _ => false
  | _ => true

def ArgType.acceptable (t : ArgType) (argmode : Option ArgMode) : Bool :=
  match t with
  | .plain _ => true
  | .pseudo p => pllua_acceptable_pseudotype p argmode

/-- Whether there was a nameless input parameter after this one too, if it may be here. -/
def check_nameless (nameless : Bool) (p : Param) : Except Refusal Bool :=
  match p.mode with
  | .IN | .INOUT =>
    if p.named then (if nameless then .error .name_after_nameless else .ok nameless)
    else .ok true
  | .TABLE | .OUT => .ok nameless
  | .VARIADIC =>
    if p.type = .pseudo .ANYOID && p.named then .error .named_variadic_any else .ok nameless

/-- The loop over all parameters. -/
def validate_params : Bool → List Param → Except Refusal Unit
  | _, [] => .ok ()
  | nameless, p :: rest =>
    if !p.type.acceptable (some p.mode) then .error (.argtype p.type)
    else
      match check_nameless nameless p with
      | .error e => .error e
      | .ok nameless =>
        if p.named && !pllua_acceptable_name (some p.name) then .error (.argument_name p.name)
        else validate_params nameless rest

/-- `pllua_validate_function`, before the body is compiled. -/
def pllua_validate_function (f : FunctionInfo) : Except Refusal Unit :=
  if !pllua_acceptable_name (some f.name) then .error (.function_name f.name)
  else if !f.rettype.acceptable none then .error (.rettype f.rettype)
  else validate_params false f.params

theorem validate_params_names {params : List Param} {nameless : Bool}
    (h : validate_params nameless params = .ok ()) :
    ∀ p ∈ params, p.named = true → IsName p.name.val := by
  induction params generalizing nameless with
  | nil => intro p hp; cases hp
  | cons q rest ih =>
    rw [validate_params] at h
    split at h
    · cases h
    · split at h
      · cases h
      · split at h
        · cases h
        · rename_i hname
          intro p hp hnamed
          rcases List.mem_cons.mp hp with rfl | hp
          · rw [hnamed, Bool.true_and, Bool.not_eq_true, Bool.not_eq_false'] at hname
            exact (acceptable_name_iff p.name).mp hname
          · exact ih h p hp hnamed

/-- Every name that is pasted was accepted. -/
theorem validated_names {f : FunctionInfo} (h : pllua_validate_function f = .ok ()) :
    IsName f.name.val ∧ ∀ p ∈ f.params, p.named = true → IsName p.name.val := by
  unfold pllua_validate_function at h
  split at h
  · cases h
  · rename_i hname
    split at h
    · cases h
    · rw [Bool.not_eq_true, Bool.not_eq_false'] at hname
      exact ⟨(acceptable_name_iff _).mp hname, validate_params_names h⟩

/-! ## The list of parameters -/

/-- The loop over the parameters: what it writes after `n` names, and the number of names. -/
def arglist_loop : Nat → List Param → List UInt8 × Nat
  | n, [] => ([], n)
  | n, p :: rest =>
    if p.mode ≠ .OUT then
      if p.named then
        have r := arglist_loop (n + 1) rest
        ((if n > 0 then [44] else []) ++ p.name.val ++ r.1, r.2)
      else ([], n)
    else arglist_loop n rest

/-- What stands between the parentheses. -/
def arglist (f : FunctionInfo) : List UInt8 :=
  if f.is_trigger then bytes "trigger,old,new,..."
  else if f.is_event_trigger then bytes "trigger"
  else if f.nargs > 0 then
    have r := if f.argnames.isSome then arglist_loop 0 f.params else ([], 0)
    r.1 ++ if r.2 < f.nargs then (if r.2 > 0 then [44] else []) ++ bytes "..." else []
  else []

/-- A list of parameters for Lua. -/
structure ParList where
  names : List CString
  dots : Bool
deriving DecidableEq

inductive Piece
  | name (s : CString)
  | dots
deriving DecidableEq

def ParList.pieces (l : ParList) : List Piece :=
  l.names.map .name ++ if l.dots then [.dots] else []

def Piece.text : Piece → List UInt8
  | .name s => s.val
  | .dots => bytes "..."

def Piece.token : Piece → Token
  | .name s => .name s.val
  | .dots => .op .ellipsis

/-- With commas between the texts. -/
def joined : List (List UInt8) → List UInt8
  | [] => []
  | [x] => x
  | x :: xs => x ++ 44 :: joined xs

def ParList.text (l : ParList) : List UInt8 := joined (l.pieces.map Piece.text)

/-- The names before the first parameter without a name, where those that are OUT are left out. -/
def loop_names (params : List Param) : List CString :=
  ((params.filter fun p => p.mode ≠ .OUT).takeWhile Param.named).map Param.name

def trigger_names : List CString :=
  [⟨bytes "trigger", by decide⟩, ⟨bytes "old", by decide⟩, ⟨bytes "new", by decide⟩]

/-- The list that is written. -/
def FunctionInfo.parlist (f : FunctionInfo) : ParList :=
  if f.is_trigger then ⟨trigger_names, true⟩
  else if f.is_event_trigger then ⟨trigger_names.take 1, false⟩
  else if f.nargs > 0 then
    ⟨loop_names f.params, decide ((loop_names f.params).length < f.nargs)⟩
  else ⟨[], false⟩

theorem joined_cons (x : List UInt8) {xs : List (List UInt8)} (h : xs ≠ []) :
    joined (x :: xs) = x ++ 44 :: joined xs := by
  cases xs with
  | nil => exact absurd rfl h
  | cons y ys => rfl

theorem loop_names_out {p : Param} (h : p.mode = .OUT) (rest : List Param) :
    loop_names (p :: rest) = loop_names rest := by
  simp [loop_names, h]

theorem loop_names_named {p : Param} (h : p.mode ≠ .OUT) (hp : p.named = true)
    (rest : List Param) : loop_names (p :: rest) = p.name :: loop_names rest := by
  simp [loop_names, h, hp]

theorem loop_names_nameless {p : Param} (h : p.mode ≠ .OUT) (hp : p.named = false)
    (rest : List Param) : loop_names (p :: rest) = [] := by
  simp [loop_names, h, hp]

theorem loop_names_nil {params : List Param} (h : ∀ p ∈ params, p.named = false) :
    loop_names params = [] := by
  induction params with
  | nil => rfl
  | cons p rest ih =>
    by_cases hmode : p.mode = .OUT
    · rw [loop_names_out hmode, ih fun p hp => h p (List.mem_cons_of_mem _ hp)]
    · exact loop_names_nameless hmode (h p List.mem_cons_self) rest

/-- What the loop writes: a comma before each name but the very first. -/
theorem arglist_loop_eq (n : Nat) (params : List Param) :
    arglist_loop n params =
      ((if n > 0 ∧ loop_names params ≠ [] then [44] else []) ++
        joined ((loop_names params).map Subtype.val), n + (loop_names params).length) := by
  induction params generalizing n with
  | nil => simp [arglist_loop, loop_names, joined]
  | cons p rest ih =>
    by_cases hmode : p.mode = .OUT
    · rw [arglist_loop, if_neg (not_not.mpr hmode), ih, loop_names_out hmode]
    · rw [arglist_loop, if_pos hmode]
      by_cases hp : p.named = true
      · rw [if_pos hp, loop_names_named hmode hp, ih]
        dsimp only
        by_cases hrest : loop_names rest = []
        · simp [hrest, joined]
        · have hmap : (loop_names rest).map Subtype.val ≠ [] :=
            fun h => hrest (List.map_eq_nil_iff.mp h)
          rw [List.map_cons, joined_cons _ hmap]
          simp [hrest]
          omega
      · rw [if_neg hp, loop_names_nameless hmode (Bool.not_eq_true _ ▸ hp)]
        simp [joined]

theorem joined_concat (xs : List (List UInt8)) (y : List UInt8) :
    joined (xs ++ [y]) = joined xs ++ ((if xs ≠ [] then [44] else []) ++ y) := by
  induction xs with
  | nil => rfl
  | cons x xs ih =>
    rw [List.cons_append, joined_cons x (by simp), ih]
    cases xs with
    | nil => simp [joined]
    | cons z zs => simp [joined_cons]

/-- The text of the list, as it is written. -/
theorem arglist_eq {f : FunctionInfo} (h : Catalogued f) : arglist f = f.parlist.text := by
  have loop : (if f.argnames.isSome then arglist_loop 0 f.params else ([], 0)) =
      (joined ((loop_names f.params).map Subtype.val), (loop_names f.params).length) := by
    split
    · rw [arglist_loop_eq]
      simp
    · rename_i hnone
      have nameless := h.argnames (Option.not_isSome_iff_eq_none.mp hnone)
      rw [loop_names_nil nameless]
      rfl
  unfold arglist FunctionInfo.parlist
  split
  · decide
  · split
    · decide
    · split
      · dsimp only
        rw [loop]
        have names : ((loop_names f.params).map Piece.name).map Piece.text =
            (loop_names f.params).map Subtype.val := by
          rw [List.map_map]
          rfl
        by_cases hdots : (loop_names f.params).length < f.nargs
        · rw [if_pos hdots]
          simp only [ParList.text, ParList.pieces, hdots, decide_true, if_true, List.map_append,
            names, List.map_cons, List.map_nil, joined_concat]
          cases loop_names f.params <;> simp [Piece.text]
        · rw [if_neg hdots]
          simp [ParList.text, ParList.pieces, hdots, Piece.text, Function.comp_def]
      · decide

/-! ## The chunk -/

/-- The text before the body. -/
def header (f : FunctionInfo) : List UInt8 :=
  bytes "local self = (...) local function " ++ f.name.val ++ 40 :: (arglist f ++ bytes ") ")

/-- The text after the body. -/
def footer (f : FunctionInfo) : List UInt8 := bytes " end return " ++ f.name.val

/-- The source that `pllua_compile` loads. -/
def chunk (f : FunctionInfo) : List UInt8 := header f ++ f.prosrc.val ++ footer f

/-- Tokens with commas between them. -/
def commas : List Token → List Token
  | [] => []
  | [t] => [t]
  | t :: ts => t :: .op .comma :: commas ts

def ParList.tokens (l : ParList) : List Token := commas (l.pieces.map Piece.token)

def header_tokens (f : FunctionInfo) : List Token :=
  [.kw .local, .name (bytes "self"), .op .assign, .op .lparen, .op .ellipsis, .op .rparen,
      .kw .local, .kw .function, .name f.name.val, .op .lparen] ++
    f.parlist.tokens ++ [.op .rparen]

def footer_tokens (f : FunctionInfo) : List Token := [.kw .end, .kw .return, .name f.name.val]

/-- The piece is one token when a comma or a parenthesis follows. -/
def Piece.Lexes (p : Piece) : Prop :=
  match p with
  | .name s => IsName s.val
  | .dots => True

theorem run_piece {p : Piece} (h : p.Lexes) {c : UInt8} {o : Op}
    (hc : is_alnum c = false) (hfirst : first c = some (.start, [.op o])) (rest : List UInt8) :
    run .start (p.text ++ c :: rest) =
      (run .start rest).map fun r => (r.1, p.token :: .op o :: r.2) := by
  cases p with
  | name s => exact run_name_then h hc hfirst rest
  | dots =>
    have dots : run .start (bytes "...") = some (.start, [.op .ellipsis]) := by decide
    have hstep : step .start c = some (.start, [.op o]) := hfirst
    rw [show Piece.dots.text = bytes "..." from rfl, run_append_of_run dots,
      run_cons_of_step hstep]
    simp [Function.comp_def, Piece.token]

/-- The list with its closing parenthesis. -/
theorem run_joined (pieces : List Piece) (h : ∀ p ∈ pieces, p.Lexes) (rest : List UInt8) :
    run .start (joined (pieces.map Piece.text) ++ 41 :: rest) =
      (run .start rest).map fun r =>
        (r.1, commas (pieces.map Piece.token) ++ .op .rparen :: r.2) := by
  have comma : first 44 = some (.start, [.op .comma]) := by decide
  have paren : first 41 = some (.start, [.op .rparen]) := by decide
  induction pieces with
  | nil =>
    have hstep : step .start 41 = some (.start, [.op .rparen]) := paren
    exact run_cons_of_step hstep rest
  | cons p ps ih =>
    have hp := h p List.mem_cons_self
    cases ps with
    | nil => exact run_piece hp (by decide) paren rest
    | cons q qs =>
      have inner := ih fun p hp => h p (List.mem_cons_of_mem _ hp)
      rw [List.map_cons, joined_cons _ (by simp), List.append_assoc, List.cons_append,
        run_piece hp (by decide) comma, inner]
      simp [Function.comp_def, commas]

/-- A function that is in the catalog and passed the validator. -/
structure Accepted (f : FunctionInfo) : Prop where
  catalogued : Catalogued f
  validated : pllua_validate_function f = .ok ()

section
variable {f : FunctionInfo}

theorem loop_names_accepted {params : List Param}
    (h : ∀ p ∈ params, p.named = true → IsName p.name.val) :
    ∀ s ∈ loop_names params, IsName s.val := by
  intro s hs
  obtain ⟨p, hp, rfl⟩ := List.mem_map.mp hs
  have named := List.mem_takeWhile_imp hp
  have mem := (List.takeWhile_sublist _).subset hp
  exact h p (List.mem_filter.mp mem).1 named

theorem trigger_names_are_names : ∀ s ∈ trigger_names, IsName s.val := by
  have accepted : ∀ s ∈ trigger_names, pllua_acceptable_name (some s) = true := by decide
  exact fun s hs => (acceptable_name_iff s).mp (accepted s hs)

theorem parlist_names (h : Accepted f) : ∀ s ∈ f.parlist.names, IsName s.val := by
  unfold FunctionInfo.parlist
  split
  · exact trigger_names_are_names
  · split
    · exact fun s hs => trigger_names_are_names s ((List.take_sublist 1 _).subset hs)
    · split
      · exact loop_names_accepted (validated_names h.validated).2
      · exact fun s hs => absurd hs List.not_mem_nil

theorem ParList.lexes {l : ParList} (h : ∀ s ∈ l.names, IsName s.val) :
    ∀ p ∈ l.pieces, p.Lexes := by
  intro p hp
  rcases List.mem_append.mp hp with hp | hp
  · obtain ⟨s, hs, rfl⟩ := List.mem_map.mp hp
    exact h s hs
  · split at hp
    · obtain rfl := List.mem_singleton.mp hp
      trivial
    · cases hp

/-- Each name of the header is one token of it. -/
theorem run_header (h : Accepted f) :
    run .start (header f) = some (.start, header_tokens f) := by
  have before : run .start (bytes "local self = (...) local function ") =
      some (.start, [.kw .local, .name (bytes "self"), .op .assign, .op .lparen, .op .ellipsis,
        .op .rparen, .kw .local, .kw .function]) := by decide +kernel
  have blank : run .start [32] = some (.start, []) := by decide
  have paren : first 40 = some (.start, [.op .lparen]) := by decide
  have name := (validated_names h.validated).1
  have close : bytes ") " = [41, 32] := by decide
  rw [header, arglist_eq h.catalogued, List.append_assoc, run_append_of_run before,
    run_name_then name (by decide) paren, close, ParList.text,
    run_joined _ (ParList.lexes (parlist_names h)), blank]
  simp [header_tokens, ParList.tokens]

theorem run_footer_name (h : Accepted f) :
    run .start (bytes "end return " ++ f.name.val) =
      some (.name f.name.val, [.kw .end, .kw .return]) := by
  have words : run .start (bytes "end return ") =
      some (.start, [.kw .end, .kw .return]) := by decide +kernel
  rw [run_append_of_run words, run_is_name (validated_names h.validated).1]
  rfl

/-- The names that are accepted are those of Lua, so each name that is pasted is one token, and the
other tokens of the wrapper do not depend on it. -/
theorem accepted_names_are_names :
    (∀ s : CString, pllua_acceptable_name (some s) = true ↔ IsName s.val) ∧
    ∀ f : FunctionInfo, Accepted f →
      run .start (header f) = some (.start, header_tokens f) ∧
      lex (footer f) = some (footer_tokens f) := by
  refine ⟨acceptable_name_iff, fun f h => ⟨run_header h, ?_⟩⟩
  have blank : run .start [32] = some (.start, []) := by decide
  have split : footer f = [32] ++ (bytes "end return " ++ f.name.val) := by
    rw [footer, ← List.append_assoc]
    rfl
  have ends : (State.name f.name.val).finish = some [.name f.name.val] := by
    rw [State.finish, word_of_name (validated_names h.validated).1]
  rw [lex, split, run_append_of_run blank, run_footer_name h]
  simp [ends, footer_tokens]

end

/-! ## The parameters that are bound -/

/-- The input parameters before the first one without a name. -/
def FunctionInfo.leading (f : FunctionInfo) : List Param := f.inputs.takeWhile Param.named

/-- The list for the input parameters: the names of the leading ones, and `...` if some parameter has
no name. -/
def FunctionInfo.expected (f : FunctionInfo) : ParList where
  names := f.leading.map Param.name
  dots := f.inputs.any fun p => !p.named

/-- The value of a local variable in a call: of two parameters of one name the later one hides the
other, and a parameter without an argument is nil. -/
def ParList.lookup {V : Type} (nil : V) : List CString → List V → CString → Option V
  | [], _, _ => none
  | s :: names, args, x =>
    match ParList.lookup nil names args.tail x with
    | some v => some v
    | none => if s = x then some (args.headD nil) else none

/-- The arguments that `...` stands for. -/
def ParList.rest {V : Type} (l : ParList) (args : List V) : List V :=
  if l.dots then args.drop l.names.length else []

/-- The list is that of the input parameters: each argument is bound to the parameter of its place, by
its name or within `...`, and no other name is bound. -/
structure Matches (f : FunctionInfo) : Prop where
  text : arglist f = f.expected.text
  bound : ∀ {V : Type} (nil : V) (args : List V) (k : Nat) (p : Param) (v : V),
    f.inputs[k]? = some p → args[k]? = some v →
      if k < f.leading.length then ParList.lookup nil f.parlist.names args p.name = some v
      else (f.parlist.rest args)[k - f.leading.length]? = some v
  unshadowed : ∀ {V : Type} (nil : V) (args : List V) (x : CString),
    (ParList.lookup nil f.parlist.names args x).isSome → ∃ p ∈ f.leading, p.name = x

/-- The parameters before the first input parameter without a name. -/
def before_nameless (params : List Param) : List Param :=
  params.takeWhile fun p => !(p.mode.is_input && !p.named)

theorem before_nameless_nameless {p : Param} (h : (p.mode.is_input && !p.named) = true)
    (rest : List Param) : before_nameless (p :: rest) = [] :=
  List.takeWhile_cons_of_neg (by rw [h]; decide)

theorem before_nameless_cons {p : Param} (h : ¬ (p.mode.is_input && !p.named) = true)
    (rest : List Param) : before_nameless (p :: rest) = p :: before_nameless rest :=
  List.takeWhile_cons_of_pos (by rw [Bool.eq_false_iff.mpr h]; decide)

/-- A column of the result table is among them, and there is an input parameter. -/
def ColumnTaken (f : FunctionInfo) : Prop :=
  f.inputs ≠ [] ∧ ∃ p ∈ before_nameless f.params, p.mode = .TABLE

theorem lookup_isSome {V : Type} {nil : V} {names : List CString} {args : List V} {x : CString}
    (h : (ParList.lookup nil names args x).isSome) : x ∈ names := by
  induction names generalizing args with
  | nil => cases h
  | cons s names ih =>
    rw [ParList.lookup] at h
    split at h
    · rename_i v hv
      have hrest : (ParList.lookup nil names args.tail x).isSome := by rw [hv]; rfl
      exact List.mem_cons_of_mem _ (ih hrest)
    · split at h
      · rename_i hs
        exact hs ▸ List.mem_cons_self
      · cases h

theorem lookup_of_nodup {V : Type} {nil : V} {names : List CString} (hnodup : names.Nodup)
    {args : List V} {k : Nat} {x : CString} {v : V} (hx : names[k]? = some x)
    (hv : args[k]? = some v) : ParList.lookup nil names args x = some v := by
  induction names generalizing args k with
  | nil => cases hx
  | cons s names ih =>
    obtain ⟨hs, hrest⟩ := List.nodup_cons.mp hnodup
    cases args with
    | nil => cases hv
    | cons a args =>
      rw [ParList.lookup]
      cases k with
      | zero =>
        obtain rfl : s = x := by simpa using hx
        obtain rfl : a = v := by simpa using hv
        have absent : ParList.lookup nil names args s = none := by
          cases hfound : ParList.lookup nil names args s with
          | none => rfl
          | some w => exact absurd (lookup_isSome (by rw [hfound]; rfl)) hs
        simp [absent]
      | succ k =>
        have inner : ParList.lookup nil names args x = some v :=
          ih hrest (by simpa using hx) (by simpa using hv)
        simp [inner]

section
variable {f : FunctionInfo}

theorem leading_nodup (h : Catalogued f) : (f.leading.map Param.name).Nodup := by
  have sublist : f.leading.Sublist (f.inputs.filter Param.named) := by
    unfold FunctionInfo.leading
    have kept : (f.inputs.takeWhile Param.named).filter Param.named =
        f.inputs.takeWhile Param.named :=
      List.filter_eq_self.mpr fun p hp => List.mem_takeWhile_imp hp
    rw [← kept]
    exact (List.takeWhile_sublist _).filter _
  exact (sublist.map _).nodup h.distinct

theorem leading_getElem {k : Nat} (h : k < f.leading.length) :
    f.inputs[k]? = f.leading[k]? := by
  have split := List.takeWhile_append_dropWhile (p := Param.named) (l := f.inputs)
  conv_lhs => rw [← split]
  exact List.getElem?_append_left h

/-- Some parameter has no name if not all are among the leading ones. -/
theorem expected_dots : f.expected.dots = decide (f.leading.length < f.inputs.length) := by
  unfold FunctionInfo.expected FunctionInfo.leading
  dsimp only
  induction f.inputs with
  | nil => rfl
  | cons p rest ih =>
    cases hp : p.named with
    | true => simpa [hp] using ih
    | false => simp [hp]

/-- With the right list every argument has its parameter. -/
theorem matches_of_parlist (h : Catalogued f) (heq : f.parlist = f.expected) : Matches f where
  text := (arglist_eq h).trans (by rw [heq])
  bound := by
    intro V nil args k p v hp hv
    rw [heq]
    split
    · rename_i hk
      rw [leading_getElem hk] at hp
      have hname : (f.leading.map Param.name)[k]? = some p.name := by
        rw [List.getElem?_map, hp]
        rfl
      exact lookup_of_nodup (leading_nodup h) hname hv
    · rename_i hk
      have hlength := List.getElem?_eq_some_iff.mp hp
      have hdots : f.expected.dots = true := by
        rw [expected_dots]
        simp only [decide_eq_true_eq]
        have := hlength.1
        omega
      have names : f.expected.names.length = f.leading.length := List.length_map _
      rw [ParList.rest, if_pos hdots, List.getElem?_drop, names,
        show f.leading.length + (k - f.leading.length) = k by omega]
      exact hv
  unshadowed := by
    intro V nil args x hx
    rw [heq] at hx
    exact List.mem_map.mp (lookup_isSome hx)

/-- Without a column among them, the names of the loop are those of the input parameters. -/
theorem loop_names_inputs {params : List Param}
    (h : ∀ p ∈ before_nameless params, p.mode ≠ .TABLE) :
    loop_names params =
      ((params.filter fun p => p.mode.is_input).takeWhile Param.named).map Param.name := by
  induction params with
  | nil => rfl
  | cons p rest ih =>
    by_cases hstop : (p.mode.is_input && !p.named) = true
    · rw [Bool.and_eq_true, Bool.not_eq_true'] at hstop
      have hmode : p.mode ≠ .OUT := by
        intro hout
        rw [hout] at hstop
        cases hstop.1
      rw [loop_names_nameless hmode hstop.2]
      simp [hstop.1, hstop.2]
    · rw [before_nameless_cons hstop] at h
      have hp := h p List.mem_cons_self
      have inner := ih fun q hq => h q (List.mem_cons_of_mem _ hq)
      by_cases hmode : p.mode = .OUT
      · rw [loop_names_out hmode, inner]
        simp [hmode, ArgMode.is_input]
      · have hinput : p.mode.is_input = true := by
          cases hm : p.mode <;> first | rfl | exact absurd hm hmode | exact absurd hm hp
        have hnamed : p.named = true := by simpa [hinput] using hstop
        rw [loop_names_named hmode hnamed, inner]
        simp [hinput, hnamed]

/-- No name of an input parameter is left out before the first one without a name. -/
theorem inputs_le_loop {params : List Param}
    (hnamed : ∀ p ∈ params, p.mode = .TABLE → p.named = true) :
    ((params.filter fun p => p.mode.is_input).takeWhile Param.named).length ≤
        (loop_names params).length ∧
      ((∃ p ∈ before_nameless params, p.mode = .TABLE) →
        ((params.filter fun p => p.mode.is_input).takeWhile Param.named).length <
          (loop_names params).length) := by
  induction params with
  | nil => exact ⟨Nat.le_refl _, fun ⟨p, hp, _⟩ => (by cases hp)⟩
  | cons p rest ih =>
    have inner := ih fun q hq => hnamed q (List.mem_cons_of_mem _ hq)
    by_cases hstop : (p.mode.is_input && !p.named) = true
    · rw [before_nameless_nameless hstop]
      rw [Bool.and_eq_true, Bool.not_eq_true'] at hstop
      refine ⟨?_, fun ⟨q, hq, _⟩ => (by cases hq)⟩
      simp [hstop.1, hstop.2]
    · rw [before_nameless_cons hstop]
      cases hmode : p.mode with
      | OUT =>
        rw [loop_names_out hmode]
        simpa [hmode, ArgMode.is_input] using inner
      | TABLE =>
        have hp := hnamed p List.mem_cons_self hmode
        have hinput : ¬ p.mode.is_input = true := by rw [hmode]; decide
        rw [loop_names_named (by simp [hmode]) hp, 
          List.filter_cons_of_neg (p := fun p : Param => p.mode.is_input) hinput, List.length_cons]
        exact ⟨Nat.le_succ_of_le inner.1, fun _ => Nat.lt_succ_of_le inner.1⟩
      | _ =>
        have hp : p.named = true := by simpa [hmode, ArgMode.is_input] using hstop
        rw [loop_names_named (by simp [hmode]) hp]
        simpa [hmode, ArgMode.is_input, hp] using inner

theorem parlist_general (htrigger : f.is_trigger = false) (hevent : f.is_event_trigger = false)
    (h : Catalogued f) : f.parlist =
      if f.inputs = [] then ⟨[], false⟩
      else ⟨loop_names f.params, decide ((loop_names f.params).length < f.inputs.length)⟩ := by
  unfold FunctionInfo.parlist
  rw [htrigger, hevent, if_neg (by decide), if_neg (by decide), h.nargs]
  by_cases hinputs : f.inputs = []
  · rw [hinputs]
    rfl
  · rw [if_pos (List.length_pos_iff.mpr hinputs), if_neg hinputs]

theorem expected_empty (h : f.inputs = []) : f.expected = ⟨[], false⟩ := by
  unfold FunctionInfo.expected FunctionInfo.leading
  rw [h]
  rfl

/-- The list is the right one unless a column is taken for a parameter. -/
theorem parlist_eq_iff (htrigger : f.is_trigger = false) (hevent : f.is_event_trigger = false)
    (h : Catalogued f) : f.parlist = f.expected ↔ ¬ ColumnTaken f := by
  rw [parlist_general htrigger hevent h]
  by_cases hinputs : f.inputs = []
  · rw [if_pos hinputs, expected_empty hinputs]
    exact ⟨fun _ taken => taken.1 hinputs, fun _ => rfl⟩
  · rw [if_neg hinputs]
    constructor
    · rintro heq ⟨-, htable⟩
      have longer := (inputs_le_loop h.table_named).2 htable
      have names : loop_names f.params = f.leading.map Param.name := congrArg ParList.names heq
      rw [names, List.length_map] at longer
      exact Nat.lt_irrefl _ longer
    · intro hnot
      have names : loop_names f.params = f.leading.map Param.name :=
        loop_names_inputs fun p hp htable => hnot ⟨hinputs, p, hp, htable⟩
      have dots := expected_dots (f := f)
      rw [names, List.length_map, ← dots]
      rfl

/-! The text tells what the list is. -/

theorem commas_inj {ts us : List Token} (h : commas ts = commas us) : ts = us := by
  induction ts generalizing us with
  | nil =>
    rcases us with _ | ⟨u, _ | ⟨v, us⟩⟩
    · rfl
    · cases h
    · cases h
  | cons t ts ih =>
    rcases ts with _ | ⟨t', ts⟩ <;> rcases us with _ | ⟨u, _ | ⟨u', us⟩⟩
    · cases h
    · exact h
    · cases h
    · cases h
    · cases h
    · simp only [commas, List.cons.injEq, true_and] at h
      rw [h.1, ih h.2]

theorem piece_token_inj : Function.Injective Piece.token := by
  intro p q h
  cases p <;> cases q <;> first | rfl | cases h | skip
  exact congrArg Piece.name (Subtype.ext (Token.name.inj h))

theorem pieces_inj {l l' : ParList} (h : l.pieces = l'.pieces) : l = l' := by
  obtain ⟨names, dots⟩ := l
  obtain ⟨names', dots'⟩ := l'
  have same_dots : dots = dots' := by
    have mem (names : List CString) (dots : Bool) :
        Piece.dots ∈ (ParList.mk names dots).pieces ↔ dots = true := by
      cases dots <;> simp [ParList.pieces]
    rw [Bool.eq_iff_iff, ← mem names dots, ← mem names' dots', h]
  subst same_dots
  have same_names := List.append_cancel_right h
  rw [List.map_inj_right fun _ _ => Piece.name.inj] at same_names
  exact congrArg (fun names => ParList.mk names dots) same_names

theorem text_inj {l l' : ParList} (h : ∀ s ∈ l.names, IsName s.val)
    (h' : ∀ s ∈ l'.names, IsName s.val) (htext : l.text = l'.text) : l = l' := by
  have lexed := run_joined _ (ParList.lexes h) []
  have lexed' := run_joined _ (ParList.lexes h') []
  rw [← ParList.text, htext, ParList.text, lexed'] at lexed
  simp only [run, Option.map_some, Option.some.injEq, Prod.mk.injEq, true_and] at lexed
  have tokens := commas_inj (List.append_cancel_right lexed)
  exact (pieces_inj (piece_token_inj.list_map tokens)).symm

/-- Each argument is bound to the parameter of its place unless a column of the result table is taken
for a parameter, which the test for `'o'` alone lets through. -/
theorem parameters_match_iff (h : Accepted f) (htrigger : f.is_trigger = false)
    (hevent : f.is_event_trigger = false) : Matches f ↔ ¬ ColumnTaken f := by
  rw [← parlist_eq_iff htrigger hevent h.catalogued]
  refine ⟨fun hmatches => ?_, matches_of_parlist h.catalogued⟩
  have hexpected : ∀ s ∈ f.expected.names, IsName s.val := by
    intro s hs
    obtain ⟨p, hp, rfl⟩ := List.mem_map.mp hs
    have mem := (List.takeWhile_sublist _).subset hp
    exact (validated_names h.validated).2 p (List.mem_filter.mp mem).1 (List.mem_takeWhile_imp hp)
  exact text_inj (parlist_names h) hexpected ((arglist_eq h.catalogued).symm.trans hmatches.text)

end

/-! ## Two functions -/

/-- `f(x integer) returns ...`, whose other parameter is `y`. -/
def with_second (mode : ArgMode) : FunctionInfo where
  name := ⟨bytes "f", by decide⟩
  rettype := .pseudo .RECORDOID
  is_trigger := false
  is_event_trigger := false
  nargs := 1
  nallargs := 2
  allargtypes := [.plain 23, .plain 23]
  argnames := some [⟨bytes "x", by decide⟩, ⟨bytes "y", by decide⟩]
  argmodes := some [.IN, mode]
  prosrc := ⟨bytes "return x", by decide⟩

theorem out_accepted : Accepted (with_second .OUT) :=
  ⟨⟨by decide, by decide, by decide, fun h => (by cases h)⟩, by decide⟩

theorem table_accepted : Accepted (with_second .TABLE) :=
  ⟨⟨by decide, by decide, by decide, fun h => (by cases h)⟩, by decide⟩

theorem out_parameter_matches : Matches (with_second .OUT) :=
  (parameters_match_iff out_accepted rfl rfl).mpr fun taken => by
    obtain ⟨-, p, hp, hmode⟩ := taken
    have all : ∀ p ∈ before_nameless (with_second .OUT).params, p.mode ≠ .TABLE := by decide
    exact all p hp hmode

/-- `f(x integer) returns table (y integer)` gets the list `x,y`. -/
theorem table_column_taken :
    ¬ ∀ f : FunctionInfo, Accepted f → f.is_trigger = false → f.is_event_trigger = false →
      Matches f := by
  intro holds
  have text := (holds _ table_accepted rfl rfl).text
  revert text
  decide

end pllua.source
