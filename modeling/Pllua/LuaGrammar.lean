-- The complete syntax of Lua 5.4, without the precedence of operators, and the blocks of a text.
import Pllua.Grammars
import Pllua.LuaLexer

open grammars

namespace lua

/-! ## Symbols -/

/-- A token without its text. -/
inductive Kind
  | name | numeral | string
  | kw (k : Kw)
  | op (o : Op)
deriving DecidableEq, Repr

def Token.kind : Token → Kind
  | .name _ => .name
  | .numeral _ => .numeral
  | .string _ => .string
  | .kw k => .kw k
  | .op o => .op o

inductive NT
  | block | stats | stat | retstat | opt_semi | opt_explist
  | varlist | vars | var | explist | exps | exp | prefixexp | functioncall | args
  | elseifs | opt_else | opt_step | namelist | names | attnamelist | attnames | attrib | opt_assign
  | funcname | dotted | opt_method | functiondef | opt_parlist | parlist | opt_ellipsis
  | tableconstructor | opt_fieldlist | fieldlist | fields | opt_sep | field | fieldsep
  | binop | unop
deriving DecidableEq, Repr

abbrev Sym := Symbol Kind NT

def kw (k : Kw) : Sym := .terminal (.kw k)
def op (o : Op) : Sym := .terminal (.op o)
def name : Sym := .terminal .name
def nt (n : NT) : Sym := .nonterminal n

/-! ## Rules -/

def block_rules : List (NT × List Sym) :=
  [(.block, [nt .stats, nt .retstat]),
    (.stats, []),
    (.stats, [nt .stat, nt .stats]),
    (.retstat, []),
    (.retstat, [kw .return, nt .opt_explist, nt .opt_semi]),
    (.opt_semi, []),
    (.opt_semi, [op .semicolon]),
    (.opt_explist, []),
    (.opt_explist, [nt .explist])]

def stat_rules : List (NT × List Sym) :=
  [(.stat, [op .semicolon]),
    (.stat, [nt .varlist, op .assign, nt .explist]),
    (.stat, [nt .functioncall]),
    (.stat, [op .dcolon, name, op .dcolon]),
    (.stat, [kw .break]),
    (.stat, [kw .goto, name]),
    (.stat, [kw .do, nt .block, kw .end]),
    (.stat, [kw .while, nt .exp, kw .do, nt .block, kw .end]),
    (.stat, [kw .repeat, nt .block, kw .until, nt .exp]),
    (.stat, [kw .if, nt .exp, kw .then, nt .block, nt .elseifs, nt .opt_else, kw .end]),
    (.stat, [kw .for, name, op .assign, nt .exp, op .comma, nt .exp, nt .opt_step, kw .do,
      nt .block, kw .end]),
    (.stat, [kw .for, nt .namelist, kw .in, nt .explist, kw .do, nt .block, kw .end]),
    (.stat, [kw .function, nt .funcname, op .lparen, nt .opt_parlist, op .rparen, nt .block,
      kw .end]),
    (.stat, [kw .local, kw .function, name, op .lparen, nt .opt_parlist, op .rparen, nt .block,
      kw .end]),
    (.stat, [kw .local, nt .attnamelist, nt .opt_assign]),
    (.elseifs, []),
    (.elseifs, [kw .elseif, nt .exp, kw .then, nt .block, nt .elseifs]),
    (.opt_else, []),
    (.opt_else, [kw .else, nt .block]),
    (.opt_step, []),
    (.opt_step, [op .comma, nt .exp]),
    (.opt_assign, []),
    (.opt_assign, [op .assign, nt .explist])]

def name_rules : List (NT × List Sym) :=
  [(.namelist, [name, nt .names]),
    (.names, []),
    (.names, [op .comma, name, nt .names]),
    (.attnamelist, [name, nt .attrib, nt .attnames]),
    (.attnames, []),
    (.attnames, [op .comma, name, nt .attrib, nt .attnames]),
    (.attrib, []),
    (.attrib, [op .lt, name, op .gt]),
    (.funcname, [name, nt .dotted, nt .opt_method]),
    (.dotted, []),
    (.dotted, [op .dot, name, nt .dotted]),
    (.opt_method, []),
    (.opt_method, [op .colon, name]),
    (.opt_parlist, []),
    (.opt_parlist, [nt .parlist]),
    (.parlist, [nt .namelist, nt .opt_ellipsis]),
    (.parlist, [op .ellipsis]),
    (.opt_ellipsis, []),
    (.opt_ellipsis, [op .comma, op .ellipsis])]

def exp_rules : List (NT × List Sym) :=
  [(.varlist, [nt .var, nt .vars]),
    (.vars, []),
    (.vars, [op .comma, nt .var, nt .vars]),
    (.var, [name]),
    (.var, [nt .prefixexp, op .lbracket, nt .exp, op .rbracket]),
    (.var, [nt .prefixexp, op .dot, name]),
    (.explist, [nt .exp, nt .exps]),
    (.exps, []),
    (.exps, [op .comma, nt .exp, nt .exps]),
    (.exp, [kw .nil]),
    (.exp, [kw .false]),
    (.exp, [kw .true]),
    (.exp, [.terminal .numeral]),
    (.exp, [.terminal .string]),
    (.exp, [op .ellipsis]),
    (.exp, [nt .functiondef]),
    (.exp, [nt .prefixexp]),
    (.exp, [nt .tableconstructor]),
    (.exp, [nt .exp, nt .binop, nt .exp]),
    (.exp, [nt .unop, nt .exp]),
    (.prefixexp, [nt .var]),
    (.prefixexp, [nt .functioncall]),
    (.prefixexp, [op .lparen, nt .exp, op .rparen]),
    (.functioncall, [nt .prefixexp, nt .args]),
    (.functioncall, [nt .prefixexp, op .colon, name, nt .args]),
    (.args, [op .lparen, nt .opt_explist, op .rparen]),
    (.args, [nt .tableconstructor]),
    (.args, [.terminal .string]),
    (.functiondef, [kw .function, op .lparen, nt .opt_parlist, op .rparen, nt .block, kw .end])]

def table_rules : List (NT × List Sym) :=
  [(.tableconstructor, [op .lbrace, nt .opt_fieldlist, op .rbrace]),
    (.opt_fieldlist, []),
    (.opt_fieldlist, [nt .fieldlist]),
    (.fieldlist, [nt .field, nt .fields, nt .opt_sep]),
    (.fields, []),
    (.fields, [nt .fieldsep, nt .field, nt .fields]),
    (.opt_sep, []),
    (.opt_sep, [nt .fieldsep]),
    (.field, [op .lbracket, nt .exp, op .rbracket, op .assign, nt .exp]),
    (.field, [name, op .assign, nt .exp]),
    (.field, [nt .exp]),
    (.fieldsep, [op .comma]),
    (.fieldsep, [op .semicolon])]

def op_rules : List (NT × List Sym) :=
  ([.plus, .minus, .star, .slash, .idiv, .caret, .percent, .amp, .tilde, .bar, .shr, .shl, .dots,
      .lt, .le, .gt, .ge, .eq, .ne] : List Op).map (fun o => (NT.binop, [op o])) ++
    [(.binop, [kw .and]), (.binop, [kw .or]), (.unop, [op .minus]), (.unop, [kw .not]),
      (.unop, [op .hash]), (.unop, [op .tilde])]

def rules : List (NT × List Sym) :=
  block_rules ++ stat_rules ++ name_rules ++ exp_rules ++ table_rules ++ op_rules

def rule_set : Finset (ContextFreeRule Kind NT) := (rules.map fun r => ⟨r.1, r.2⟩).toFinset

theorem mem_rule_set {r : ContextFreeRule Kind NT} :
    r ∈ rule_set ↔ (r.input, r.output) ∈ rules := by
  rw [rule_set, List.mem_toFinset, List.mem_map]
  constructor
  · rintro ⟨e, he, rfl⟩
    exact he
  · exact fun h => ⟨_, h, rfl⟩

def grammar : ContextFreeGrammar Kind where
  NT := NT
  initial := .block
  rules := rule_set

/-! ## Blocks -/

/-- The tokens are those of a part of this kind. -/
def IsPart (A : NT) (ts : List Token) : Prop :=
  Gives grammar [.nonterminal A] (ts.map Token.kind)

def IsBlock (ts : List Token) : Prop := IsPart .block ts

/-- The words that `end` is for: the `do` of a loop is the one it ends. -/
def kind_side : Kind → Side
  | .kw .function => .opens
  | .kw .do => .opens
  | .kw .if => .opens
  | .kw .end => .closes
  | _ => .neutral

def token_side (t : Token) : Side := kind_side t.kind

theorem rules_balanced : ∀ r ∈ grammar.rules, Balanced (symbol_side kind_side) r.output := by
  have all : ∀ r ∈ rules, Balanced (symbol_side kind_side) r.2 := by decide
  exact fun r hr => all _ (mem_rule_set.mp hr)

theorem climb_kinds (depth : Nat) (ts : List Token) :
    climb kind_side depth (ts.map Token.kind) = climb token_side depth ts := by
  induction ts generalizing depth with
  | nil => rfl
  | cons t ts ih =>
    simp only [List.map_cons, climb, token_side]
    split <;> first | exact ih _ | rfl

/-- A block has an `end` for each of its words that need one, and no other. -/
theorem IsBlock.balanced {ts : List Token} (h : IsBlock ts) : Balanced token_side ts := by
  have hkinds := Gives.balanced rules_balanced h
  unfold grammars.Balanced at hkinds ⊢
  rwa [climb_kinds] at hkinds

/-! ## Parts -/

theorem gives_rule {A : NT} {form : List Sym} {w : List Kind} (hrule : (A, form) ∈ rules)
    (h : Gives grammar form w) : Gives grammar [nt A] w :=
  Gives.rule (mem_rule_set.mpr hrule) h

theorem gives_empty {A : NT} (hrule : (A, []) ∈ rules) : Gives grammar [nt A] [] :=
  gives_rule hrule Gives.nil

theorem gives_kw {form : List Sym} {w : List Kind} (k : Kw) (h : Gives grammar form w) :
    Gives grammar (kw k :: form) (.kw k :: w) :=
  Gives.terminal _ h

theorem gives_op {form : List Sym} {w : List Kind} (o : Op) (h : Gives grammar form w) :
    Gives grammar (op o :: form) (.op o :: w) :=
  Gives.terminal _ h

theorem gives_name {form : List Sym} {w : List Kind} (h : Gives grammar form w) :
    Gives grammar (name :: form) (.name :: w) :=
  Gives.terminal _ h

theorem gives_nt {A : NT} {form : List Sym} {w w' : List Kind} (h : Gives grammar [nt A] w)
    (h' : Gives grammar form w') : Gives grammar (nt A :: form) (w ++ w') :=
  Gives.append h h'

/-- A nonterminal that is left empty. -/
theorem gives_skip {A : NT} {form : List Sym} {w : List Kind} (hrule : (A, []) ∈ rules)
    (h : Gives grammar form w) : Gives grammar (nt A :: form) w :=
  Gives.append (gives_empty hrule) h

/-- An expression alone is a list of expressions. -/
theorem gives_explist {w : List Kind} (h : Gives grammar [nt .exp] w) :
    Gives grammar [nt .explist] w := by
  have list := gives_nt h (gives_empty (A := .exps) (by decide))
  rw [List.append_nil] at list
  exact gives_rule (by decide) list

theorem gives_names (n : Nat) :
    Gives grammar [nt .names] (List.replicate n [Kind.op .comma, Kind.name]).flatten := by
  induction n with
  | zero => exact gives_empty (by decide)
  | succ n ih => exact gives_rule (by decide) (gives_op .comma (gives_name ih))

/-- A list of parameters: names, and then `...` if it is there. -/
theorem gives_parlist (n : Nat) (dots : Bool) :
    Gives grammar [nt .opt_parlist]
      (.name :: (List.replicate n [Kind.op .comma, Kind.name]).flatten ++
        if dots then [.op .comma, .op .ellipsis] else []) := by
  have names : Gives grammar [nt .namelist]
      (.name :: (List.replicate n [Kind.op .comma, Kind.name]).flatten) :=
    gives_rule (by decide) (gives_name (gives_names n))
  have ellipsis : Gives grammar [nt .opt_ellipsis]
      (if dots then [.op .comma, .op .ellipsis] else []) := by
    cases dots with
    | false => exact gives_empty (by decide)
    | true => exact gives_rule (by decide) (gives_op .comma (gives_op .ellipsis Gives.nil))
  have parlist : Gives grammar [nt .parlist] _ :=
    gives_rule (by decide) (gives_nt names ellipsis)
  exact gives_rule (by decide) parlist

end lua
