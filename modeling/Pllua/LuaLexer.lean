-- The lexical rules of Lua 5.4 as a machine that takes one byte at a time, so that the tokens of a
-- text follow from those of its parts.
import Mathlib.Algebra.Group.Nat.Defs
import Mathlib.Data.List.Basic
import Mathlib.Tactic.Common

namespace lua

/-! ## Tokens -/

/-- The reserved words. -/
inductive Kw
  | and | break | do | else | elseif | end | false | for | function | goto | if | in | local | nil
  | not | or | repeat | return | then | true | until | while
deriving DecidableEq, Repr

/-- The other symbols. -/
inductive Op
  | plus | minus | star | slash | percent | caret | hash | amp | tilde | bar | shl | shr | idiv
  | eq | ne | le | ge | lt | gt | assign | lparen | rparen | lbrace | rbrace | lbracket | rbracket
  | dcolon | semicolon | colon | comma | dot | dots | ellipsis
deriving DecidableEq, Repr

/-- A token with its text, where that is not fixed. -/
inductive Token
  | name (s : List UInt8)
  | numeral (s : List UInt8)
  | string (s : List UInt8)
  | kw (k : Kw)
  | op (o : Op)
deriving DecidableEq, Repr

/-- The bytes of an ASCII text. -/
def bytes (s : String) : List UInt8 := s.toList.map fun c => UInt8.ofNat c.toNat

def reserved : List (List UInt8 × Kw) :=
  [(bytes "and", .and), (bytes "break", .break), (bytes "do", .do), (bytes "else", .else),
    (bytes "elseif", .elseif), (bytes "end", .end), (bytes "false", .false), (bytes "for", .for),
    (bytes "function", .function), (bytes "goto", .goto), (bytes "if", .if), (bytes "in", .in),
    (bytes "local", .local), (bytes "nil", .nil), (bytes "not", .not), (bytes "or", .or),
    (bytes "repeat", .repeat), (bytes "return", .return), (bytes "then", .then),
    (bytes "true", .true), (bytes "until", .until), (bytes "while", .while)]

/-! ## Bytes -/

def is_alpha (c : UInt8) : Bool := (65 ≤ c && c ≤ 90) || (97 ≤ c && c ≤ 122) || c == 95
def is_digit (c : UInt8) : Bool := 48 ≤ c && c ≤ 57
def is_alnum (c : UInt8) : Bool := is_alpha c || is_digit c
def is_hex (c : UInt8) : Bool := is_digit c || (65 ≤ c && c ≤ 70) || (97 ≤ c && c ≤ 102)
def is_newline (c : UInt8) : Bool := c == 10 || c == 13
def is_space (c : UInt8) : Bool := c == 32 || (9 ≤ c && c ≤ 13)

/-- The reserved word or the name with this text. -/
def word (s : List UInt8) : Token :=
  match reserved.find? fun e => e.1 == s with
  | some e => .kw e.2
  | none => .name s

/-- The text of a name: letters, digits and underscores that do not begin with a digit, and no reserved
word. -/
structure IsName (s : List UInt8) : Prop where
  first : ∃ c cs, s = c :: cs ∧ is_alpha c = true ∧ ∀ d ∈ cs, is_alnum d = true
  not_reserved : ∀ e ∈ reserved, e.1 ≠ s

/-! ## Numerals -/

/-- What follows the digits of a numeral: nothing, or an exponent. -/
def valid_exponent (marks : List UInt8) : List UInt8 → Bool
  | [] => true
  | c :: s =>
    have digits := match s with
      | 43 :: s => s
      | 45 :: s => s
      | s => s
    marks.contains c && !digits.isEmpty && digits.all is_digit

/-- Digits with at most one point among them, and an exponent. -/
def valid_digits (digit : UInt8 → Bool) (marks s : List UInt8) : Bool :=
  have whole := s.takeWhile digit
  match s.dropWhile digit with
  | 46 :: rest =>
    (!whole.isEmpty || !(rest.takeWhile digit).isEmpty) &&
      valid_exponent marks (rest.dropWhile digit)
  | rest => !whole.isEmpty && valid_exponent marks rest

def is_hex_numeral (s : List UInt8) : Bool := s.take 2 == bytes "0x" || s.take 2 == bytes "0X"

def valid_numeral (s : List UInt8) : Bool :=
  if is_hex_numeral s then valid_digits is_hex (bytes "pP") (s.drop 2)
  else valid_digits is_digit (bytes "eE") s

/-! ## The machine -/

/-- What was read of a token that is not at its end. The text of a name, a numeral or a string is
kept, and `closing` counts the signs of equality after a bracket that may close a long string. -/
inductive State
  | start
  | name (text : List UInt8)
  | number (text : List UInt8) (exponent : Bool)
  | op (o : Op)
  | bracket (level : Nat)
  | long (level : Nat) (closing : Option Nat) (text : List UInt8)
  | str (quote : UInt8) (text : List UInt8)
  | escape (quote : UInt8) (text : List UInt8)
  | newline (quote first : UInt8) (text : List UInt8)
  | hex (quote : UInt8) (left : Nat) (text : List UInt8)
  | decimal (quote : UInt8) (left value : Nat) (text : List UInt8)
  | utf8 (quote : UInt8) (text : List UInt8)
  | codepoint (quote : UInt8) (digits : Bool) (value : Nat) (text : List UInt8)
  | blanks (quote : UInt8) (text : List UInt8)
  | dashes
  | comment_bracket (level : Nat)
  | comment
  | long_comment (level : Nat) (closing : Option Nat)
deriving DecidableEq, Repr

/-- The tokens of a state if the text ends. -/
def State.finish : State → Option (List Token)
  | .start => some []
  | .name text => some [word text]
  | .number text _ => if valid_numeral text then some [.numeral text] else none
  | .op o => some [.op o]
  | .bracket level => if level = 0 then some [.op .lbracket] else none
  | .dashes => some []
  | .comment_bracket _ => some []
  | .comment => some []
  | _ => none

/-- A token of one byte. -/
def single (c : UInt8) : Option Op :=
  ([(43, .plus), (42, .star), (37, .percent), (94, .caret), (35, .hash), (38, .amp), (124, .bar),
    (40, .lparen), (41, .rparen), (123, .lbrace), (125, .rbrace), (93, .rbracket),
    (59, .semicolon), (44, .comma)] : List (UInt8 × Op)).find? (fun e => e.1 == c) |>.map Prod.snd

/-- A byte that may be a token or begin a longer one. -/
def opening (c : UInt8) : Option Op :=
  ([(45, .minus), (61, .assign), (60, .lt), (62, .gt), (47, .slash), (126, .tilde), (58, .colon),
    (46, .dot)] : List (UInt8 × Op)).find? (fun e => e.1 == c) |>.map Prod.snd

/-- The first byte of a token. -/
def first (c : UInt8) : Option (State × List Token) :=
  if is_space c then some (.start, [])
  else if is_alpha c then some (.name [c], [])
  else if is_digit c then some (.number [c] false, [])
  else if c == 34 || c == 39 then some (.str c [c], [])
  else if c == 91 then some (.bracket 0, [])
  else
    match opening c, single c with
    | some o, _ => some (.op o, [])
    | none, some o => some (.start, [.op o])
    | none, none => none

/-- The token ends before this byte. -/
def ends (st : State) (c : UInt8) : Option (State × List Token) :=
  st.finish.bind fun ts => (first c).map fun r => (r.1, ts ++ r.2)

/-- The token ends with this byte. -/
def emit (t : Token) : Option (State × List Token) := some (.start, [t])

def stay (st : State) : Option (State × List Token) := some (st, [])

/-- A second byte of a symbol. -/
def step_op (o : Op) (c : UInt8) : Option (State × List Token) :=
  match o with
  | .minus => if c == 45 then stay .dashes else ends (.op .minus) c
  | .assign => if c == 61 then emit (.op .eq) else ends (.op .assign) c
  | .lt =>
    if c == 61 then emit (.op .le) else if c == 60 then emit (.op .shl) else ends (.op .lt) c
  | .gt =>
    if c == 61 then emit (.op .ge) else if c == 62 then emit (.op .shr) else ends (.op .gt) c
  | .slash => if c == 47 then emit (.op .idiv) else ends (.op .slash) c
  | .tilde => if c == 61 then emit (.op .ne) else ends (.op .tilde) c
  | .colon => if c == 58 then emit (.op .dcolon) else ends (.op .colon) c
  | .dot =>
    if c == 46 then stay (.op .dots)
    else if is_digit c then stay (.number [46, c] false)
    else ends (.op .dot) c
  | .dots => if c == 46 then emit (.op .ellipsis) else ends (.op .dots) c
  | o => ends (.op o) c

def step_number (text : List UInt8) (exponent : Bool) (c : UInt8) :
    Option (State × List Token) :=
  have marks := if is_hex_numeral text then bytes "pP" else bytes "eE"
  if exponent && (c == 43 || c == 45) then stay (.number (text ++ [c]) false)
  else if text == bytes "0" && (c == 120 || c == 88) then stay (.number (text ++ [c]) false)
  else if marks.contains c then stay (.number (text ++ [c]) true)
  else if is_hex c || c == 46 then stay (.number (text ++ [c]) false)
  else if is_alpha c then none
  else ends (.number text exponent) c

/-- The level of a long bracket that may be at its end. -/
def step_closing (closing : Option Nat) (c : UInt8) : Option Nat :=
  match closing with
  | some k => if c == 61 then some (k + 1) else if c == 93 then some 0 else none
  | none => if c == 93 then some 0 else none

/-- A byte within a short string. -/
def step_str (quote : UInt8) (text : List UInt8) (c : UInt8) : Option (State × List Token) :=
  if c == quote then emit (.string (text ++ [c]))
  else if c == 92 then stay (.escape quote (text ++ [c]))
  else if is_newline c then none
  else stay (.str quote (text ++ [c]))

/-- The byte after a backslash. -/
def step_escape (quote : UInt8) (text : List UInt8) (c : UInt8) : Option (State × List Token) :=
  if (bytes "abfnrtv\\\"'").contains c then stay (.str quote (text ++ [c]))
  else if is_newline c then stay (.newline quote c (text ++ [c]))
  else if c == 120 then stay (.hex quote 1 (text ++ [c]))
  else if c == 117 then stay (.utf8 quote (text ++ [c]))
  else if c == 122 then stay (.blanks quote (text ++ [c]))
  else if is_digit c then stay (.decimal quote 2 (c.toNat - 48) (text ++ [c]))
  else none

def hex_value (c : UInt8) : Nat :=
  if is_digit c then c.toNat - 48 else if c < 97 then c.toNat - 55 else c.toNat - 87

/-- `decimal` is at the end of its digits. -/
def end_decimal (quote : UInt8) (value : Nat) (text : List UInt8) (c : UInt8) :
    Option (State × List Token) :=
  if value ≤ 255 then step_str quote text c else none

def step_codepoint (quote : UInt8) (digits : Bool) (value : Nat) (text : List UInt8) (c : UInt8) :
    Option (State × List Token) :=
  if is_hex c then
    have value := value * 16 + hex_value c
    if value < 2 ^ 31 then stay (.codepoint quote true value (text ++ [c])) else none
  else if c == 125 && digits then stay (.str quote (text ++ [c]))
  else none

def step (st : State) (c : UInt8) : Option (State × List Token) :=
  match st with
  | .start => first c
  | .name text => if is_alnum c then stay (.name (text ++ [c])) else ends (.name text) c
  | .number text exponent => step_number text exponent c
  | .op o => step_op o c
  | .bracket level =>
    if c == 91 then stay (.long level none (91 :: List.replicate level 61 ++ [91]))
    else if c == 61 then stay (.bracket (level + 1))
    else ends (.bracket level) c
  | .long level closing text =>
    if c == 93 && closing == some level then emit (.string (text ++ [c]))
    else stay (.long level (step_closing closing c) (text ++ [c]))
  | .str quote text => step_str quote text c
  | .escape quote text => step_escape quote text c
  | .newline quote first text =>
    if is_newline c && c != first then stay (.str quote (text ++ [c])) else step_str quote text c
  | .hex quote left text =>
    if !is_hex c then none
    else if left = 0 then stay (.str quote (text ++ [c]))
    else stay (.hex quote (left - 1) (text ++ [c]))
  | .decimal quote left value text =>
    if left ≠ 0 && is_digit c then
      stay (.decimal quote (left - 1) (value * 10 + (c.toNat - 48)) (text ++ [c]))
    else end_decimal quote value text c
  | .utf8 quote text =>
    if c == 123 then stay (.codepoint quote false 0 (text ++ [c])) else none
  | .codepoint quote digits value text => step_codepoint quote digits value text c
  | .blanks quote text =>
    if is_space c then stay (.blanks quote (text ++ [c])) else step_str quote text c
  | .dashes =>
    if c == 91 then stay (.comment_bracket 0)
    else if is_newline c then stay .start
    else stay .comment
  | .comment_bracket level =>
    if c == 61 then stay (.comment_bracket (level + 1))
    else if c == 91 then stay (.long_comment level none)
    else if is_newline c then stay .start
    else stay .comment
  | .comment => if is_newline c then stay .start else stay .comment
  | .long_comment level closing =>
    if c == 93 && closing == some level then stay .start
    else stay (.long_comment level (step_closing closing c))

/-- The state after a text, with the tokens that are complete. -/
def run : State → List UInt8 → Option (State × List Token)
  | st, [] => some (st, [])
  | st, c :: cs => (step st c).bind fun r => (run r.1 cs).map fun r' => (r'.1, r.2 ++ r'.2)

/-- The tokens of a text. -/
def lex (s : List UInt8) : Option (List Token) :=
  (run .start s).bind fun r => r.1.finish.map fun ts => r.2 ++ ts

/-! ## Texts and their parts -/

theorem run_cons_of_step {st st' : State} {c : UInt8} {ts : List Token}
    (h : step st c = some (st', ts)) (cs : List UInt8) :
    run st (c :: cs) = (run st' cs).map fun r => (r.1, ts ++ r.2) := by
  rw [run, h]
  rfl

theorem run_append (st : State) (a b : List UInt8) :
    run st (a ++ b) =
      (run st a).bind fun r => (run r.1 b).map fun r' => (r'.1, r.2 ++ r'.2) := by
  induction a generalizing st with
  | nil => simp [run]
  | cons c cs ih =>
    simp only [List.cons_append, run]
    cases step st c with
    | none => rfl
    | some r =>
      simp only [Option.bind_some, ih]
      cases run r.1 cs with
      | none => rfl
      | some r' => simp [Function.comp_def, List.append_assoc]

theorem run_append_of_run {st st' : State} {a : List UInt8} {ts : List Token}
    (h : run st a = some (st', ts)) (b : List UInt8) :
    run st (a ++ b) = (run st' b).map fun r => (r.1, ts ++ r.2) := by
  rw [run_append, h]
  rfl

theorem lex_eq_some {s : List UInt8} {ts : List Token} :
    lex s = some ts ↔
      ∃ st done rest, run .start s = some (st, done) ∧ st.finish = some rest ∧
        ts = done ++ rest := by
  unfold lex
  cases run .start s with
  | none => simp
  | some r =>
    obtain ⟨st, done⟩ := r
    rw [Option.bind_some, Option.map_eq_some_iff]
    constructor
    · rintro ⟨rest, hrest, rfl⟩
      exact ⟨st, done, rest, rfl, hrest, rfl⟩
    · rintro ⟨st', done', rest, hrun, hrest, rfl⟩
      cases hrun
      exact ⟨rest, hrest, rfl⟩

/-- The bytes of a name are kept until it ends. -/
theorem run_name (text cs : List UInt8) (h : ∀ c ∈ cs, is_alnum c = true) :
    run (.name text) cs = some (.name (text ++ cs), []) := by
  induction cs generalizing text with
  | nil => simp [run]
  | cons c cs ih =>
    have hstep : step (.name text) c = some (.name (text ++ [c]), []) := by
      rw [step, if_pos (h c List.mem_cons_self)]
      rfl
    rw [run_cons_of_step hstep, ih _ fun c hc => h c (List.mem_cons_of_mem _ hc)]
    simp

theorem word_of_name {s : List UInt8} (h : IsName s) : word s = .name s := by
  have absent : (reserved.find? fun e => e.1 == s) = none := by
    rw [List.find?_eq_none]
    intro e he
    simpa using h.not_reserved e he
  rw [word, absent]

theorem first_alpha {c : UInt8} (h : is_alpha c = true) : first c = some (.name [c], []) := by
  have hspace : is_space c = false := by
    simp only [is_alpha, is_space, Bool.or_eq_true, Bool.and_eq_true, decide_eq_true_eq,
      beq_iff_eq, Bool.or_eq_false_iff, Bool.and_eq_false_iff, decide_eq_false_iff_not,
      UInt8.le_iff_toNat_le, UInt8.toNat_inj.symm, beq_eq_false_iff_ne, ne_eq] at h ⊢
    simp only [UInt8.reduceToNat] at h ⊢
    omega
  rw [first, hspace, if_neg (by decide), if_pos h]

/-- A name is one token, whatever byte ends it. -/
theorem run_is_name {s : List UInt8} (h : IsName s) : run .start s = some (.name s, []) := by
  obtain ⟨c, cs, rfl, hc, hcs⟩ := h.first
  have hstep : step .start c = some (.name [c], []) := first_alpha hc
  rw [run_cons_of_step hstep, run_name [c] cs hcs]
  rfl

theorem run_name_then {s : List UInt8} (h : IsName s) {c : UInt8} (hc : is_alnum c = false)
    {st : State} {ts : List Token} (hfirst : first c = some (st, ts)) (rest : List UInt8) :
    run .start (s ++ c :: rest) = (run st rest).map fun r => (r.1, .name s :: (ts ++ r.2)) := by
  have hstep : step (.name s) c = some (st, .name s :: ts) := by
    rw [step, hc, if_neg (by decide), ends, State.finish, word_of_name h, hfirst]
    rfl
  rw [run_append_of_run (run_is_name h), run_cons_of_step hstep]
  simp [Function.comp_def]

/-! ## A blank after a text -/

/-- The text ends within a comment that goes to the end of its line. -/
def State.in_comment : State → Bool
  | .dashes => true
  | .comment_bracket _ => true
  | .comment => true
  | _ => false

theorem finish_in_comment {st : State} (h : st.in_comment = true) : st.finish = some [] := by
  cases st with
  | dashes => rfl
  | comment_bracket level => rfl
  | comment => rfl
  | _ => cases h

theorem ends_space {st : State} {ts : List Token} (h : st.finish = some ts) :
    ends st 32 = some (.start, ts) := by
  have blank : first 32 = some (.start, []) := by decide
  simp [ends, h, blank]

theorem step_number_space (text : List UInt8) (exponent : Bool) :
    step_number text exponent 32 = ends (.number text exponent) 32 := by
  have marks : (if is_hex_numeral text then bytes "pP" else bytes "eE").contains 32 = false := by
    split <;> decide
  unfold step_number
  dsimp only
  rw [marks]
  simp [is_hex, is_alpha, is_digit]

theorem step_op_space (o : Op) : step_op o 32 = ends (.op o) 32 := by
  cases o <;> rfl

/-- A blank ends the last token. -/
theorem step_space {st : State} {ts : List Token} (h : st.finish = some ts)
    (hcomment : st.in_comment = false) : step st 32 = some (.start, ts) := by
  rw [← ends_space h]
  cases st with
  | start => rw [step, ends_space h]; cases h; decide
  | name text => rw [step, if_neg (by decide)]
  | number text exponent => exact step_number_space text exponent
  | op o => exact step_op_space o
  | bracket level => rw [step, if_neg (by decide), if_neg (by decide)]
  | dashes => cases hcomment
  | comment_bracket level => cases hcomment
  | comment => cases hcomment
  | _ => cases h

/-- It is part of a comment. -/
theorem step_space_comment {st : State} (hcomment : st.in_comment = true) :
    step st 32 = some (.comment, []) := by
  cases st with
  | dashes => rfl
  | comment_bracket level => rfl
  | comment => rfl
  | _ => cases hcomment

/-- A comment takes all that is on its line. -/
theorem run_comment (cs : List UInt8) (h : ∀ c ∈ cs, is_newline c = false) :
    run .comment cs = some (.comment, []) := by
  induction cs with
  | nil => rfl
  | cons c cs ih =>
    have hstep : step .comment c = some (.comment, []) := by
      rw [step, if_neg (by simp [h c List.mem_cons_self])]
      rfl
    rw [run_cons_of_step hstep, ih fun c hc => h c (List.mem_cons_of_mem _ hc)]
    rfl

end lua
