-- The body of a function within its chunk (compile.c): the text between `function f(args) ` and
-- ` end return f` is read as the block that it is by itself, unless it ends within a comment.
import Pllua.FunctionSource

open grammars lua
open pllua.rowtext (CString)

namespace pllua.source

/-! ## Tokens of the chunk -/

/-- The text ends within a comment that a newline would end. -/
def EndsInComment (s : List UInt8) : Prop :=
  ∃ st ts, run .start s = some (st, ts) ∧ st.in_comment = true

section
variable {f : FunctionInfo} {ts : List Token}

/-- The footer is read as such after a text that is complete. -/
theorem run_footer (h : Accepted f) {st : State} {rest : List Token}
    (hend : st.finish = some rest) (hcomment : st.in_comment = false) :
    run st (footer f) =
      some (.name f.name.val, rest ++ [.kw .end, .kw .return]) := by
  have split : footer f = 32 :: (bytes "end return " ++ f.name.val) := by
    rw [footer, ← List.cons_append]
    rfl
  rw [split, run_cons_of_step (step_space hend hcomment), run_footer_name h]
  rfl

/-- It is a part of the comment after any other. -/
theorem run_footer_comment (h : Accepted f) {st : State} (hcomment : st.in_comment = true) :
    run st (footer f) = some (.comment, []) := by
  have split : footer f = 32 :: (bytes "end return " ++ f.name.val) := by
    rw [footer, ← List.cons_append]
    rfl
  have words : ∀ c ∈ bytes "end return ", is_newline c = false := by decide +kernel
  have name : ∀ c ∈ f.name.val, is_newline c = false := by
    intro c hc
    obtain ⟨first, cs, heq, hfirst, hcs⟩ := (validated_names h.validated).1.first
    have alnum : is_alnum c = true := by
      rw [heq] at hc
      rcases List.mem_cons.mp hc with rfl | hc
      · rw [is_alnum, hfirst, Bool.true_or]
      · exact hcs c hc
    by_contra newline
    rw [Bool.not_eq_false, is_newline, Bool.or_eq_true, beq_iff_eq, beq_iff_eq] at newline
    rcases newline with rfl | rfl <;> exact absurd alnum (by decide)
  rw [split, run_cons_of_step (step_space_comment hcomment), run_comment]
  · rfl
  · intro c hc
    rcases List.mem_append.mp hc with hc | hc
    · exact words c hc
    · exact name c hc

/-- The tokens of the chunk are those of its three parts, unless the body ends in a comment, which
takes the third part. -/
theorem lex_chunk (h : Accepted f) (hlex : lex f.prosrc.val = some ts) :
    (EndsInComment f.prosrc.val ∧ lex (chunk f) = some (header_tokens f ++ ts)) ∨
      (¬ EndsInComment f.prosrc.val ∧
        lex (chunk f) = some (header_tokens f ++ ts ++ footer_tokens f)) := by
  obtain ⟨st, done, rest, hrun, hend, rfl⟩ := lex_eq_some.mp hlex
  have body : run .start (chunk f) =
      (run st (footer f)).map fun r => (r.1, header_tokens f ++ (done ++ r.2)) := by
    rw [chunk, List.append_assoc, run_append_of_run (run_header h), run_append_of_run hrun]
    simp [Function.comp_def]
  cases hcomment : st.in_comment with
  | true =>
    refine Or.inl ⟨⟨st, done, hrun, hcomment⟩, ?_⟩
    rw [finish_in_comment hcomment] at hend
    obtain rfl : rest = [] := (Option.some.inj hend).symm
    rw [lex, body, run_footer_comment h hcomment]
    simp [State.finish]
  | false =>
    refine Or.inr ⟨?_, ?_⟩
    · rintro ⟨st', ts', hrun', hcomment'⟩
      rw [hrun] at hrun'
      cases hrun'
      rw [hcomment] at hcomment'
      cases hcomment'
    · have ends : (State.name f.name.val).finish = some [.name f.name.val] := by
        rw [State.finish, word_of_name (validated_names h.validated).1]
      rw [lex, body, run_footer h hend hcomment]
      simp [ends, footer_tokens]

end

/-! ## The chunk is a block -/

/-- `local self = (...)` -/
theorem gives_self :
    Gives grammar [nt .stat]
      [.kw .local, .name, .op .assign, .op .lparen, .op .ellipsis, .op .rparen] := by
  have ellipsis : Gives grammar [nt .exp] [.op .ellipsis] :=
    gives_rule (by decide) (gives_op .ellipsis Gives.nil)
  have group : Gives grammar [nt .prefixexp] [.op .lparen, .op .ellipsis, .op .rparen] :=
    gives_rule (by decide) (gives_op .lparen (gives_nt ellipsis (gives_op .rparen Gives.nil)))
  have value : Gives grammar [nt .explist] [.op .lparen, .op .ellipsis, .op .rparen] :=
    gives_explist (gives_rule (by decide) group)
  have assign : Gives grammar [nt .opt_assign]
      [.op .assign, .op .lparen, .op .ellipsis, .op .rparen] :=
    gives_rule (by decide) (gives_op .assign value)
  have plain : Gives grammar [name, nt .attrib, nt .attnames] [.name] :=
    gives_name (gives_skip (by decide) (gives_empty (by decide)))
  have names : Gives grammar [nt .attnamelist] [.name] := gives_rule (by decide) plain
  exact gives_rule (by decide) (gives_kw .local (gives_nt names assign))

/-- `return f` -/
theorem gives_return : Gives grammar [nt .retstat] [.kw .return, .name] := by
  have var : Gives grammar [nt .var] [.name] := gives_rule (by decide) (gives_name Gives.nil)
  have prefixexp : Gives grammar [nt .prefixexp] [.name] := gives_rule (by decide) var
  have value : Gives grammar [nt .explist] [.name] :=
    gives_explist (gives_rule (by decide) prefixexp)
  have result : Gives grammar [nt .opt_explist] [.name] := gives_rule (by decide) value
  exact gives_rule (by decide)
    (gives_kw .return (gives_nt result (gives_empty (A := .opt_semi) (by decide))))

/-- The whole, around a list of parameters and a body. -/
theorem gives_chunk {parlist body : List Kind} (hpars : Gives grammar [nt .opt_parlist] parlist)
    (hbody : Gives grammar [nt .block] body) :
    Gives grammar [nt .block]
      ([.kw .local, .name, .op .assign, .op .lparen, .op .ellipsis, .op .rparen] ++
        ([.kw .local, .kw .function, .name, .op .lparen] ++
          (parlist ++ .op .rparen :: (body ++ [.kw .end]))) ++ [.kw .return, .name]) := by
  have block : Gives grammar [nt .block, kw .end] (body ++ [.kw .end]) :=
    gives_nt hbody (gives_kw .end Gives.nil)
  have pars : Gives grammar [nt .opt_parlist, op .rparen, nt .block, kw .end]
      (parlist ++ .op .rparen :: (body ++ [.kw .end])) := gives_nt hpars (gives_op .rparen block)
  have function_stat : Gives grammar [nt .stat] ([.kw .local, .kw .function, .name, .op .lparen] ++
      (parlist ++ .op .rparen :: (body ++ [.kw .end]))) :=
    gives_rule (by decide) (gives_kw .local (gives_kw .function (gives_name (gives_op .lparen
      pars))))
  have last : Gives grammar [nt .stats] _ :=
    gives_rule (by decide) (gives_nt function_stat (gives_empty (A := .stats) (by decide)))
  have stats : Gives grammar [nt .stats] _ := gives_rule (by decide) (gives_nt gives_self last)
  rw [List.append_nil] at stats
  exact gives_rule (by decide) (gives_nt stats gives_return)

theorem commas_cons (t : Token) (ts : List Token) :
    commas (t :: ts) = t :: ts.flatMap fun u => [.op .comma, u] := by
  induction ts generalizing t with
  | nil => rfl
  | cons u us ih => simp [commas, ih u]

/-- The list of parameters is one for the grammar. -/
theorem gives_tokens (l : ParList) :
    Gives grammar [nt .opt_parlist] (l.tokens.map Token.kind) := by
  obtain ⟨names, dots⟩ := l
  cases names with
  | nil =>
    cases dots with
    | false => exact gives_empty (by decide)
    | true =>
      have parlist : Gives grammar [nt .parlist] [.op .ellipsis] :=
        gives_rule (by decide) (gives_op .ellipsis Gives.nil)
      exact gives_rule (by decide) parlist
  | cons n ns =>
    have names : (ns.map Piece.name).flatMap (fun p => [Token.kind (.op .comma), p.token.kind]) =
        (List.replicate ns.length [Kind.op .comma, Kind.name]).flatten := by
      induction ns with
      | nil => rfl
      | cons m ms ih =>
        rw [List.map_cons, List.flatMap_cons, ih]
        rfl
    have kinds : (ParList.mk (n :: ns) dots).tokens.map Token.kind =
        .name :: (List.replicate ns.length [Kind.op .comma, Kind.name]).flatten ++
          if dots then [.op .comma, .op .ellipsis] else [] := by
      rw [ParList.tokens, ParList.pieces, List.map_cons, List.cons_append, List.map_cons,
        commas_cons, ← names]
      cases dots <;> simp [Piece.token, Token.kind, List.map_flatMap, List.flatMap_map]
    rw [kinds]
    exact gives_parlist ns.length dots

/-- The tokens of the chunk are a block if those of the body are. -/
theorem chunk_is_block {f : FunctionInfo} {ts : List Token} (hblock : IsBlock ts) :
    IsBlock (header_tokens f ++ ts ++ footer_tokens f) := by
  have kinds := gives_chunk (gives_tokens f.parlist) hblock
  show Gives grammar [nt .block] _
  simpa [header_tokens, footer_tokens, Token.kind] using kinds

/-! ## The block of the function -/

/-- In the chunk the function is open where the body begins. -/
theorem climb_header {f : FunctionInfo} : climb token_side 0 (header_tokens f) = some 1 := by
  have neutral : ∀ ts : List Token, (∀ t ∈ ts, token_side t = .neutral) →
      climb token_side 1 ts = some 1 := by
    intro ts hts
    induction ts with
    | nil => rfl
    | cons t ts ih =>
      simp only [climb, hts t List.mem_cons_self]
      exact ih fun t ht => hts t (List.mem_cons_of_mem _ ht)
  have tokens : ∀ t ∈ f.parlist.tokens, token_side t = .neutral := by
    have pieces : ∀ p : Piece, token_side p.token = .neutral := fun p => by cases p <;> rfl
    intro t ht
    cases hp : f.parlist.pieces with
    | nil =>
      rw [ParList.tokens, hp] at ht
      cases ht
    | cons p ps =>
      rw [ParList.tokens, hp, List.map_cons, commas_cons] at ht
      rcases List.mem_cons.mp ht with rfl | ht
      · exact pieces p
      · simp only [List.mem_flatMap, List.mem_map, List.mem_cons, List.not_mem_nil, or_false] at ht
        obtain ⟨u, ⟨q, -, rfl⟩, rfl | rfl⟩ := ht
        · rfl
        · exact pieces q
  rw [header_tokens, List.append_assoc, climb_append]
  have start : climb token_side 0 [.kw .local, .name (bytes "self"), .op .assign, .op .lparen,
      .op .ellipsis, .op .rparen, .kw .local, .kw .function, .name f.name.val, .op .lparen] =
      some 1 := rfl
  rw [start, Option.bind_some, climb_append, neutral _ tokens]
  rfl

/-- What the chunk makes of a body: its tokens are those of the header, the body and the footer, they
are a block, and whatever block is read after the header up to an `end` is the body. -/
structure Preserved (f : FunctionInfo) (ts : List Token) : Prop where
  lexes : lex (chunk f) = some (header_tokens f ++ ts ++ footer_tokens f)
  compiles : IsBlock (header_tokens f ++ ts ++ footer_tokens f)
  body : ∀ block rest, IsBlock block →
    header_tokens f ++ ts ++ footer_tokens f = header_tokens f ++ block ++ .kw .end :: rest →
    block = ts

/-- A chunk whose footer is lost is no block: the function has no end. -/
theorem open_chunk {f : FunctionInfo} {ts : List Token} (hblock : IsBlock ts) :
    ¬ IsBlock (header_tokens f ++ ts) := by
  intro h
  have balanced := h.balanced
  unfold grammars.Balanced at balanced
  rw [climb_append, climb_header, Option.bind_some, hblock.balanced.climb] at balanced
  cases balanced

/-- A body that is a block by itself is the block of the function if and only if its text does not end
within a comment; where it does, the chunk is no block at all. -/
theorem body_preserved_unless_comment {f : FunctionInfo} (h : Accepted f) {ts : List Token}
    (hlex : lex f.prosrc.val = some ts) (hblock : IsBlock ts) :
    (¬ EndsInComment f.prosrc.val → Preserved f ts) ∧
      (EndsInComment f.prosrc.val →
        ∃ ts', lex (chunk f) = some ts' ∧ ¬ IsBlock ts') := by
  rcases lex_chunk h hlex with ⟨hcomment, hchunk⟩ | ⟨hcomment, hchunk⟩
  · exact ⟨fun hnot => absurd hcomment hnot, fun _ => ⟨_, hchunk, open_chunk hblock⟩⟩
  · refine ⟨fun _ => ⟨hchunk, chunk_is_block hblock, ?_⟩, fun hin => absurd hin hcomment⟩
    intro block rest hother heq
    rw [List.append_assoc, List.append_assoc] at heq
    exact (balanced_unique hblock.balanced hother.balanced rfl rfl
      (List.append_cancel_left heq)).symm

/-! ## A body with a comment -/

def commented : FunctionInfo :=
  { with_second .OUT with prosrc := ⟨bytes "return x -- the same", by decide⟩ }

theorem commented_accepted : Accepted commented :=
  ⟨⟨by decide, by decide, by decide, fun h => (by cases h)⟩, by decide⟩

def return_x : List Token := [.kw .return, .name (bytes "x")]

theorem return_x_block : IsBlock return_x := by
  have form : Gives grammar [nt .stats, nt .retstat] [.kw .return, .name] :=
    gives_skip (by decide) gives_return
  have block : Gives grammar [nt .block] [.kw .return, .name] := gives_rule (by decide) form
  exact block

theorem return_x_preserved : Preserved (with_second .OUT) return_x := by
  have hrun : run .start (with_second .OUT).prosrc.val =
      some (.name (bytes "x"), [.kw .return]) := by decide +kernel
  refine (body_preserved_unless_comment out_accepted (by decide +kernel) return_x_block).1 ?_
  rintro ⟨st, ts, h, hcomment⟩
  rw [hrun] at h
  cases h
  cases hcomment

/-- `return x -- the same` is a block by itself, and the function with this body has no end. -/
theorem comment_takes_end :
    ¬ ∀ (f : FunctionInfo) (ts : List Token), Accepted f → lex f.prosrc.val = some ts →
      IsBlock ts → Preserved f ts := by
  intro holds
  have hlex := (holds commented return_x commented_accepted (by decide +kernel)
    return_x_block).lexes
  revert hlex
  decide +kernel

end pllua.source
