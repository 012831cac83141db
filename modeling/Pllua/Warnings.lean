-- Warnings of Lua (init.c): they come in pieces, which are put together in a buffer of a fixed size.
-- What is reported is what fits, and a database error that a finalizer drops ends the session.
import Pllua.SqlStates

open pllua.rowtext (CString)
open pllua.sqlstate (c_text c_text_no_zero)

namespace pllua.warnings

/-! ## The buffer -/

def PLLUA_WARNBUF_SIZE : Nat := 1000

/-- The fields of `pllua_interpreter` for warnings. -/
structure Interp where
  warnbuf : List UInt8
  warncount : Nat

/-- The fields as `palloc0` makes them. -/
def Interp.new : Interp := ⟨List.replicate PLLUA_WARNBUF_SIZE 0, 0⟩

/-- `sizeof(interp->warnbuf) - pos`, a `size_t` -/
def room (pos : Nat) : Nat := (2 ^ 64 + PLLUA_WARNBUF_SIZE - pos) % 2 ^ 64

def memcpy (buf : List UInt8) (pos : Nat) (src : List UInt8) : List UInt8 :=
  buf.take pos ++ src ++ buf.drop (pos + src.length)

/-- `strstr`, whether it is found -/
def strstr (haystack needle : List UInt8) : Bool := haystack.tails.any needle.isPrefixOf

def ascii (s : String) : List UInt8 := s.toList.map fun c => c.toNat.toUInt8

def not_a_string : List UInt8 := ascii "error object is not a string"

/-- What comes of a piece of a warning. -/
inductive Effect
  | none
  | warning (text : List UInt8)
  /-- `error while trying to emit internal warning` -/
  | fatal_emit
  /-- `attempt to ignore pending database error` -/
  | fatal_pending
deriving DecidableEq

def Effect.is_fatal : Effect → Bool
  | fatal_emit | fatal_pending => true
  | _ => false

/-- `pllua_warnfunction`, with the flag of the pending error, and whether `ereport` succeeds. -/
def pllua_warnfunction (interp : Interp) (msg : CString) (tocont pending emits : Bool) :
    Interp × Effect :=
  let msglen := msg.val.length
  let pos := interp.warncount
  if !tocont && pos == 0 && msg.val.head? == some 64 then (interp, .none)
  else
    let interp :=
      if msglen < room pos then ⟨memcpy interp.warnbuf pos (msg.val ++ [0]), pos + msglen⟩
      else interp
    if tocont then (interp, .none)
    else
      let buf := c_text interp.warnbuf
      if !pending || !strstr buf not_a_string then
        if emits then ({ interp with warncount := 0 }, .warning buf) else (interp, .fatal_emit)
      else (interp, .fatal_pending)

/-! ## Messages -/

/-- A message: the pieces that are continued, and the last one. -/
structure Message where
  pieces : List CString
  last : CString
  pending : Bool
  emits : Bool

/-- The calls for the pieces that are continued. -/
def feed (pending emits : Bool) (interp : Interp) (pieces : List CString) : Interp :=
  pieces.foldl (fun interp msg => (pllua_warnfunction interp msg true pending emits).1) interp

/-- The calls for a message. -/
def warn (interp : Interp) (m : Message) : Interp × Effect :=
  pllua_warnfunction (feed m.pending m.emits interp m.pieces) m.last false m.pending m.emits

/-- What is reported of some messages. The session ends with a fatal report. -/
def run : Interp → List Message → List Effect
  | _, [] => []
  | interp, m :: ms =>
    let done := warn interp m
    done.2 :: if done.2.is_fatal then [] else run done.1 ms

/-! ## What is kept of a message -/

/-- The text so far, if there is any, with one more piece. -/
def keep (text : Option (List UInt8)) (msg : CString) : Option (List UInt8) :=
  if (text.getD []).length + msg.val.length < PLLUA_WARNBUF_SIZE then
    some (text.getD [] ++ msg.val)
  else text

/-- A message that Lua takes as a command: nothing is in front of its last piece. -/
def is_command (text : Option (List UInt8)) (last : CString) : Bool :=
  text.getD [] == [] && last.val.head? == some 64

/-- What is reported of a text, where `ereport` may fail. -/
def report (pending emits : Bool) (text : List UInt8) : Effect :=
  if pending && strstr text not_a_string then .fatal_pending
  else if emits then .warning text
  else .fatal_emit

/-- What is reported of some messages, with the text that is in the buffer before them: it is
reported once more for a message of which nothing is kept. -/
def reports : List UInt8 → List Message → List Effect
  | _, [] => []
  | old, m :: ms =>
    let text := m.pieces.foldl keep none
    if is_command text m.last then .none :: reports (text.getD old) ms
    else
      let text := (keep text m.last).getD old
      let effect := report m.pending m.emits text
      effect :: if effect.is_fatal then [] else reports text ms

/-! ## The buffer holds what is kept -/

/-- The state in a message of which `text` is kept so far, if anything is. Before it `old` was in
the buffer. -/
structure Keeps (interp : Interp) (old : List UInt8) (text : Option (List UInt8)) : Prop where
  size : interp.warnbuf.length = PLLUA_WARNBUF_SIZE
  count : interp.warncount = (text.getD []).length
  small : (text.getD []).length < PLLUA_WARNBUF_SIZE
  no_zero : 0 ∉ text.getD old
  shown : ∃ rest, interp.warnbuf = text.getD old ++ 0 :: rest

variable {interp : Interp} {old : List UInt8} {text : Option (List UInt8)}

theorem c_text_terminated {s : List UInt8} (h : 0 ∉ s) (rest : List UInt8) :
    c_text (s ++ 0 :: rest) = s := by
  unfold c_text
  rw [List.takeWhile_append_of_pos]
  · simp
  · intro c hc
    have hne : c ≠ 0 := fun hzero => h (hzero ▸ hc)
    simpa using hne

theorem Keeps.buffer (h : Keeps interp old text) : c_text interp.warnbuf = text.getD old := by
  obtain ⟨rest, hrest⟩ := h.shown
  rw [hrest, c_text_terminated h.no_zero]

theorem keeps_new : Keeps .new [] none where
  size := List.length_replicate
  count := rfl
  small := by decide
  no_zero := List.not_mem_nil
  shown := ⟨List.replicate (PLLUA_WARNBUF_SIZE - 1) 0, rfl⟩

/-- What is in front of the place that the next piece is written to. -/
theorem Keeps.front (h : Keeps interp old text) :
    interp.warnbuf.take interp.warncount = text.getD [] := by
  rw [h.count]
  cases text with
  | none => rfl
  | some t =>
    obtain ⟨rest, hrest⟩ := h.shown
    rw [hrest]
    exact List.take_left

/-- The buffer once a piece has been taken. -/
def Interp.taken (interp : Interp) (msg : CString) : Interp :=
  if msg.val.length < room interp.warncount then
    ⟨memcpy interp.warnbuf interp.warncount (msg.val ++ [0]), interp.warncount + msg.val.length⟩
  else interp

theorem Keeps.taken (h : Keeps interp old text) (msg : CString) :
    Keeps (interp.taken msg) old (keep text msg) := by
  have hsmall := h.small
  have hroom : room interp.warncount = PLLUA_WARNBUF_SIZE - (text.getD []).length := by
    unfold room
    rw [h.count]
    unfold PLLUA_WARNBUF_SIZE at hsmall ⊢
    omega
  unfold Interp.taken keep
  rw [hroom]
  by_cases hfits : (text.getD []).length + msg.val.length < PLLUA_WARNBUF_SIZE
  · rw [if_pos (by omega), if_pos hfits]
    have hsize := h.size
    have hno : 0 ∉ text.getD [] := by
      cases text with
      | none => exact List.not_mem_nil
      | some t => exact h.no_zero
    refine ⟨?_, ?_, ?_, ?_, ?_⟩
    · have hlength : (text.getD []).length = interp.warncount := h.count.symm
      simp only [memcpy, List.length_append, List.length_take, List.length_drop,
        List.length_singleton]
      omega
    · simp only [Option.getD_some, List.length_append, h.count]
    · simpa using hfits
    · simp only [Option.getD_some, List.mem_append, not_or]
      exact ⟨hno, msg.property⟩
    · refine ⟨interp.warnbuf.drop (interp.warncount + (msg.val ++ [0]).length), ?_⟩
      simp only [memcpy, h.front, Option.getD_some, List.append_assoc, List.singleton_append]
  · rw [if_neg (by omega), if_neg hfits]
    exact h

theorem Keeps.feed (h : Keeps interp old text) (pending emits : Bool) (pieces : List CString) :
    Keeps (feed pending emits interp pieces) old (pieces.foldl keep text) := by
  induction pieces generalizing interp text with
  | nil => exact h
  | cons msg pieces ih => exact ih (h.taken msg)

/-- A message is over: what is in the buffer then is old. -/
theorem Keeps.over (h : Keeps interp old text) :
    Keeps { interp with warncount := 0 } (text.getD old) none where
  size := h.size
  count := rfl
  small := by decide
  no_zero := h.no_zero
  shown := h.shown

theorem Keeps.command (h : Keeps interp old text) (msg : CString) :
    (interp.warncount == 0 && msg.val.head? == some 64) = is_command text msg := by
  rw [h.count, is_command]
  cases text.getD [] <;> rfl

/-- The last piece of a message, which is the whole text then. -/
theorem Keeps.last (h : Keeps interp old text) (msg : CString) (pending emits : Bool) :
    let done := pllua_warnfunction interp msg false pending emits
    done.2 = (if is_command text msg then .none
      else report pending emits ((keep text msg).getD old)) ∧
      (done.2.is_fatal = false →
        Keeps done.1 (if is_command text msg then text.getD old else (keep text msg).getD old)
          none) := by
  have htaken := h.taken msg
  have hbuf := htaken.buffer
  unfold Interp.taken at htaken hbuf
  dsimp only [pllua_warnfunction]
  rw [Bool.not_false, Bool.true_and, h.command msg]
  by_cases hcommand : is_command text msg = true
  · rw [if_pos hcommand, if_pos hcommand, if_pos hcommand]
    refine ⟨rfl, fun _ => ?_⟩
    have hzero : interp.warncount = 0 := by
      have hc := (h.command msg).trans hcommand
      simp only [Bool.and_eq_true, beq_iff_eq] at hc
      exact hc.1
    have hsame : { interp with warncount := 0 } = interp := by rw [← hzero]
    exact hsame ▸ h.over
  · rw [if_neg hcommand, if_neg hcommand, if_neg hcommand, if_neg Bool.false_ne_true, hbuf]
    unfold report
    cases hdropped : pending && strstr ((keep text msg).getD old) not_a_string with
    | true =>
      rw [if_neg (by simpa [← Bool.not_and] using hdropped), if_pos rfl]
      exact ⟨rfl, fun h => by cases h⟩
    | false =>
      rw [if_pos (by simpa [← Bool.not_and] using hdropped), if_neg Bool.false_ne_true]
      cases emits with
      | true => exact ⟨rfl, fun _ => htaken.over⟩
      | false => exact ⟨rfl, fun h => by cases h⟩

theorem run_reports {interp : Interp} {old : List UInt8} (h : Keeps interp old none)
    (ms : List Message) : run interp ms = reports old ms := by
  induction ms generalizing interp old with
  | nil => rfl
  | cons m ms ih =>
    have hfed := h.feed m.pending m.emits m.pieces
    obtain ⟨heffect, hkeeps⟩ := hfed.last m.last m.pending m.emits
    change (warn interp m).2 = _ at heffect
    change (warn interp m).2.is_fatal = false → Keeps (warn interp m).1 _ none at hkeeps
    dsimp only [run, reports]
    by_cases hcommand : is_command (m.pieces.foldl keep none) m.last = true
    · rw [if_pos hcommand] at heffect hkeeps ⊢
      rw [heffect] at hkeeps ⊢
      rw [if_neg (by decide), ih (hkeeps rfl)]
    · rw [if_neg hcommand] at heffect hkeeps ⊢
      rw [← heffect]
      cases hfatal : (warn interp m).2.is_fatal with
      | true => rfl
      | false => rw [if_neg Bool.false_ne_true, if_neg Bool.false_ne_true, ih (hkeeps hfatal)]

/-- The states that any pieces lead to, while the session goes on. -/
inductive Reached : Interp → Prop
  | new : Reached .new
  | piece {interp : Interp} (msg : CString) (tocont pending emits : Bool) :
      Reached interp →
      (pllua_warnfunction interp msg tocont pending emits).2.is_fatal = false →
      Reached (pllua_warnfunction interp msg tocont pending emits).1

theorem reached_keeps {interp : Interp} (h : Reached interp) :
    ∃ old text, Keeps interp old text := by
  induction h with
  | new => exact ⟨[], none, keeps_new⟩
  | piece msg tocont pending emits _ hgoes ih =>
    obtain ⟨old, text, hkeeps⟩ := ih
    cases tocont with
    | true => exact ⟨old, keep text msg, hkeeps.taken msg⟩
    | false => exact ⟨_, none, (hkeeps.last msg pending emits).2 hgoes⟩

/-- No piece is written over the end of the buffer, and a text in it ends; and what is reported of
the messages of a session is what is kept of their pieces. -/
theorem messages_are_put_together :
    (∀ interp, Reached interp →
      interp.warnbuf.length = PLLUA_WARNBUF_SIZE ∧ interp.warncount < PLLUA_WARNBUF_SIZE ∧
        0 ∈ interp.warnbuf) ∧
    ∀ ms : List Message, run .new ms = reports [] ms := by
  refine ⟨fun interp h => ?_, run_reports keeps_new⟩
  obtain ⟨old, text, hkeeps⟩ := reached_keeps h
  obtain ⟨rest, hrest⟩ := hkeeps.shown
  refine ⟨hkeeps.size, ?_, ?_⟩
  · rw [hkeeps.count]
    exact hkeeps.small
  · rw [hrest]
    simp

/-! ## Errors that a finalizer drops -/

/-- The message of Lua for an error in a finalizer (`luaE_warnerror`): its text is left out if the
error object is not a string. -/
def warnerror (place : CString) (pending emits : Bool) : Message where
  pieces := [⟨ascii "error in ", by decide⟩, place, ⟨ascii " (", by decide⟩,
    ⟨not_a_string, by decide⟩]
  last := ⟨ascii ")", by decide⟩
  pending := pending
  emits := emits

/-- The text of such a message. -/
def warnerror_text (place : CString) : List UInt8 :=
  ascii "error in " ++ place.val ++ ascii " (" ++ not_a_string ++ ascii ")"

theorem strstr_infix (a b needle : List UInt8) : strstr (a ++ needle ++ b) needle = true := by
  unfold strstr
  rw [List.any_eq_true]
  refine ⟨needle ++ b, ?_, ?_⟩
  · rw [List.mem_tails, List.append_assoc]
    exact List.suffix_append a (needle ++ b)
  · rw [List.isPrefixOf_iff_prefix]
    exact List.prefix_append needle b

theorem keep_fits {text : List UInt8} {msg : CString}
    (h : text.length + msg.val.length < PLLUA_WARNBUF_SIZE) :
    keep (some text) msg = some (text ++ msg.val) := if_pos h

theorem reports_warnerror (old : List UInt8) {place : CString}
    (h : place.val.length + 40 < PLLUA_WARNBUF_SIZE) (pending emits : Bool) :
    reports old [warnerror place pending emits] =
      [report pending emits (warnerror_text place)] := by
  have hlength : (ascii "error in ").length = 9 ∧ (ascii " (").length = 2 ∧
    not_a_string.length = 28 ∧ (ascii ")").length = 1 := by decide
  obtain ⟨h9, h2, h28, h1⟩ := hlength
  have hkept : (warnerror place pending emits).pieces.foldl keep none =
      some (ascii "error in " ++ place.val ++ ascii " (" ++ not_a_string) := by
    dsimp only [warnerror, List.foldl_cons, List.foldl_nil]
    have hfirst : keep none ⟨ascii "error in ", by decide⟩ = some (ascii "error in ") := rfl
    rw [hfirst, keep_fits (by omega), keep_fits (by simp only [List.length_append]; omega),
      keep_fits (by simp only [List.length_append]; omega)]
  have hlast : ∀ text, is_command text ⟨ascii ")", by decide⟩ = false := by
    intro text
    unfold is_command
    rw [Bool.and_eq_false_iff]
    exact Or.inr (by decide)
  have hwhole : keep (some (ascii "error in " ++ place.val ++ ascii " (" ++ not_a_string))
      ⟨ascii ")", by decide⟩ = some (warnerror_text place) :=
    keep_fits (by simp only [List.length_append]; omega)
  dsimp only [reports]
  rw [hkept]
  dsimp only [warnerror]
  simp only [hlast, Bool.false_eq_true, if_false, hwhole, Option.getD_some, ite_self]

theorem reports_append (old : List UInt8) (ms : List Message) (m : Message)
    (hgoes : ∀ e ∈ reports old ms, e.is_fatal = false) :
    ∃ old', reports old (ms ++ [m]) = reports old ms ++ reports old' [m] := by
  induction ms generalizing old with
  | nil => exact ⟨old, rfl⟩
  | cons first ms ih =>
    dsimp only [reports, List.cons_append] at hgoes ⊢
    split
    · rename_i hcommand
      rw [if_pos hcommand] at hgoes
      obtain ⟨old', hrest⟩ := ih _ fun e he => hgoes e (List.mem_cons_of_mem _ he)
      exact ⟨old', congrArg (Effect.none :: ·) hrest⟩
    · rename_i hcommand
      rw [if_neg hcommand] at hgoes
      have hgoes_on := hgoes _ List.mem_cons_self
      rw [hgoes_on, if_neg Bool.false_ne_true] at hgoes
      rw [hgoes_on, if_neg Bool.false_ne_true, if_neg Bool.false_ne_true]
      obtain ⟨old', hrest⟩ := ih _ fun e he => hgoes e (List.mem_cons_of_mem _ he)
      exact ⟨old', congrArg (_ :: ·) hrest⟩

theorem reports_pending {old : List UInt8} {ms : List Message}
    (h : Effect.fatal_pending ∈ reports old ms) : ∃ m ∈ ms, m.pending = true := by
  induction ms generalizing old with
  | nil => cases h
  | cons m ms ih =>
    have later : ∀ {old}, Effect.fatal_pending ∈ reports old ms →
        ∃ m' ∈ m :: ms, m'.pending = true := by
      intro old hlater
      obtain ⟨m', hmem, hpending⟩ := ih hlater
      exact ⟨m', List.mem_cons_of_mem _ hmem, hpending⟩
    dsimp only [reports] at h
    split at h
    · rcases List.mem_cons.mp h with hnone | hlater
      · cases hnone
      · exact later hlater
    · rcases List.mem_cons.mp h with hthis | hlater
      · refine ⟨m, List.mem_cons_self, ?_⟩
        by_contra hcalm
        unfold report at hthis
        rw [Bool.not_eq_true] at hcalm
        rw [hcalm, Bool.false_and, if_neg Bool.false_ne_true] at hthis
        split at hthis <;> cases hthis
      · split at hlater
        · cases hlater
        · exact later hlater

/-- Whatever was warned of before, a finalizer that drops a pending database error ends the session,
and one that drops another error is warned of. Without a pending error no session is ended so. -/
theorem a_dropped_error_ends_the_session {ms : List Message}
    (hgoes : ∀ e ∈ run .new ms, e.is_fatal = false) {place : CString}
    (hplace : place.val.length + 40 < PLLUA_WARNBUF_SIZE) (emits : Bool) :
    run .new (ms ++ [warnerror place true emits]) = run .new ms ++ [.fatal_pending] ∧
    run .new (ms ++ [warnerror place false true]) =
      run .new ms ++ [.warning (warnerror_text place)] ∧
    ∀ ms' : List Message, .fatal_pending ∈ run .new ms' → ∃ m ∈ ms', m.pending = true := by
  simp only [run_reports keeps_new] at hgoes ⊢
  have hfound : strstr (warnerror_text place) not_a_string = true :=
    strstr_infix (ascii "error in " ++ place.val ++ ascii " (") (ascii ")") not_a_string
  have hreport : ∀ pending emits, ∃ old', reports [] (ms ++ [warnerror place pending emits]) =
      reports [] ms ++ reports old' [warnerror place pending emits] :=
    fun pending emits => reports_append [] ms _ hgoes
  refine ⟨?_, ?_, fun ms' => reports_pending⟩
  · obtain ⟨old', hdropped⟩ := hreport true emits
    rw [hdropped, reports_warnerror old' hplace, report, hfound]
    rfl
  · obtain ⟨old', hwarned⟩ := hreport false true
    rw [hwarned, reports_warnerror old' hplace]
    rfl

/-- `__gc` -/
def gc : CString := ⟨ascii "__gc", by decide⟩

/-- `warn("hello")` -/
def hello : Message := ⟨[], ⟨ascii "hello", by decide⟩, false, true⟩

theorem gc_ends_the_session :
    run .new [hello, warnerror gc true true] = [.warning (ascii "hello"), .fatal_pending] := by
  have hhello : run .new [hello] = [.warning (ascii "hello")] := by decide +kernel
  have hgoes : ∀ e ∈ run .new [hello], e.is_fatal = false := by
    rw [hhello]
    decide
  have hplace : gc.val.length + 40 < PLLUA_WARNBUF_SIZE := by decide
  have hends := (a_dropped_error_ends_the_session hgoes hplace true).1
  rw [hhello] at hends
  exact hends

end pllua.warnings
