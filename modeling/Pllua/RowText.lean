-- The text of a row: pllua_datum_row_tostring beside the record output and input functions of
-- PostgreSQL. The two texts are the same unless an empty string is to be quoted, or the
-- columns before the first one that is left were dropped.
import Mathlib.Data.List.Basic
import Mathlib.Tactic.Common

namespace pllua.rowtext

/-! ## The texts -/

/-- A C string, without the zero at its end. -/
abbrev CString := { s : List UInt8 // 0 ∉ s }

/-- What the deformed row holds for a column. -/
inductive Cell
  /-- false: a dropped column -/
  | dropped
  /-- true: a null -/
  | null
  /-- a datum, whose `__tostring` gives this text -/
  | datum (text : CString)

def quote : UInt8 := 34
def lparen : UInt8 := 40
def rparen : UInt8 := 41
def comma : UInt8 := 44
def backslash : UInt8 := 92

/-- `isspace` of the locale, which is false for punctuation. -/
structure Locale where
  isspace : UInt8 → Bool
  not_lparen : isspace lparen = false

variable (l : Locale)

/-- The characters for which a text is quoted. -/
def special (ch : UInt8) : Bool :=
  ch == quote || ch == backslash || ch == lparen || ch == rparen || ch == comma || l.isspace ch

/-- A character within quotes. -/
def doubled (ch : UInt8) : List UInt8 :=
  if ch == backslash || ch == quote then [ch, ch] else [ch]

/-- A text within quotes. -/
def quoted (str : List UInt8) : List UInt8 := quote :: (str.flatMap doubled ++ [quote])

/-- The columns from the `i`-th on. -/
def addcolumns (i : Nat) : List Cell → List UInt8
  | [] => []
  | .dropped :: cells => addcolumns (i + 1) cells
  | .null :: cells => (if i > 1 then [comma] else []) ++ addcolumns (i + 1) cells
  | .datum str :: cells =>
    let needquote := str.1.any (special l)
    (if i > 1 || needquote then
      (if i > 1 then [comma] else []) ++ if !needquote then str.1 else quoted str.1
    else str.1) ++ addcolumns (i + 1) cells

/-- `pllua_datum_row_tostring`. -/
def pllua_datum_row_tostring (cells : List Cell) : List UInt8 :=
  lparen :: (addcolumns l 1 cells ++ [rparen])

/-- A column by `record_out`: an empty string is quoted, too. -/
def out_text (str : List UInt8) : List UInt8 :=
  if str.isEmpty || str.any (special l) then quoted str else str

/-- The columns by `record_out`. -/
def out_columns (needComma : Bool) : List Cell → List UInt8
  | [] => []
  | .dropped :: cells => out_columns needComma cells
  | .null :: cells => (if needComma then [comma] else []) ++ out_columns true cells
  | .datum str :: cells =>
    (if needComma then [comma] else []) ++ out_text l str.1 ++ out_columns true cells

/-- PostgreSQL's `record_out`. -/
def record_out (cells : List Cell) : List UInt8 :=
  lparen :: (out_columns l false cells ++ [rparen])

/-- The text of a column and what comes after it: none if the input ends first. -/
def in_text (inquote : Bool) : List UInt8 → Option (List UInt8 × List UInt8)
  | [] => none
  | [ch] => if !inquote && (ch == comma || ch == rparen) then some ([], [ch]) else none
  | ch :: next :: ptr =>
    if !inquote && (ch == comma || ch == rparen) then some ([], ch :: next :: ptr)
    else if ch == backslash then (in_text inquote ptr).map fun r => (next :: r.1, r.2)
    else if ch == quote then
      if !inquote then in_text true (next :: ptr)
      -- a doubled quote within quotes
      else if next == quote then (in_text true ptr).map fun r => (next :: r.1, r.2)
      else in_text false (next :: ptr)
    else (in_text inquote (next :: ptr)).map fun r => (ch :: r.1, r.2)

/-- The columns: for each one whether it was dropped. The input of a null is empty. -/
def in_columns (needComma : Bool) :
    List Bool → List UInt8 → Option (List (Option (List UInt8)) × List UInt8)
  | [], ptr => some ([], ptr)
  | true :: dropped, ptr => (in_columns needComma dropped ptr).map fun r => (none :: r.1, r.2)
  | false :: dropped, ptr => do
    let ptr ←
      if needComma then
        match ptr with
        | [] => none
        | ch :: ptr => if ch == comma then some ptr else none
      else some ptr
    match ptr with
    | [] => none
    | ch :: ptr =>
      if ch == comma || ch == rparen then
        (in_columns true dropped (ch :: ptr)).map fun r => (none :: r.1, r.2)
      else do
        let column ← in_text false (ch :: ptr)
        (in_columns true dropped column.2).map fun r => (some column.1 :: r.1, r.2)

/-- PostgreSQL's `record_in`, up to the input functions of the columns: dropped columns are
null. -/
def record_in (dropped : List Bool) (string : List UInt8) :
    Option (List (Option (List UInt8))) :=
  match string.dropWhile l.isspace with
  | [] => none
  | ch :: ptr =>
    if ch == lparen then
      match in_columns false dropped ptr with
      | some (values, ch :: ptr) =>
        if ch == rparen && (ptr.dropWhile l.isspace).isEmpty then some values else none
      | _ => none
    else none

/-! ## How the two texts differ -/

/-- A column is written as `record_out` writes it, but for the empty string. -/
def add_text (str : List UInt8) : List UInt8 :=
  if str.any (special l) then quoted str else str

variable {l}

theorem addcolumns_datum (i : Nat) (str : CString) (cells : List Cell) :
    addcolumns l i (.datum str :: cells) =
      (if i > 1 then [comma] else []) ++ add_text l str.1 ++ addcolumns l (i + 1) cells := by
  rw [addcolumns, add_text]
  by_cases hi : i > 1 <;> by_cases hq : str.1.any (special l) <;> simp [hi, hq]

theorem out_text_of_not_empty {str : List UInt8} (h : str ≠ []) :
    out_text l str = add_text l str := by
  have hempty : str.isEmpty = false := by
    rw [Bool.eq_false_iff]
    exact fun he => h (List.isEmpty_iff.mp he)
  rw [out_text, add_text, hempty, Bool.false_or]

/-- Whether the cell is an empty string. -/
def isempty : Cell → Bool
  | .datum str => str.1.isEmpty
  | _ => false

/-- Whether the column was dropped. -/
def isdropped : Cell → Bool
  | .dropped => true
  | _ => false

theorem out_text_length (str : CString) :
    (out_text l str.1).length = (add_text l str.1).length + 2 * [Cell.datum str].countP isempty := by
  by_cases h : str.1 = []
  · simp [out_text, add_text, quoted, isempty, h]
  · simp [out_text_of_not_empty h, isempty, h]

/-- After the first column the texts differ in the quotes of empty strings. -/
theorem columns_length {i : Nat} (hi : i > 1) (cells : List Cell) :
    (out_columns l true cells).length =
      (addcolumns l i cells).length + 2 * cells.countP isempty := by
  induction cells generalizing i with
  | nil => rfl
  | cons cell cells ih =>
    have hrest := ih (i := i + 1) (by omega)
    rw [List.countP_cons]
    cases cell with
    | dropped => simpa [out_columns, addcolumns, isempty] using hrest
    | null =>
      simp [out_columns, addcolumns, isempty, hi]
      omega
    | datum str =>
      have htext := out_text_length (l := l) str
      rw [List.countP_singleton] at htext
      simp only [out_columns, addcolumns_datum, hi, if_true, List.length_append, hrest, htext]
      omega

/-- Where the columns so far were dropped there is a comma too many before the first one. -/
theorem columns_length_dropped {i : Nat} (hi : i > 1) (cells : List Cell) :
    (out_columns l false cells).length + (if cells.all isdropped then 0 else 1) =
      (addcolumns l i cells).length + 2 * cells.countP isempty := by
  induction cells generalizing i with
  | nil => rfl
  | cons cell cells ih =>
    rw [List.countP_cons]
    cases cell with
    | dropped => simpa [out_columns, addcolumns, isempty, isdropped] using ih (i := i + 1) (by omega)
    | null =>
      have hrest := columns_length (l := l) (i := i + 1) (by omega) cells
      simp [out_columns, addcolumns, isempty, isdropped, hi]
      omega
    | datum str =>
      have hrest := columns_length (l := l) (i := i + 1) (by omega) cells
      have htext := out_text_length (l := l) str
      rw [List.countP_singleton] at htext
      have hall : (Cell.datum str :: cells).all isdropped = false := rfl
      simp only [hall, out_columns, addcolumns_datum, hi, if_true, Bool.false_eq_true, if_false,
        List.length_append, List.length_nil, List.length_singleton, hrest, htext]
      omega

/-- The columns are the same where none is an empty string. -/
theorem columns_eq {i : Nat} (hi : i > 1) {cells : List Cell} (h : ∀ c ∈ cells, isempty c = false) :
    addcolumns l i cells = out_columns l true cells := by
  induction cells generalizing i with
  | nil => rfl
  | cons cell cells ih =>
    have hrest := ih (i := i + 1) (by omega) fun c hc => h c (List.mem_cons_of_mem cell hc)
    cases cell with
    | dropped => rw [addcolumns, out_columns, hrest]
    | null => rw [addcolumns, out_columns, hrest, if_pos hi, if_pos rfl]
    | datum str =>
      have hne : str.1 ≠ [] := by
        have := h _ List.mem_cons_self
        simpa [isempty] using this
      rw [addcolumns_datum, out_columns, hrest, if_pos hi, if_pos rfl, out_text_of_not_empty hne]

theorem columns_all_dropped {i : Nat} {cells : List Cell} (needComma : Bool)
    (h : ∀ c ∈ cells, isdropped c) : addcolumns l i cells = out_columns l needComma cells := by
  induction cells generalizing i with
  | nil => rfl
  | cons cell cells ih =>
    cases cell with
    | dropped =>
      rw [addcolumns, out_columns]
      exact ih fun c hc => h c (List.mem_cons_of_mem _ hc)
    | null => exact absurd (h _ List.mem_cons_self) (by simp [isdropped])
    | datum str => exact absurd (h _ List.mem_cons_self) (by simp [isdropped])

/-- No column is an empty string, and if the first one was dropped, they all were. -/
def SameText (cells : List Cell) : Prop :=
  (∀ c ∈ cells, isempty c = false) ∧
    (cells.head?.any isdropped → ∀ c ∈ cells, isdropped c)

/-- When the two texts are the same. -/
theorem tostring_eq_record_out_iff (cells : List Cell) :
    pllua_datum_row_tostring l cells = record_out l cells ↔ SameText cells := by
  have hstrip : pllua_datum_row_tostring l cells = record_out l cells ↔
      addcolumns l 1 cells = out_columns l false cells := by
    simp [pllua_datum_row_tostring, record_out]
  rw [hstrip]
  constructor
  · intro heq
    have hlen := congrArg List.length heq
    cases cells with
    | nil => exact ⟨by simp, by simp⟩
    | cons cell cells =>
      cases cell with
      | dropped =>
        rw [addcolumns, out_columns] at hlen
        have hcount := columns_length_dropped (l := l) (i := 1 + 1) (by omega) cells
        have hempty : cells.countP isempty = 0 := by
          split at hcount <;> omega
        have hall : cells.all isdropped := by
          by_contra hno
          rw [if_neg hno] at hcount
          omega
        rw [List.countP_eq_zero] at hempty
        rw [List.all_eq_true] at hall
        refine ⟨?_, fun _ => ?_⟩
        · intro c hc
          rcases List.mem_cons.mp hc with rfl | hc
          · rfl
          · exact eq_false_of_ne_true (hempty c hc)
        · intro c hc
          rcases List.mem_cons.mp hc with rfl | hc
          · rfl
          · exact hall c hc
      | null =>
        have hcount := columns_length (l := l) (i := 1 + 1) (by omega) cells
        simp only [addcolumns, out_columns, Nat.lt_irrefl, gt_iff_lt, if_false, Bool.false_eq_true,
          List.nil_append] at hlen
        have hempty : cells.countP isempty = 0 := by omega
        rw [List.countP_eq_zero] at hempty
        refine ⟨?_, fun h => absurd h (by simp [isdropped])⟩
        intro c hc
        rcases List.mem_cons.mp hc with rfl | hc
        · rfl
        · exact eq_false_of_ne_true (hempty c hc)
      | datum str =>
        have hcount := columns_length (l := l) (i := 1 + 1) (by omega) cells
        have htext := out_text_length (l := l) str
        simp only [addcolumns_datum, out_columns, Nat.lt_irrefl, gt_iff_lt, if_false,
          Bool.false_eq_true, List.nil_append, List.length_append] at hlen
        have hempty : (Cell.datum str :: cells).countP isempty = 0 := by
          rw [List.countP_cons]
          rw [List.countP_singleton] at htext
          omega
        rw [List.countP_eq_zero] at hempty
        exact ⟨fun c hc => eq_false_of_ne_true (hempty c hc),
          fun h => absurd h (by simp [isdropped])⟩
  · rintro ⟨hempty, hfirst⟩
    cases cells with
    | nil => rfl
    | cons cell cells =>
      have hrest : addcolumns l 2 cells = out_columns l true cells :=
        columns_eq (by omega) fun c hc => hempty c (List.mem_cons_of_mem cell hc)
      cases cell with
      | dropped => exact columns_all_dropped false (hfirst rfl)
      | null => simp [addcolumns, out_columns, hrest]
      | datum str =>
        have hne : str.1 ≠ [] := by
          have := hempty _ List.mem_cons_self
          simpa [isempty] using this
        simp [addcolumns_datum, out_columns, hrest, out_text_of_not_empty hne]

/-! ## The text read back -/

/-- A separator: what comes after a column. -/
def Separates (ch : UInt8) : Prop := ch = comma ∨ ch = rparen

theorem in_text_separator {ch : UInt8} (h : Separates ch) (ptr : List UInt8) :
    in_text false (ch :: ptr) = some ([], ch :: ptr) := by
  rcases h with rfl | rfl <;> cases ptr <;> rfl

/-- A character that stands for itself. -/
theorem in_text_char {inquote : Bool} {ch : UInt8} (hquote : ch ≠ quote) (hback : ch ≠ backslash)
    (hend : (!inquote && (ch == comma || ch == rparen)) = false) {ptr : List UInt8}
    (hptr : ptr ≠ []) :
    in_text inquote (ch :: ptr) = (in_text inquote ptr).map fun r => (ch :: r.1, r.2) := by
  cases ptr with
  | nil => exact absurd rfl hptr
  | cons next ptr => simp [in_text, hend, hquote, hback]

/-- A text without special characters reads as it is. -/
theorem in_text_plain {str : List UInt8} (h : str.any (special l) = false) {ch : UInt8}
    (hch : Separates ch) (ptr : List UInt8) :
    in_text false (str ++ ch :: ptr) = some (str, ch :: ptr) := by
  induction str with
  | nil => exact in_text_separator hch ptr
  | cons c str ih =>
    rw [List.any_cons, Bool.or_eq_false_iff] at h
    obtain ⟨hc, hstr⟩ := h
    simp only [special, Bool.or_eq_false_iff] at hc
    obtain ⟨⟨⟨⟨⟨hquote, hback⟩, -⟩, hright⟩, hcomma⟩, -⟩ := hc
    rw [List.cons_append, in_text_char (by simpa using hquote) (by simpa using hback)
      (by simp [hright, hcomma]) (by simp), ih hstr]
    rfl

/-- A text within quotes reads as it was. -/
theorem in_text_quoted (str : List UInt8) {ch : UInt8} (hch : Separates ch) (ptr : List UInt8) :
    in_text true (str.flatMap doubled ++ quote :: ch :: ptr) = some (str, ch :: ptr) := by
  induction str with
  | nil =>
    have hne : (ch == quote) = false := by rcases hch with rfl | rfl <;> rfl
    have hend : in_text true (quote :: ch :: ptr) = in_text false (ch :: ptr) := by
      rw [in_text, hne]
      rfl
    exact hend.trans (in_text_separator hch ptr)
  | cons c str ih =>
    rw [List.flatMap_cons, List.append_assoc]
    by_cases hback : c = backslash
    · subst hback
      have hstep : ∀ rest, in_text true (doubled backslash ++ rest) =
        (in_text true rest).map fun r => (backslash :: r.1, r.2) := fun _ => rfl
      rw [hstep, ih]
      rfl
    · by_cases hquote : c = quote
      · subst hquote
        have hstep : ∀ rest, in_text true (doubled quote ++ rest) =
          (in_text true rest).map fun r => (quote :: r.1, r.2) := fun _ => rfl
        rw [hstep, ih]
        rfl
      · have hdoubled : doubled c = [c] := by simp [doubled, hback, hquote]
        rw [hdoubled, List.singleton_append, in_text_char hquote hback rfl (by simp), ih]
        rfl

/-- The text of a column does not start like the end of one. -/
theorem out_text_cons (str : List UInt8) :
    ∃ c s, out_text l str = c :: s ∧ (c == comma || c == rparen) = false := by
  by_cases hq : str.isEmpty || str.any (special l)
  · rw [out_text, if_pos hq, quoted]
    exact ⟨quote, _, rfl, rfl⟩
  · rw [out_text, if_neg hq]
    simp only [Bool.or_eq_true, not_or, Bool.not_eq_true] at hq
    obtain ⟨hne, hplain⟩ := hq
    cases str with
    | nil => cases hne
    | cons c s =>
      rw [List.any_cons, Bool.or_eq_false_iff] at hplain
      obtain ⟨hc, -⟩ := hplain
      simp only [special, Bool.or_eq_false_iff] at hc
      obtain ⟨⟨⟨-, hright⟩, hcomma⟩, -⟩ := hc
      exact ⟨c, s, rfl, by rw [hcomma, hright]; rfl⟩

theorem in_text_out_text (str : List UInt8) {ch : UInt8} (hch : Separates ch)
    (ptr : List UInt8) : in_text false (out_text l str ++ ch :: ptr) = some (str, ch :: ptr) := by
  by_cases hq : str.isEmpty || str.any (special l)
  · rw [out_text, if_pos hq, quoted, List.cons_append, List.append_assoc, List.singleton_append]
    have hopen : ∀ rest, rest ≠ [] → in_text false (quote :: rest) = in_text true rest := by
      intro rest hne
      cases rest with
      | nil => exact absurd rfl hne
      | cons c rest => rfl
    rw [hopen _ (by simp)]
    exact in_text_quoted str hch ptr
  · rw [out_text, if_neg hq]
    simp only [Bool.or_eq_true, not_or, Bool.not_eq_true] at hq
    exact in_text_plain hq.2 hch ptr

/-- After the columns comes a separator. -/
theorem out_columns_cons (cells : List Cell) (ptr : List UInt8) :
    ∃ ch rest, out_columns l true cells ++ rparen :: ptr = ch :: rest ∧ Separates ch := by
  induction cells with
  | nil => exact ⟨rparen, ptr, rfl, Or.inr rfl⟩
  | cons cell cells ih =>
    cases cell with
    | dropped => exact ih
    | null => exact ⟨comma, _, rfl, Or.inl rfl⟩
    | datum str => exact ⟨comma, _, rfl, Or.inl rfl⟩

/-- The value of a column, as its input function gets it. -/
def column_value : Cell → Option (List UInt8)
  | .datum str => some str.1
  | _ => none

/-- The input of the comma before a column. -/
theorem in_columns_live (needComma : Bool) (dropped : List Bool) (ptr : List UInt8) :
    in_columns needComma (false :: dropped) ((if needComma then [comma] else []) ++ ptr) =
      in_columns false (false :: dropped) ptr := by
  cases needComma <;> rfl

theorem in_columns_null {ch : UInt8} (hch : Separates ch) (dropped : List Bool)
    (ptr : List UInt8) :
    in_columns false (false :: dropped) (ch :: ptr) =
      (in_columns true dropped (ch :: ptr)).map fun r => (none :: r.1, r.2) := by
  rcases hch with rfl | rfl <;> rfl

theorem in_columns_text (str : List UInt8) {ch : UInt8} (hch : Separates ch) (dropped : List Bool)
    (ptr : List UInt8) :
    in_columns false (false :: dropped) (out_text l str ++ ch :: ptr) =
      (in_columns true dropped (ch :: ptr)).map fun r => (some str :: r.1, r.2) := by
  have htext := in_text_out_text (l := l) str hch ptr
  obtain ⟨c, s, heq, hc⟩ := out_text_cons (l := l) str
  rw [heq, List.cons_append] at htext ⊢
  simp only [in_columns, Bool.false_eq_true, if_false, Option.bind_eq_bind, Option.bind_some, hc,
    htext]

/-- The columns of `record_out` read back as what they are. -/
theorem in_columns_out (needComma : Bool) (cells : List Cell) (ptr : List UInt8) :
    in_columns needComma (cells.map isdropped) (out_columns l needComma cells ++ rparen :: ptr) =
      some (cells.map column_value, rparen :: ptr) := by
  induction cells generalizing needComma with
  | nil => rfl
  | cons cell cells ih =>
    cases cell with
    | dropped =>
      simp only [List.map_cons, isdropped, out_columns, in_columns, ih needComma]
      rfl
    | null =>
      obtain ⟨ch, rest, hrest, hch⟩ := out_columns_cons (l := l) cells ptr
      have hih := ih true
      rw [hrest] at hih
      rw [List.map_cons, isdropped, out_columns, List.append_assoc, in_columns_live, hrest,
        in_columns_null hch, hih]
      rfl
      exact nofun
    | datum str =>
      obtain ⟨ch, rest, hrest, hch⟩ := out_columns_cons (l := l) cells ptr
      have hih := ih true
      rw [hrest] at hih
      rw [List.map_cons, isdropped, out_columns, List.append_assoc, List.append_assoc,
        in_columns_live, hrest, in_columns_text str.1 hch, hih]
      rfl
      exact nofun

/-- The text of `record_out` gives the row back. -/
theorem record_in_out (cells : List Cell) :
    record_in l (cells.map isdropped) (record_out l cells) = some (cells.map column_value) := by
  have hcolumns := in_columns_out (l := l) false cells []
  have hskip : (record_out l cells).dropWhile l.isspace = record_out l cells := by
    rw [record_out, List.dropWhile_cons_of_neg (by simp [l.not_lparen])]
  rw [record_in, hskip, record_out]
  simp [hcolumns]

variable (l)

/-- The text of a row is that of `record_out`, and gives the row back, exactly if no column is
an empty string and the first column is not dropped before another one. -/
theorem the_text_of_a_row_reads_back_iff (cells : List Cell) :
    (pllua_datum_row_tostring l cells = record_out l cells ∧
      record_in l (cells.map isdropped) (pllua_datum_row_tostring l cells) =
        some (cells.map column_value)) ↔ SameText cells := by
  rw [← tostring_eq_record_out_iff (l := l)]
  constructor
  · exact And.left
  · intro h
    exact ⟨h, h ▸ record_in_out cells⟩

/-- The `isspace` of the C locale. -/
def clocale : Locale := ⟨fun ch => ch == 32 || (9 ≤ ch && ch ≤ 13), rfl⟩

/-- A row whose column is an empty string reads back with a null, and a row whose first column
was dropped has a comma too many. -/
theorem an_empty_string_and_a_dropped_column_are_lost :
    pllua_datum_row_tostring clocale [.datum ⟨[], by decide⟩] = [lparen, rparen] ∧
      record_in clocale [false] [lparen, rparen] = some [none] ∧
      ¬ (pllua_datum_row_tostring clocale [.datum ⟨[], by decide⟩] =
        record_out clocale [.datum ⟨[], by decide⟩]) ∧
      pllua_datum_row_tostring clocale [.dropped, .datum ⟨[49], by decide⟩] =
        [lparen, comma, 49, rparen] ∧
      record_in clocale [true, false] [lparen, comma, 49, rparen] = none ∧
      ¬ (pllua_datum_row_tostring clocale [.dropped, .datum ⟨[49], by decide⟩] =
        record_out clocale [.dropped, .datum ⟨[49], by decide⟩]) := by
  refine ⟨rfl, rfl, by decide, rfl, rfl, by decide⟩

end pllua.rowtext
