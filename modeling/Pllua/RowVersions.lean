-- The law of row casts between two versions of a row type: a column that lives in
-- both keeps its value, a dropped one is discarded, an added one is null. It holds
-- where the columns dropped between them come before the first live one.
import Mathlib.Data.List.Basic
import Pllua.RowCast

open pllua.catalog pllua.typeinfo

namespace pllua.rowcast

/-! ## Versions of a row type -/

/-- A column after DROP COLUMN. -/
def dropped_column (i : Nat) (att : Attribute) : Attribute :=
  { att with
    attname := s!"........pg.dropped.{i + 1}........"
    atttypid := InvalidOid
    attisdropped := true }

/-- The second list of columns comes from the first one by ADD COLUMN and DROP COLUMN. -/
inductive Altered (old : List Attribute) : List Attribute → Prop
  | refl : Altered old old
  | add_column (new : List Attribute) (att : Attribute) (h : Altered old new)
      (live : att.attisdropped = false) : Altered old (new ++ [att])
  | drop_column (new : List Attribute) (i : Nat) (h : Altered old new) :
      Altered old (new.modify i (dropped_column i))

/-- What a column of the new version must have: its own value if it was there before. -/
def kept {δ : Type} (att : Attribute) (val : Option δ) : Option δ :=
  if att.attisdropped then none else val

/-- The row of the new version that a row of the old one stands for. -/
def Converted {δ : Type} {old new : TupleDesc} (row : Row δ old) (row' : Row δ new) : Prop :=
  ∀ (i : Nat) (att : Attribute), new.attrs[i]? = some att →
    row'.columns[i]? = some (kept att (row.columns[i]?).join)

/-- Each column dropped between the versions comes before the first live one. -/
def DroppedFirst (old new : List Attribute) : Prop :=
  ∀ (i : Nat) (s d : Attribute), old[i]? = some s → new[i]? = some d →
    s.attisdropped = false → d.attisdropped = true →
    ∀ (k : Nat) (e : Attribute), k < i → new[k]? = some e → e.attisdropped = true

/-- The columns side by side: one that was dropped stays so, and one that lives is the same. -/
inductive Versions : List Attribute → List Attribute → Prop
  | nil (added : List Attribute) : Versions [] added
  | cons {s d : Attribute} {ss ds : List Attribute}
      (dropped : s.attisdropped = true → d.attisdropped = true)
      (live : d.attisdropped = false → d = s) (h : Versions ss ds) : Versions (s :: ss) (d :: ds)

theorem versions_refl (atts : List Attribute) : Versions atts atts := by
  induction atts with
  | nil => exact .nil []
  | cons att atts ih => exact .cons id (fun _ => rfl) ih

theorem versions_append {old new : List Attribute} (att : Attribute) (h : Versions old new) :
    Versions old (new ++ [att]) := by
  induction h with
  | nil added => exact .nil _
  | cons dropped live h ih => exact .cons dropped live ih

theorem versions_modify {old new : List Attribute} {f : Attribute → Attribute}
    (hf : ∀ att, (f att).attisdropped = true) (i : Nat) (h : Versions old new) :
    Versions old (new.modify i f) := by
  induction h generalizing i with
  | nil added => exact .nil _
  | cons dropped live h ih =>
    cases i with
    | zero =>
      refine .cons (fun _ => hf _) ?_ h
      intro hlive
      rw [hf] at hlive
      cases hlive
    | succ i => exact .cons dropped live (ih i)

theorem versions_of_altered {old new : List Attribute} (h : Altered old new) : Versions old new := by
  induction h with
  | refl => exact versions_refl old
  | add_column new att h live ih => exact versions_append att ih
  | drop_column new i h ih => exact versions_modify (fun _ => rfl) i ih

/-! ## The droplist -/

/-- The columns that the droplist of two versions names. -/
def droplist : List Attribute → List Attribute → List Bool
  | s :: ss, d :: ds =>
    if d.attisdropped then (!s.attisdropped) :: droplist ss ds else List.replicate (ss.length + 1) false
  | ss, _ => List.replicate ss.length false

/-- Once a live column of the new version is met, no column is dropped any more. -/
theorem match_columns_live (ss : List Attribute) {d : Attribute} (ds : List Attribute)
    (hd : d.attisdropped = false) :
    match_columns true ss (d :: ds) = some (List.replicate ss.length false) := by
  induction ss with
  | nil => simp [match_columns]
  | cons s ss ih =>
    unfold match_columns
    rw [hd]
    simp [ih, List.replicate_succ]

theorem match_columns_versions {old new : List Attribute} (h : Versions old new) :
    match_columns true old new = some (droplist old new) := by
  induction h with
  | nil added => simp [match_columns, droplist]
  | @cons s d ss ds dropped live h ih =>
    cases hd : d.attisdropped with
    | false =>
      rw [match_columns_live _ _ hd]
      simp [droplist, hd]
    | true =>
      unfold match_columns droplist
      cases hs : s.attisdropped with
      | true => simp [hd, ih]
      | false => simp [hd, ih]

/-- No column of the first list is dropped in the second. -/
def Kept : List Attribute → List Attribute → Prop
  | s :: ss, d :: ds => (s.attisdropped = false → d.attisdropped = false) ∧ Kept ss ds
  | _, _ => True

/-- `DroppedFirst` along the lists. -/
def DropsFirst : List Attribute → List Attribute → Prop
  | s :: ss, d :: ds => if d.attisdropped then DropsFirst ss ds else Kept (s :: ss) (d :: ds)
  | _, _ => True

theorem kept_iff (old new : List Attribute) :
    Kept old new ↔ ∀ (i : Nat) (s d : Attribute), old[i]? = some s → new[i]? = some d →
      s.attisdropped = false → d.attisdropped = false := by
  induction old generalizing new with
  | nil => simp [Kept]
  | cons s ss ih =>
    cases new with
    | nil => simp [Kept]
    | cons d ds =>
      unfold Kept
      rw [ih ds]
      constructor
      · rintro ⟨h0, hs⟩ i s' d' hs' hd'
        cases i with
        | zero =>
          cases hs'
          cases hd'
          exact h0
        | succ i => exact hs i s' d' hs' hd'
      · intro h
        exact ⟨h 0 s d rfl rfl, fun i => h (i + 1)⟩

/-- The first column of the new version does not count if it is dropped. -/
theorem droppedFirst_cons {s d : Attribute} {ss ds : List Attribute} (hd : d.attisdropped = true) :
    DroppedFirst (s :: ss) (d :: ds) ↔ DroppedFirst ss ds := by
  constructor
  · intro h i s' d' hs' hd' hlive hdrop k e hk he
    exact h (i + 1) s' d' hs' hd' hlive hdrop (k + 1) e (by omega) he
  · intro h i s' d' hs' hd' hlive hdrop k e hk he
    cases i with
    | zero => omega
    | succ i =>
      cases k with
      | zero =>
        cases he
        exact hd
      | succ k => exact h i s' d' hs' hd' hlive hdrop k e (by omega) he

theorem dropsFirst_iff (old new : List Attribute) : DropsFirst old new ↔ DroppedFirst old new := by
  induction old generalizing new with
  | nil => simp [DropsFirst, DroppedFirst]
  | cons s ss ih =>
    cases new with
    | nil => simp [DropsFirst, DroppedFirst]
    | cons d ds =>
      unfold DropsFirst
      split
      · rename_i hd
        rw [ih ds, droppedFirst_cons hd]
      · rename_i hd
        rw [kept_iff]
        constructor
        · intro h i s' d' hs' hd' hlive hdrop
          rw [h i s' d' hs' hd' hlive] at hdrop
          cases hdrop
        · intro h i s' d' hs' hd' hlive
          by_contra hdrop
          have hdrop : d'.attisdropped = true := by simpa using hdrop
          cases i with
          | zero =>
            cases hd'
            exact hd hdrop
          | succ i => exact hd (h (i + 1) s' d' hs' hd' hlive hdrop 0 d (by omega) rfl)

/-! ## The new columns -/

section
variable {δ : Type}

/-- The columns of the row that a row of the old version stands for. -/
def converted_columns : List Attribute → List (Option δ) → List (Option δ)
  | [], _ => []
  | att :: atts, vals => kept att (vals.headD none) :: converted_columns atts vals.tail

theorem converted_columns_get (atts : List Attribute) (vals : List (Option δ)) (i : Nat) :
    (converted_columns atts vals)[i]? = atts[i]?.map fun att => kept att (vals[i]?).join := by
  induction atts generalizing vals i with
  | nil => simp [converted_columns]
  | cons att atts ih =>
    cases i with
    | zero => cases vals <;> rfl
    | succ i =>
      rw [converted_columns, List.getElem?_cons_succ, ih]
      cases vals <;> simp

theorem converted_iff {old new : TupleDesc} (row : Row δ old) (row' : Row δ new) :
    Converted row row' ↔ row'.columns = converted_columns new.attrs row.columns := by
  constructor
  · intro h
    apply List.ext_getElem?
    intro i
    rw [converted_columns_get]
    cases ha : new.attrs[i]? with
    | some att => exact h i att ha
    | none =>
      have hlen := row'.length_eq
      unfold TupleDesc.natts at hlen
      rw [List.getElem?_eq_none_iff] at ha
      apply List.getElem?_eq_none
      omega
  · intro h i att ha
    rw [h, converted_columns_get, ha]
    rfl

/-- A row of nulls stands for a row of nulls. -/
theorem converted_columns_null (atts : List Attribute) (vals : List (Option δ))
    (h : ∀ v ∈ vals, v = none) : ∀ v ∈ converted_columns atts vals, v = none := by
  induction atts generalizing vals with
  | nil => simp [converted_columns]
  | cons att atts ih =>
    intro v hv
    rw [converted_columns, List.mem_cons] at hv
    rcases hv with rfl | hv
    · have hnull : vals.headD none = none := by
        cases vals with
        | nil => rfl
        | cons v vals => exact h v List.mem_cons_self
      rw [hnull, kept]
      split <;> rfl
    · exact ih vals.tail (fun v hv => h v (List.mem_of_mem_tail hv)) v hv

end

/-! ## Columns and length coercions -/

/-- What PostgreSQL promises of the typmod functions: they are strict, and take no value
to null. -/
structure Fmgr.LengthLaws {δ : Type} (fm : Fmgr δ) : Prop where
  strict : ∀ t b call, fm.length_coercion t = some (.func b call) → b = true
  not_null : ∀ t b call m v w, fm.length_coercion t = some (.func b call) →
    call m (some v) = .ok w → w ≠ none

section
variable {δ : Type} {fm : Fmgr δ}

theorem coerce_null (h : fm.LengthLaws) (t : Oid) (m : Int) :
    pllua_typeinfo_coerce_typmod fm t m none = .ok none := by
  unfold pllua_typeinfo_coerce_typmod
  split
  · rfl
  · rename_i c hc
    split
    · rfl
    · cases c with
      | func b call =>
        have hb := h.strict t b call hc
        simp [hb]
      | array call => rfl

theorem coerce_value (h : fm.LengthLaws) {t : Oid} {m : Int} {v : δ} {w : Option δ}
    (hw : pllua_typeinfo_coerce_typmod fm t m (some v) = .ok w) : w ≠ none := by
  unfold pllua_typeinfo_coerce_typmod at hw
  split at hw
  · cases hw
    simp
  · rename_i c hc
    split at hw
    · cases hw
      simp
    · cases c with
      | func b call => exact h.not_null t b call m v w hc (by simpa using hw)
      | array call =>
        simp only at hw
        cases hcall : call m v with
        | error e =>
          rw [hcall] at hw
          cases hw
        | ok x =>
          rw [hcall] at hw
          cases hw
          simp

theorem column_value_null (h : fm.LengthLaws) (att : Attribute) :
    column_value fm att none = .ok none := by
  have hc := coerce_null h att.atttypid att.atttypmod
  unfold column_value
  simp only [pure_bind, Option.map_none, hc]
  split <;> rfl

/-- The value of the column itself, as it comes out of the deformed row. -/
theorem column_value_own (att : Attribute) (v : δ) :
    column_value fm att (some ⟨att.atttypid, if att.atttypid ≠ RECORDOID then att.atttypmod else -1,
      false, v⟩) = .ok (some v) := by
  unfold column_value
  by_cases hr : att.atttypid = RECORDOID
  · simp [hr]
    rfl
  · simp [hr]
    rfl

theorem column_value_some (h : fm.LengthLaws) {att : Attribute} {d : Datum δ} {w : Option δ}
    (hw : column_value fm att (some d) = .ok w) : w ≠ none := by
  have hlast : ∀ d' : Datum δ,
      (if att.atttypid ≠ RECORDOID ∧ 0 ≤ att.atttypmod ∧ some d'.typmod ≠ some att.atttypmod then
        pllua_typeinfo_coerce_typmod fm att.atttypid att.atttypmod (some d'.value)
      else .ok (some d'.value)) = .ok w → w ≠ none := by
    intro d' hd'
    split at hd'
    · exact coerce_value h hd'
    · cases hd'
      simp
  unfold column_value at hw
  simp only at hw
  split at hw
  · exact hlast d hw
  · cases hcall : fm.construct att.atttypid d with
    | error e =>
      rw [hcall] at hw
      cases hw
    | ok d' =>
      rw [hcall] at hw
      simp only [bind, Except.bind] at hw
      split at hw
      · exact hlast d' hw
      · cases hw

theorem headD_pad (args : List (Option (Datum δ))) (n : Nat) :
    (args ++ List.replicate n none).headD none = args.headD none := by
  cases args with
  | nil => cases n <;> rfl
  | cons a args => rfl

theorem tail_pad (args : List (Option (Datum δ))) (n : Nat) :
    ∃ k, (args ++ List.replicate n none).tail = args.tail ++ List.replicate k none := by
  cases args with
  | nil => exact ⟨n - 1, by simp⟩
  | cons a args => exact ⟨n, rfl⟩

/-- Nils at the end add nothing. -/
theorem column_values_pad (fm : Fmgr δ) (atts : List Attribute) (args : List (Option (Datum δ)))
    (n : Nat) : column_values fm atts (args ++ List.replicate n none) =
      column_values fm atts args := by
  induction atts generalizing args n with
  | nil => rfl
  | cons att atts ih =>
    obtain ⟨k, hk⟩ := tail_pad args n
    unfold column_values
    rw [headD_pad, hk, ih args n, ih args.tail k]

/-- With no arguments all columns are null. -/
theorem column_values_nil (h : fm.LengthLaws) (atts : List Attribute) :
    column_values fm atts [] = .ok (converted_columns atts []) := by
  induction atts with
  | nil => rfl
  | cons att atts ih =>
    have hnull : kept att (none : Option δ) = none := by
      unfold kept
      split <;> rfl
    show _ = Except.ok (kept att none :: converted_columns atts [])
    unfold column_values
    simp only [List.headD_nil, List.tail_nil, column_value_null h, ih, hnull]
    split <;> rfl

/-- An argument that is not nil gives a value that is not null. -/
theorem column_values_some (h : fm.LengthLaws) {atts : List Attribute}
    {args : List (Option (Datum δ))} {vals : List (Option δ)}
    (hlen : args.length ≤ atts.countP (!·.attisdropped)) (harg : ∃ a ∈ args, a ≠ none)
    (hv : column_values fm atts args = .ok vals) : ∃ v ∈ vals, v ≠ none := by
  induction atts generalizing args vals with
  | nil =>
    obtain ⟨a, ha, -⟩ := harg
    have hnil : args = [] := by simpa using hlen
    rw [hnil] at ha
    cases ha
  | cons att atts ih =>
    unfold column_values at hv
    split at hv
    · rename_i hd
      cases hr : column_values fm atts args with
      | error e =>
        rw [hr] at hv
        cases hv
      | ok vs =>
        rw [hr] at hv
        cases hv
        rw [List.countP_cons_of_neg (by simp [hd])] at hlen
        obtain ⟨v, hmem, hne⟩ := ih hlen harg hr
        exact ⟨v, List.mem_cons_of_mem _ hmem, hne⟩
    · rename_i hd
      rw [List.countP_cons_of_pos (by simp [hd])] at hlen
      cases args with
      | nil =>
        obtain ⟨a, ha, -⟩ := harg
        cases ha
      | cons a args =>
        simp only [List.headD_cons, List.tail_cons] at hv
        split at hv
        · cases hv
        · rename_i val hval
          cases hr : column_values fm atts args with
          | error e =>
            rw [hr] at hv
            cases hv
          | ok vs =>
            rw [hr] at hv
            cases hv
            by_cases ha : a = none
            · obtain ⟨b, hb, hbne⟩ := harg
              have hb : b ∈ args := by
                rcases List.mem_cons.mp hb with rfl | hb
                · exact absurd ha hbne
                · exact hb
              obtain ⟨v, hmem, hne⟩ := ih (by simpa using hlen) ⟨b, hb, hbne⟩ hr
              exact ⟨v, List.mem_cons_of_mem _ hmem, hne⟩
            · obtain ⟨d, rfl⟩ := Option.ne_none_iff_exists'.mp ha
              exact ⟨val, List.mem_cons_self, column_value_some h hval⟩

/-! ## The arguments of the constructor -/

theorem push_columns_keep (atts : List Attribute) (dl : List Bool) (cs : List (Deformed δ))
    (hdl : ∀ b ∈ dl, b = false) : push_columns atts dl cs = push_columns atts [] cs := by
  induction atts generalizing dl cs with
  | nil => simp [push_columns]
  | cons att atts ih =>
    cases cs with
    | nil => simp [push_columns]
    | cons c cs =>
      have hhead : dl.headD false = false := by
        cases dl with
        | nil => rfl
        | cons b dl => exact hdl b List.mem_cons_self
      unfold push_columns
      rw [hhead, ih dl.tail cs fun b hb => hdl b (List.mem_of_mem_tail hb)]
      simp

/-- With no column dropped, the arguments are the live columns, which the new version has. -/
theorem convert_kept (h : fm.LengthLaws) {old new : List Attribute} (hv : Versions old new)
    (hk : Kept old new) (vals : List (Option δ)) (hlen : vals.length = old.length) :
    (push_columns old [] (pllua_datum_deform_tuple old vals)).length ≤
        new.countP (!·.attisdropped) ∧
      column_values fm new (push_columns old [] (pllua_datum_deform_tuple old vals)) =
        .ok (converted_columns new vals) := by
  induction hv generalizing vals with
  | nil added =>
    have hnil : vals = [] := by simpa using hlen
    subst hnil
    exact ⟨Nat.zero_le _, column_values_nil h added⟩
  | @cons s d ss ds dropped live hv ih =>
    cases vals with
    | nil => cases hlen
    | cons v vals =>
      obtain ⟨hkeep, hks⟩ := hk
      obtain ⟨ihlen, ihval⟩ := ih hks vals (by simpa using hlen)
      cases hs : s.attisdropped with
      | true =>
        have hd := dropped hs
        simp only [pllua_datum_deform_tuple, push_columns, hs, Bool.true_or, if_true,
          List.tail_nil, column_values, hd, converted_columns, kept]
        rw [List.countP_cons_of_neg (by simp [hd])]
        exact ⟨ihlen, by simp [ihval, Except.map]⟩
      | false =>
        have hd := hkeep hs
        have heq := live hd
        subst heq
        simp only [pllua_datum_deform_tuple, push_columns, hs, List.headD_nil, Bool.or_false,
          Bool.false_eq_true, if_false, List.tail_nil, column_values, converted_columns, kept]
        rw [List.countP_cons_of_pos (by simp [hs])]
        refine ⟨Nat.succ_le_succ ihlen, ?_⟩
        cases v with
        | none => simp [column_value_null h, ihval, Except.map]
        | some v => simp only [List.headD_cons, column_value_own, List.tail_cons, ihval, Except.map]

theorem convert_dropped_first (h : fm.LengthLaws) {old new : List Attribute}
    (hv : Versions old new) (hk : DropsFirst old new) (vals : List (Option δ))
    (hlen : vals.length = old.length) :
    (push_columns old (droplist old new) (pllua_datum_deform_tuple old vals)).length ≤
        new.countP (!·.attisdropped) ∧
      column_values fm new
          (push_columns old (droplist old new) (pllua_datum_deform_tuple old vals)) =
        .ok (converted_columns new vals) := by
  induction hv generalizing vals with
  | nil added =>
    have hnil : vals = [] := by simpa using hlen
    subst hnil
    exact ⟨Nat.zero_le _, column_values_nil h added⟩
  | @cons s d ss ds dropped live hv ih =>
    unfold DropsFirst at hk
    cases hd : d.attisdropped with
    | false =>
      rw [if_neg (by simp [hd])] at hk
      have hdl : ∀ b ∈ droplist (s :: ss) (d :: ds), b = false := by
        intro b hb
        simp only [droplist, hd, Bool.false_eq_true, if_false] at hb
        exact List.eq_of_mem_replicate hb
      rw [push_columns_keep _ _ _ hdl]
      exact convert_kept h (.cons dropped live hv) hk vals hlen
    | true =>
      rw [if_pos hd] at hk
      cases vals with
      | nil => cases hlen
      | cons v vals =>
        obtain ⟨ihlen, ihval⟩ := ih hk vals (by simpa using hlen)
        have hskip : (s.attisdropped || !s.attisdropped) = true := Bool.or_not_self _
        simp only [pllua_datum_deform_tuple, push_columns, droplist, hd, if_true, List.headD_cons,
          hskip, List.tail_cons, column_values, converted_columns, kept]
        rw [List.countP_cons_of_neg (by simp [hd])]
        exact ⟨ihlen, by simp [ihval, Except.map]⟩

/-- A column dropped after a live one is still an argument. Its row has only this value, and
so nothing of the new version. -/
theorem lost_kept [Inhabited δ] {old new : List Attribute} (hk : ¬ Kept old new) :
    ∃ vals : List (Option δ), vals.length = old.length ∧
      (∃ a ∈ push_columns old [] (pllua_datum_deform_tuple old vals), a ≠ none) ∧
      ∀ v ∈ converted_columns new vals, v = none := by
  induction old generalizing new with
  | nil => exact absurd trivial hk
  | cons s ss ih =>
    cases new with
    | nil => exact absurd trivial hk
    | cons d ds =>
      by_cases hhead : s.attisdropped = false → d.attisdropped = false
      · have hks : ¬ Kept ss ds := fun hks => hk ⟨hhead, hks⟩
        obtain ⟨vals, hlen, ⟨a, ha, hne⟩, hnull⟩ := ih hks
        refine ⟨none :: vals, by simp [hlen], ⟨a, ?_, hne⟩, ?_⟩
        · simp only [pllua_datum_deform_tuple, push_columns, List.headD_nil, Bool.or_false,
            List.tail_nil]
          split
          · exact ha
          · exact List.mem_cons_of_mem _ ha
        · intro v hv
          rw [converted_columns, List.mem_cons] at hv
          rcases hv with rfl | hv
          · simp [kept]
          · exact hnull v hv
      · have hs : s.attisdropped = false := by
          by_contra hs
          exact hhead fun h => absurd h hs
        have hd : d.attisdropped = true := by
          by_contra hd
          exact hhead fun _ => by simpa using hd
        refine ⟨some default :: List.replicate ss.length none, by simp, ?_, ?_⟩
        · simp [pllua_datum_deform_tuple, push_columns, hs]
        · intro v hv
          simp only [converted_columns, kept, hd, if_true, List.tail_cons, List.mem_cons] at hv
          rcases hv with rfl | hv
          · rfl
          · exact converted_columns_null ds _ (fun v hv => List.eq_of_mem_replicate hv) v hv

theorem lost_dropped [Inhabited δ] {old new : List Attribute} (hk : ¬ DropsFirst old new) :
    ∃ vals : List (Option δ), vals.length = old.length ∧
      (∃ a ∈ push_columns old (droplist old new) (pllua_datum_deform_tuple old vals), a ≠ none) ∧
      ∀ v ∈ converted_columns new vals, v = none := by
  induction old generalizing new with
  | nil => exact absurd trivial hk
  | cons s ss ih =>
    cases new with
    | nil => exact absurd trivial hk
    | cons d ds =>
      unfold DropsFirst at hk
      cases hd : d.attisdropped with
      | false =>
        rw [if_neg (by simp [hd])] at hk
        obtain ⟨vals, hlen, ha, hnull⟩ := lost_kept (δ := δ) hk
        refine ⟨vals, hlen, ?_, hnull⟩
        rw [push_columns_keep]
        · exact ha
        · intro b hb
          simp only [droplist, hd, Bool.false_eq_true, if_false] at hb
          exact List.eq_of_mem_replicate hb
      | true =>
        rw [if_pos hd] at hk
        obtain ⟨vals, hlen, ⟨a, ha, hne⟩, hnull⟩ := ih hk
        have hskip : (s.attisdropped || !s.attisdropped) = true := Bool.or_not_self _
        refine ⟨none :: vals, by simp [hlen], ⟨a, ?_, hne⟩, ?_⟩
        · simp only [pllua_datum_deform_tuple, push_columns, droplist, hd, if_true,
            List.headD_cons, hskip, List.tail_cons]
          exact ha
        · intro v hv
          simp only [converted_columns, kept, hd, if_true, List.tail_cons, List.mem_cons] at hv
          rcases hv with rfl | hv
          · rfl
          · exact hnull v hv

/-! ## The law -/

/-- As many arguments as columns are taken as they are. -/
theorem row_call_eq {t : RowType} {args : List (Option (Datum δ))} {vals : List (Option δ)}
    (hlen : args.length = t.typeinfo.arity)
    (hv : column_values fm t.tupdesc.attrs args = .ok vals) :
    ∃ newd, pllua_typeinfo_row_call fm t args = .ok newd ∧ newd.columns = vals := by
  have hargs : ∃ args', row_call_args t args = .ok args' ∧
      column_values fm t.tupdesc.attrs args' = .ok vals := by
    have hnulls : column_values fm t.tupdesc.attrs (List.replicate t.typeinfo.arity none) =
        column_values fm t.tupdesc.attrs [] := column_values_pad fm _ [] _
    unfold row_call_args
    rcases drop_nil_cases args with hd | ⟨rfl, hd⟩
    · rw [hd]
      by_cases hzero : args.length = 0
      · rw [List.eq_nil_of_length_eq_zero hzero] at hv
        exact ⟨_, if_pos hzero, hnulls.trans hv⟩
      · exact ⟨args, by simp only [if_neg hzero, if_neg (not_not.mpr hlen)], hv⟩
    · rw [hd]
      refine ⟨_, rfl, ?_⟩
      rw [hnulls, ← hv]
      exact (column_values_pad fm _ [] 1).symm
  obtain ⟨args', hargs', hv'⟩ := hargs
  unfold pllua_typeinfo_row_call
  rw [hargs']
  simp only
  split
  · rename_i he
    rw [hv'] at he
    cases he
  · rename_i vals' he
    rw [hv'] at he
    cases he
    exact ⟨_, rfl, rfl⟩

/-- Arguments that are not all nil must be as many as the columns. -/
theorem row_call_some {t : RowType} {args : List (Option (Datum δ))} {newd : Row δ t.tupdesc}
    (harg : ∃ a ∈ args, a ≠ none) (h : pllua_typeinfo_row_call fm t args = .ok newd) :
    args.length = t.typeinfo.arity ∧
      column_values fm t.tupdesc.attrs args = .ok newd.columns := by
  obtain ⟨a, ha, hne⟩ := harg
  unfold pllua_typeinfo_row_call row_call_args at h
  split at h
  · cases h
  · rename_i args' hargs
    have hd : drop_nil args = args := by
      rcases drop_nil_cases args with hd | ⟨rfl, -⟩
      · exact hd
      · exact absurd (List.mem_singleton.mp ha) hne
    have hsame : args' = args ∧ args.length = t.typeinfo.arity := by
      rw [hd] at hargs
      simp only at hargs
      split at hargs
      · rename_i hzero
        rw [List.eq_nil_of_length_eq_zero hzero] at ha
        cases ha
      · split at hargs
        · cases hargs
        · rename_i hlen
          cases hargs
          exact ⟨rfl, not_not.mp hlen⟩
    rw [← hsame.1]
    refine ⟨hsame.1 ▸ hsame.2, ?_⟩
    split at h
    · cases h
    · rename_i vals he
      cases h
      exact he

/-- The second type is the current version of a named row type, and the first one is an
older version of it. -/
structure VersionsOf (src_t dst_t : RowType) : Prop where
  named : src_t.typeinfo.basetype ≠ RECORDOID
  same : src_t.typeinfo.basetype = dst_t.typeinfo.basetype
  no_domain : dst_t.typeinfo.basetype = dst_t.typeinfo.typeoid
  current : dst_t.typeinfo.modified = false ∧ dst_t.typeinfo.obsolete = false
  altered : Altered src_t.tupdesc.attrs dst_t.tupdesc.attrs

/-- The arguments that the cast gives to the constructor. -/
def cast_args (src_t dst_t : RowType) (vals : List (Option δ)) : List (Option (Datum δ)) :=
  push_columns src_t.tupdesc.attrs (droplist src_t.tupdesc.attrs dst_t.tupdesc.attrs)
    (pllua_datum_deform_tuple src_t.tupdesc.attrs vals)

theorem VersionsOf.not_stale {src_t dst_t : RowType} (h : VersionsOf src_t dst_t) :
    (dst_t.typeinfo.modified || dst_t.typeinfo.obsolete) = false := by
  rw [h.current.1, h.current.2]
  rfl

theorem create_versions (fm : Fmgr δ) {src_t dst_t : RowType} (h : VersionsOf src_t dst_t) :
    pllua_typeconv_create fm src_t dst_t =
      .ok (.row_coerce (if (droplist src_t.tupdesc.attrs dst_t.tupdesc.attrs).any id then
        some (droplist src_t.tupdesc.attrs dst_t.tupdesc.attrs) else none)) := by
  have hsame : (decide (src_t.typeinfo.basetype ≠ RECORDOID) &&
      decide (src_t.typeinfo.basetype = dst_t.typeinfo.basetype)) = true := by
    rw [decide_eq_true h.named, decide_eq_true h.same]
    rfl
  unfold pllua_typeconv_create
  rw [h.not_stale]
  simp only [Bool.false_eq_true, if_false, hsame,
    match_columns_versions (versions_of_altered h.altered)]

/-- A droplist that names no column is left out, which makes no difference. -/
theorem push_columns_droplist (src_t dst_t : RowType) (vals : List (Option δ)) :
    push_columns src_t.tupdesc.attrs
      ((if (droplist src_t.tupdesc.attrs dst_t.tupdesc.attrs).any id then
        some (droplist src_t.tupdesc.attrs dst_t.tupdesc.attrs) else none).getD [])
      (pllua_datum_deform_tuple src_t.tupdesc.attrs vals) = cast_args src_t dst_t vals := by
  unfold cast_args
  split
  · rfl
  · rename_i hany
    rw [push_columns_keep _ (droplist _ _)]
    · rfl
    · intro b hb
      by_contra hb'
      exact hany (List.any_eq_true.mpr ⟨b, hb, by simpa using hb'⟩)

/-- The cast calls the constructor with these arguments, and nils for the added columns. -/
theorem call_datum_spec (fm : Fmgr δ) {src_t dst_t : RowType} (h : VersionsOf src_t dst_t)
    (row : Row δ src_t.tupdesc) :
    ∃ f : Row δ dst_t.tupdesc → Row δ dst_t.tupdesc, (∀ r, (f r).columns = r.columns) ∧
      pllua_typeinfo_call_datum fm src_t dst_t row =
        (pllua_typeinfo_row_call fm dst_t (cast_args src_t dst_t row.columns ++
          List.replicate (dst_t.typeinfo.arity - (cast_args src_t dst_t row.columns).length)
            none)).map f := by
  refine ⟨fun newd => if dst_t.typeinfo.hasoid && src_t.typeinfo.hasoid then
    { newd with oid := row.oid } else newd, ?_, ?_⟩
  · intro r
    split <;> rfl
  · unfold pllua_typeinfo_call_datum
    rw [create_versions fm h]
    simp only
    unfold pllua_typeconv_row_coerce
    rw [h.not_stale, push_columns_droplist]
    simp only [Bool.false_eq_true, if_false, h.no_domain, ne_eq, not_true_eq_false]
    split
    · rename_i e he
      rw [he]
      rfl
    · rename_i newd he
      rw [he]
      rfl

/-- Every row of an old version is converted as it should be if and only if the columns
that were dropped since then come before the first live column. -/
theorem rows_are_converted_iff_the_dropped_columns_come_first [Inhabited δ] (fm : Fmgr δ)
    (hfm : fm.LengthLaws) (src_t dst_t : RowType) (h : VersionsOf src_t dst_t) :
    (∀ row : Row δ src_t.tupdesc, ∃ row' : Row δ dst_t.tupdesc,
      pllua_typeinfo_call_datum fm src_t dst_t row = .ok row' ∧ Converted row row') ↔
      DroppedFirst src_t.tupdesc.attrs dst_t.tupdesc.attrs := by
  have hversions := versions_of_altered h.altered
  have harity : dst_t.typeinfo.arity = dst_t.tupdesc.attrs.countP (!·.attisdropped) :=
    dst_t.arity_eq
  rw [← dropsFirst_iff]
  constructor
  · intro hall
    by_contra hk
    obtain ⟨vals, hlen, ⟨a, ha, hne⟩, hnull⟩ := lost_dropped (δ := δ) hk
    obtain ⟨row', hcall, hconv⟩ := hall ⟨InvalidOid, vals, hlen⟩
    obtain ⟨f, hf, heq⟩ := call_datum_spec fm h ⟨InvalidOid, vals, hlen⟩
    rw [heq] at hcall
    cases hr : pllua_typeinfo_row_call fm dst_t (cast_args src_t dst_t vals ++
        List.replicate (dst_t.typeinfo.arity - (cast_args src_t dst_t vals).length) none) with
    | error e =>
      rw [hr] at hcall
      cases hcall
    | ok newd =>
      rw [hr] at hcall
      cases hcall
      -- the value of the lost column has gone to some other column
      obtain ⟨hl, hv⟩ := row_call_some ⟨a, List.mem_append_left _ ha, hne⟩ hr
      obtain ⟨v, hmem, hv⟩ := column_values_some hfm (Nat.le_of_eq (hl.trans harity))
        ⟨a, List.mem_append_left _ ha, hne⟩ hv
      rw [converted_iff, hf] at hconv
      exact hv (hnull v (hconv ▸ hmem))
  · intro hk row
    obtain ⟨f, hf, heq⟩ := call_datum_spec fm h row
    obtain ⟨hle, hv⟩ := convert_dropped_first hfm hversions hk row.columns row.length_eq
    have hle : (cast_args src_t dst_t row.columns).length ≤ dst_t.typeinfo.arity := by
      rw [harity]
      exact hle
    have hcount : (cast_args src_t dst_t row.columns ++ List.replicate
        (dst_t.typeinfo.arity - (cast_args src_t dst_t row.columns).length) none).length =
        dst_t.typeinfo.arity := by
      rw [List.length_append, List.length_replicate]
      omega
    obtain ⟨newd, hnew, hcols⟩ := row_call_eq hcount ((column_values_pad fm _ _ _).trans hv)
    refine ⟨f newd, ?_, ?_⟩
    · rw [heq, hnew]
      rfl
    · rw [converted_iff, hf, hcols]

end

/-- The typeinfo of a named row type. -/
def named_row_type (oid : Oid) (tupdesc : TupleDesc) : RowType where
  typeinfo :=
    { typeoid := oid, typmod := -1, arity := TupleDesc.arity tupdesc, natts := tupdesc.natts
      tupdesc := some tupdesc, reloid := oid, basetype := oid, basetypmod := -1
      elemtype := InvalidOid, rangetype := InvalidOid, hasoid := tupdesc.hasoid
      is_array := false, is_range := false, is_enum := false, is_anonymous_record := false
      nested_unknowns := false, nested_composites := false
      revalidate := false, modified := false, obsolete := false
      io := ⟨-1, false, 'd', ',', oid, InvalidOid⟩, fromsql := InvalidOid, tosql := InvalidOid
      attrtypes := [] }
  tupdesc := tupdesc
  tupdesc_eq := rfl
  natts_eq := rfl
  arity_eq := rfl
  hasoid_eq := rfl

/-- Column types without a length, with numbers for values. -/
def plain_types : Fmgr Nat where
  length_coercion := fun _ => none
  construct := fun oid d => .ok { d with typeoid := oid, typmod := -1, modified := false }
  domain_check := fun _ _ => .ok ()
  name := fun _ => .ok "t"

theorem plain_types_lengthLaws : plain_types.LengthLaws where
  strict := fun _ _ _ h => by cases h
  not_null := fun _ _ _ _ _ _ h => by cases h

/-- A table of live columns of type int4. -/
def int_table (names : List String) : TupleDesc :=
  ⟨names.map fun name => ⟨name, 23, -1, false⟩, false⟩

/-- The table `(a, b, c)` after DROP COLUMN of the column with the index. -/
def without_column (i : Nat) : TupleDesc :=
  ⟨(int_table ["a", "b", "c"]).attrs.modify i (dropped_column i), false⟩

/-- The same and then ADD COLUMN `d`. -/
def with_added_column (i : Nat) : TupleDesc :=
  ⟨(without_column i).attrs ++ [⟨"d", 23, -1, false⟩], false⟩

theorem versions_of_abc (i : Nat) : VersionsOf (named_row_type 101 (int_table ["a", "b", "c"]))
    (named_row_type 101 (without_column i)) :=
  ⟨by decide, rfl, rfl, ⟨rfl, rfl⟩, .drop_column _ i .refl⟩

theorem versions_of_abcd (i : Nat) : VersionsOf (named_row_type 101 (int_table ["a", "b", "c"]))
    (named_row_type 101 (with_added_column i)) :=
  ⟨by decide, rfl, rfl, ⟨rfl, rfl⟩, .add_column _ _ (.drop_column _ i .refl) rfl⟩

/-- The row `(1, 2, 3)`. -/
def row_123 : Row Nat (int_table ["a", "b", "c"]) := ⟨InvalidOid, [some 1, some 2, some 3], rfl⟩

/-- The row cast to another version of the table. -/
def cast_123 (tupdesc : TupleDesc) : Except String (Row Nat tupdesc) :=
  pllua_typeinfo_call_datum plain_types (named_row_type 101 (int_table ["a", "b", "c"]))
    (named_row_type 101 tupdesc) row_123

/-- Column `b` is dropped after the live column `a`: there is an argument too many, or, with
a column added, the value of `b` goes to `c` and that of `c` to `d`. -/
theorem a_column_dropped_after_a_live_one_shifts_the_rest :
    (cast_123 (without_column 1)).map (·.columns) =
      .error "incorrect number of arguments for type constructor (expected 2 got 3)" ∧
    (cast_123 (with_added_column 1)).map (·.columns) = .ok [some 1, none, some 2, some 3] ∧
    ¬ ∃ row', cast_123 (with_added_column 1) = .ok row' ∧ Converted row_123 row' := by
  have hadded : (cast_123 (with_added_column 1)).map (·.columns) =
      .ok [some 1, none, some 2, some 3] := by
    unfold cast_123 pllua_typeinfo_call_datum
    rw [create_versions plain_types (versions_of_abcd 1)]
    rfl
  refine ⟨?_, hadded, ?_⟩
  · unfold cast_123 pllua_typeinfo_call_datum
    rw [create_versions plain_types (versions_of_abc 1)]
    rfl
  · rintro ⟨row', hcall, hconv⟩
    rw [hcall] at hadded
    have hcols : row'.columns = [some 1, none, some 2, some 3] := Except.ok.inj hadded
    have hc := hconv 2 ⟨"c", 23, -1, false⟩ rfl
    rw [hcols] at hc
    cases hc

/-- Column `a` is dropped, and `d` is added. -/
theorem a_column_dropped_first_shifts_nothing :
    ∃ row', cast_123 (with_added_column 0) = .ok row' ∧ Converted row_123 row' := by
  refine (rows_are_converted_iff_the_dropped_columns_come_first plain_types plain_types_lengthLaws
    (named_row_type 101 (int_table ["a", "b", "c"])) (named_row_type 101 (with_added_column 0))
    (versions_of_abcd 0)).mpr ?_ row_123
  apply (dropsFirst_iff _ _).mp
  show Kept _ _
  simp [Kept]

end pllua.rowcast
