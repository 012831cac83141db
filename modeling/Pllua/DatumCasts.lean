-- What a type makes of a datum: the value goes by what the datum and its columns hold, whether
-- the row is deformed, exploded or flat, and reading it leaves every datum as it was.
import Pllua.DatumWrites
import Pllua.RowVersions
import Mathlib.Data.List.Forall2

open pllua.catalog pllua.records

namespace pllua.datums

section
variable {α : Type} (types : Types) (pg : Backend α types)

/-! ## Casts of values -/

/-- What a datum holds: a value of a type, the typmod that it has, and the marks of what is in
it. -/
structure Held (α : Type) where
  typeoid : Oid
  typmod : Int
  marks : List Nat → Mark
  value : Value α

/-- A column of a row. An assignment does not apply the typmod of its column. -/
def column_of (marks : List Nat → Mark) (i : Nat) (att : Attribute) (v : Value α) : Held α where
  typeoid := att.atttypid
  typmod := if marks [i] = .raw then -1 else att.atttypmod
  marks := fun p => marks (i :: p)
  value := v

/-- The columns of a row from number `k` on. -/
def with_attributes (marks : List Nat → Mark) :
    Nat → List Attribute → List (Option (Value α)) → List (Option (Held α))
  | k, att :: attrs, col :: cols =>
    col.map (column_of marks k att) :: with_attributes marks (k + 1) attrs cols
  | _, _, _ => []

/-- What a column of a row type makes of a value. -/
def column_cast (cast : Oid → Held α → Except Failure (Option (Value α))) (att : Attribute)
    (u : Held α) : Except Failure (Value α) :=
  let same := u.typeoid = att.atttypid
  match if same ∧ (types.typeinfo att.atttypid).is_row = false then .ok (some u.value)
    else cast att.atttypid u with
  | .error e => .error e
  | .ok none => .error .error
  | .ok (some v) =>
    if 0 ≤ att.atttypmod ∧ ¬ (same ∧ u.typmod = att.atttypmod) then
      pllua_typeinfo_coerce_typmod types pg att.atttypid att.atttypmod v
    else .ok v

/-- The row of what the columns make of values. -/
def row_cast (cast : Oid → Held α → Except Failure (Option (Value α))) (attrs : List Attribute)
    (args : List (Option (Held α))) : Except Failure (Option (Value α)) :=
  (row_call (fun att u (_ : Unit) => ((), column_cast types pg cast att u)) attrs args ()).2.map
    fun cols => some (.row cols)

/-- A column that nil was assigned to cannot be read. -/
def readable (marks : List Nat → Mark) (i : Nat) : Except Failure Unit :=
  if marks [i] = .cleared then .error .error else .ok ()

/-- What the elements' type makes of a column of a row. -/
def element_cast (cast : Oid → Held α → Except Failure (Option (Value α))) (elemtype : Oid)
    (u : Held α) (i : Nat) : Except Failure (Option (Value α)) :=
  match types.column u.typeoid i with
  | none => .error .error
  | some att =>
    match u.value.col i with
    | none => made_of_nil types pg (types.nesting elemtype + 1) elemtype
    | some v =>
      if (types.typeinfo att.atttypid).tolua then
        match pg.from_lua att.atttypid elemtype v with
        | none => .error .error
        | some w => .ok (w.map (·.val))
      else cast elemtype (column_of u.marks i att v)

/-- What an array type makes of a value that is no array. -/
def array_cast (cast : Oid → Held α → Except Failure (Option (Value α))) (elemtype : Oid)
    (u : Held α) : Except Failure (Option (Value α)) :=
  match types.container u.typeoid elemtype with
  | none =>
    match scalar_container types pg u.typeoid elemtype with
    | some largest => array_of_scalar types pg elemtype (largest u.value)
    | none => (cast elemtype u).map fun v => some (.flat (pg.construct_array elemtype [v]))
  | some attrs =>
    match (List.range attrs.length).mapM (readable u.marks) with
    | .error e => .error e
    | .ok _ =>
      ((List.range (pllua_largest_int_key pg.name_integer attrs)).mapM
        (element_cast types pg cast elemtype u)).map
        fun vs => some (.flat (pg.construct_array elemtype vs))

/-- What a type makes of a value of another one, or of its own: the columns that were assigned to
get their typmods. -/
def value_cast : Nat → Oid → Held α → Except Failure (Option (Value α))
  | 0, _, _ => .error .error
  | n + 1, oid, u =>
    if types.as_element u.typeoid oid then
      match types.typeinfo oid with
      | .row attrs =>
        if arity attrs = 1 then row_cast types pg (value_cast n) attrs [some u] else .error .error
      | .array elemtype => array_cast types pg (value_cast n) elemtype u
      | _ => .error .error
    else
      match types.typeinfo u.typeoid, types.typeinfo oid with
      | .row src_attrs, .row attrs =>
        match rowcast.match_columns (u.typeoid = oid) src_attrs attrs, u.value with
        | some _, .row cols =>
          let args := push_columns src_attrs (with_attributes u.marks 0 src_attrs cols)
          if arity attrs < args.length then .error .error
          else row_cast types pg (value_cast n) attrs args
        | _, _ => .error .error
      | .row _, _ | _, .row _ => .error .error
      | _, _ =>
        match pg.cast u.typeoid oid u.value with
        | none => .error .error
        | some w => .ok (w.map (·.val))

variable {types pg}

theorem push_columns_length {β : Type} {attrs : List Attribute} {cols : List (Option β)}
    (hlen : cols.length = attrs.length) : (push_columns attrs cols).length = arity attrs := by
  induction attrs generalizing cols with
  | nil => rfl
  | cons att attrs ih =>
    cases cols with
    | nil => cases hlen
    | cons col cols =>
      have hlen' : cols.length = attrs.length := Nat.succ.inj hlen
      unfold push_columns arity
      cases hd : att.attisdropped with
      | true => simpa [hd, arity] using ih hlen'
      | false => simpa [hd, arity] using ih hlen'

theorem with_attributes_length (marks : List Nat → Mark) (k : Nat) {attrs : List Attribute}
    {cols : List (Option (Value α))} (hlen : cols.length = attrs.length) :
    (with_attributes marks k attrs cols).length = attrs.length := by
  induction attrs generalizing k cols with
  | nil => rfl
  | cons att attrs ih =>
    cases cols with
    | nil => cases hlen
    | cons col cols => exact congrArg (· + 1) (ih (k + 1) (Nat.succ.inj hlen))

/-- A column of the list. -/
theorem with_attributes_get {marks : List Nat → Mark} {k i : Nat} {attrs : List Attribute}
    {cols : List (Option (Value α))} {col : Held α}
    (h : (with_attributes marks k attrs cols)[i]? = some (some col)) :
    ∃ att v, attrs[i]? = some att ∧ cols[i]? = some (some v) ∧
      col = column_of marks (k + i) att v := by
  induction attrs generalizing k i cols with
  | nil => simp [with_attributes] at h
  | cons att attrs ih =>
    cases cols with
    | nil => simp [with_attributes] at h
    | cons c cols =>
      cases i with
      | zero =>
        cases c with
        | none => simp [with_attributes] at h
        | some v =>
          simp only [with_attributes, List.getElem?_cons_zero, Option.map_some,
            Option.some.injEq] at h
          exact ⟨att, v, rfl, rfl, h.symm⟩
      | succ i =>
        obtain ⟨att', v, hatt, hv, hcol⟩ := ih (k := k + 1) (i := i) h
        refine ⟨att', v, hatt, hv, ?_⟩
        rw [hcol]
        congr 1
        omega

/-- A row gets its own columns back. -/
theorem row_call_own {cast : Oid → Held α → Except Failure (Option (Value α))}
    {marks : List Nat → Mark} (hplain : ∀ i p, marks (i :: p) = .plain) (k : Nat)
    {attrs : List Attribute} {cols : List (Option (Value α))} (hlen : cols.length = attrs.length)
    (hdropped : ∀ (i : Nat) (att : Attribute) (v : Value α), attrs[i]? = some att →
      cols[i]? = some (some v) → att.attisdropped = false)
    (hcast : ∀ (i : Nat) (att : Attribute) (u : Held α), u.typeoid = att.atttypid →
      (types.typeinfo att.atttypid).is_row = true → (∀ i p, u.marks (i :: p) = .plain) →
      attrs[i]? = some att → cols[i]? = some (some u.value) →
      cast att.atttypid u = .ok (some u.value)) :
    row_call (fun att u (_ : Unit) => ((), column_cast types pg cast att u)) attrs
      (push_columns attrs (with_attributes marks k attrs cols)) () = ((), .ok cols) := by
  induction attrs generalizing k cols with
  | nil =>
    obtain rfl : cols = [] := List.length_eq_zero_iff.mp hlen
    rfl
  | cons att attrs ih =>
    cases cols with
    | nil => cases hlen
    | cons col cols =>
      have hrest := ih (k + 1) (Nat.succ.inj hlen)
        (fun i att v hatt hv => hdropped (i + 1) att v hatt hv)
        (fun i att u ht hrow hm hatt hv => hcast (i + 1) att u ht hrow hm hatt hv)
      simp only [with_attributes]
      unfold push_columns row_call
      cases hd : att.attisdropped with
      | true =>
        have hcol : col = none := by
          cases col with
          | none => rfl
          | some v =>
            have hlive := hdropped 0 att v rfl rfl
            rw [hd] at hlive
            cases hlive
        simp [hrest, hcol, Except.map]
      | false =>
        cases col with
        | none => simp [hrest, Except.map]
        | some v =>
          have hself : column_cast types pg cast att (column_of marks k att v) = .ok v := by
            have hsame : (if (types.typeinfo att.atttypid).is_row = false then .ok (some v)
                else cast att.atttypid (column_of marks k att v)) = .ok (some v) := by
              cases hrow : (types.typeinfo att.atttypid).is_row with
              | false => rfl
              | true => exact hcast 0 att _ rfl hrow (fun i p => hplain k (i :: p)) rfl rfl
            unfold column_cast
            simp only [column_of, true_and] at hsame ⊢
            rw [hsame]
            simp [hplain]
          simp [hrest, hself, Except.map]

theorem as_element_self (oid : Oid) : types.as_element oid oid = false := by
  unfold Types.as_element
  cases types.typeinfo oid <;> simp [Typeinfo.is_row, Typeinfo.is_array]

/-- A row type makes a copy of its own rows, where no column was assigned to. -/
theorem value_cast_self (n : Nat) {u : Held α} (hrow : (types.typeinfo u.typeoid).is_row = true)
    (hplain : ∀ i p, u.marks (i :: p) = .plain) (hw : Wellformed types u.typeoid u.value)
    (hn : types.nesting u.typeoid ≤ n) :
    value_cast types pg (n + 1) u.typeoid u = .ok (some u.value) := by
  induction n using Nat.strongRecOn generalizing u with
  | ind n ih =>
    unfold value_cast
    rw [as_element_self]
    obtain ⟨oid, typmod, marks, v⟩ := u
    cases hw with
    | flat hflat => exact absurd (hflat.symm.trans hrow) Bool.false_ne_true
    | row ht hlen hdropped hcols =>
      rename_i attrs cols
      have hmatch := rowcast.match_columns_versions (rowcast.versions_refl attrs)
      have hargs : (push_columns attrs (with_attributes marks 0 attrs cols)).length =
          arity attrs := push_columns_length (with_attributes_length marks 0 hlen)
      have hown := @row_call_own α types pg (value_cast types pg n) marks hplain 0 attrs cols hlen
        hdropped ?_
      · simp only [ht, decide_true, hmatch, hargs, Nat.lt_irrefl, if_false, row_cast, hown,
          Except.map, Bool.false_eq_true]
      · intro i att w htype hrow' hplain' hatt hu
        have hlt := types.nesting_lt ht (List.mem_of_getElem? hatt)
        have hle : types.nesting oid ≤ n := hn
        have hww := hcols i att w.value hatt hu
        rw [← htype] at hlt hww hrow' ⊢
        cases n with
        | zero => exact absurd (Nat.lt_of_lt_of_le hlt hle) (Nat.not_lt_zero _)
        | succ m => exact ih m (Nat.lt_succ_self m) hrow' hplain' hww (by omega)

/-- What the loop over the columns makes is a row, if each value is one of its column. -/
theorem row_call_wellformed {β : Type} {g : Attribute → β → Except Failure (Value α)}
    {attrs : List Attribute} {args : List (Option β)} {vs : List (Option (Value α))}
    (hg : ∀ att arg v, some arg ∈ args → g att arg = .ok v → Wellformed types att.atttypid v)
    (h : (row_call (fun att arg (_ : Unit) => ((), g att arg)) attrs args ()).2 = .ok vs) :
    vs.length = attrs.length ∧
      (∀ (i : Nat) (att : Attribute) (v : Value α), attrs[i]? = some att →
        vs[i]? = some (some v) → att.attisdropped = false) ∧
      ∀ (i : Nat) (att : Attribute) (v : Value α), attrs[i]? = some att →
        vs[i]? = some (some v) → Wellformed types att.atttypid v := by
  induction attrs generalizing args vs with
  | nil =>
    cases h
    exact ⟨rfl, fun i _ _ hatt => by simp at hatt, fun i _ _ hatt => by simp at hatt⟩
  | cons att attrs ih =>
    -- the first column, then those of the rest of the arguments
    have hcons : ∀ {args' : List (Option β)} {w : Option (Value α)},
        (∀ arg, some arg ∈ args' → some arg ∈ args) →
        (∀ v, w = some v → att.attisdropped = false ∧ Wellformed types att.atttypid v) →
        ((row_call (fun att arg (_ : Unit) => ((), g att arg)) attrs args' ()).2.map (w :: ·)) =
          .ok vs →
        vs.length = (att :: attrs).length ∧
          (∀ (i : Nat) (att' : Attribute) (v : Value α), (att :: attrs)[i]? = some att' →
            vs[i]? = some (some v) → att'.attisdropped = false) ∧
          ∀ (i : Nat) (att' : Attribute) (v : Value α), (att :: attrs)[i]? = some att' →
            vs[i]? = some (some v) → Wellformed types att'.atttypid v := by
      intro args' w hsub hw hvs
      cases hrest : (row_call (fun att arg (_ : Unit) => ((), g att arg)) attrs args' ()).2 with
      | error e =>
        rw [hrest] at hvs
        cases hvs
      | ok ws =>
        rw [hrest] at hvs
        cases hvs
        obtain ⟨h1, h2, h3⟩ := ih (fun att arg v harg => hg att arg v (hsub arg harg)) hrest
        refine ⟨congrArg (· + 1) h1, ?_, ?_⟩
        · intro i att' v hatt hv
          cases i with
          | zero =>
            cases hatt
            cases hv
            exact (hw v rfl).1
          | succ i => exact h2 i att' v hatt hv
        · intro i att' v hatt hv
          cases i with
          | zero =>
            cases hatt
            cases hv
            exact (hw v rfl).2
          | succ i => exact h3 i att' v hatt hv
    unfold row_call at h
    cases hd : att.attisdropped with
    | true =>
      rw [hd, if_pos rfl] at h
      exact hcons (w := none) (fun _ harg => harg) nofun h
    | false =>
      rw [hd, if_neg Bool.false_ne_true] at h
      have htail : ∀ arg, some arg ∈ args.tail → some arg ∈ args :=
        fun _ harg => List.mem_of_mem_tail harg
      split at h
      · exact hcons (w := none) htail nofun h
      · rename_i arg hhead
        simp only at h
        cases hv : g att arg with
        | error e =>
          rw [hv] at h
          cases h
        | ok v =>
          rw [hv] at h
          have hmem : some arg ∈ args := by
            cases args with
            | nil => cases hhead
            | cons a args =>
              cases hhead
              exact List.mem_cons_self
          refine hcons htail ?_ h
          rintro v' ⟨⟩
          exact ⟨hd, hg att arg v hmem hv⟩

theorem mem_push_columns {β : Type} {attrs : List Attribute} {cols : List (Option β)}
    {col : Option β} (h : col ∈ push_columns attrs cols) : col ∈ cols := by
  induction attrs generalizing cols with
  | nil => cases h
  | cons att attrs ih =>
    cases cols with
    | nil => cases h
    | cons c cols =>
      unfold push_columns at h
      split at h
      · exact List.mem_cons_of_mem _ (ih h)
      · rcases List.mem_cons.mp h with rfl | h
        · exact List.mem_cons_self
        · exact List.mem_cons_of_mem _ (ih h)

/-- The columns that are pushed from a row hold values of their types. -/
theorem columns_wellformed {marks : List Nat → Mark} {oid : Oid} {attrs : List Attribute}
    {cols : List (Option (Value α))} {u : Held α} (hw : Wellformed types oid (.row cols))
    (ht : types.typeinfo oid = .row attrs)
    (h : some u ∈ push_columns attrs (with_attributes marks 0 attrs cols)) :
    Wellformed types u.typeoid u.value := by
  obtain ⟨i, hi⟩ := List.mem_iff_getElem?.mp (mem_push_columns h)
  obtain ⟨att, v, hatt, hv, rfl⟩ := with_attributes_get hi
  cases hw with
  | row ht' hlen hdropped hcols =>
    rw [ht] at ht'
    cases ht'
    exact hcols i att v hatt hv

theorem coerce_typmod_wellformed {oid : Oid} {typmod : Int} {v w : Value α}
    (hw : Wellformed types oid v)
    (h : pllua_typeinfo_coerce_typmod types pg oid typmod v = .ok w) : Wellformed types oid w := by
  unfold pllua_typeinfo_coerce_typmod at h
  split at h
  · cases h
    exact hw
  · split at h
    · cases h
    · rename_i w' hcoerce
      cases h
      exact pg.coerce_wellformed hcoerce hw

theorem column_cast_wellformed {cast : Oid → Held α → Except Failure (Option (Value α))}
    (hcast : ∀ {oid u w}, Wellformed types u.typeoid u.value → cast oid u = .ok (some w) →
      Wellformed types oid w) {att : Attribute} {u : Held α} {w : Value α}
    (hw : Wellformed types u.typeoid u.value)
    (h : column_cast types pg cast att u = .ok w) : Wellformed types att.atttypid w := by
  unfold column_cast at h
  simp only at h
  split at h
  · cases h
  · cases h
  · rename_i v hv
    have hwv : Wellformed types att.atttypid v := by
      split at hv
      · rename_i hsame
        cases hv
        rw [← hsame.1]
        exact hw
      · exact hcast hw hv
    split at h
    · exact coerce_typmod_wellformed hwv h
    · cases h
      exact hwv

theorem row_cast_wellformed {cast : Oid → Held α → Except Failure (Option (Value α))}
    (hcast : ∀ {oid u w}, Wellformed types u.typeoid u.value → cast oid u = .ok (some w) →
      Wellformed types oid w) {oid : Oid} {attrs : List Attribute} {args : List (Option (Held α))}
    {w : Value α} (ht : types.typeinfo oid = .row attrs)
    (hargs : ∀ u, some u ∈ args → Wellformed types u.typeoid u.value)
    (h : row_cast types pg cast attrs args = .ok (some w)) : Wellformed types oid w := by
  unfold row_cast at h
  cases hcols : (row_call (fun att u (_ : Unit) => ((), column_cast types pg cast att u)) attrs
      args ()).2 with
  | error e =>
    rw [hcols] at h
    cases h
  | ok vs =>
    rw [hcols] at h
    cases h
    obtain ⟨hlen, hlive, hvs⟩ := row_call_wellformed
      (fun att u v hu hv => column_cast_wellformed hcast (hargs u hu) hv) hcols
    exact .row ht hlen hlive hvs

theorem array_cast_flat {cast : Oid → Held α → Except Failure (Option (Value α))} {elemtype : Oid}
    {u : Held α} {w : Value α} (h : array_cast types pg cast elemtype u = .ok (some w)) :
    ∃ bytes, w = .flat bytes := by
  have hmap : ∀ {β : Type} {r : Except Failure β} {f : β → α},
      r.map (fun b => some (Value.flat (f b))) = .ok (some w) → ∃ bytes, w = .flat bytes := by
    intro β r f hr
    cases r with
    | error e => cases hr
    | ok b =>
      cases hr
      exact ⟨_, rfl⟩
  unfold array_cast at h
  split at h
  · split at h
    · unfold array_of_scalar at h
      split at h
      · cases h
        exact ⟨_, rfl⟩
      · cases h
    · exact hmap h
  · split at h
    · cases h
    · exact hmap h

/-- What a cast makes is a value of the type. -/
theorem value_cast_wellformed (n : Nat) {oid : Oid} {u : Held α} {w : Value α}
    (hw : Wellformed types u.typeoid u.value) (h : value_cast types pg n oid u = .ok (some w)) :
    Wellformed types oid w := by
  induction n generalizing oid u w with
  | zero => cases h
  | succ n ih =>
    unfold value_cast at h
    split at h
    · split at h
      · rename_i attrs hdst
        split at h
        · refine row_cast_wellformed ih hdst ?_ h
          intro u' hu'
          rw [List.mem_singleton] at hu'
          cases hu'
          exact hw
        · cases h
      · rename_i elemtype hdst
        have hflat : (types.typeinfo oid).is_row = false := by
          rw [hdst]
          rfl
        obtain ⟨bytes, rfl⟩ := array_cast_flat h
        exact .flat hflat
      · cases h
    · split at h
      · rename_i src_attrs attrs hsrc hdst
        split at h
        · rename_i _ cols _ hcols
          simp only at h
          split at h
          · cases h
          · refine row_cast_wellformed ih hdst ?_ h
            rw [hcols] at hw
            exact fun u' hu' => columns_wellformed hw hsrc hu'
        · cases h
      · cases h
      · cases h
      · split at h
        · cases h
        · rename_i u' _
          cases u' with
          | none => cases h
          | some u' =>
            cases h
            exact u'.property

/-- An error of the loop comes from one of the columns. -/
theorem row_call_error {β σ : Type} {f : Attribute → β → σ → σ × Except Failure (Value α)}
    {attrs : List Attribute} {args : List (Option β)} {s : σ} {e : Failure}
    (hf : ∀ att arg s', (f att arg s').2 = .error e → e = .error)
    (h : (row_call f attrs args s).2 = .error e) : e = .error := by
  induction attrs generalizing args s with
  | nil => cases h
  | cons att attrs ih =>
    have hrest : ∀ {args' : List (Option β)} {s' : σ} {w : Option (Value α)},
        ((row_call f attrs args' s').2.map (w :: ·)) = .error e → e = .error := by
      intro args' s' w hmap
      cases hr : (row_call f attrs args' s').2 with
      | ok vs =>
        rw [hr] at hmap
        cases hmap
      | error e' =>
        rw [hr] at hmap
        cases hmap
        exact ih hr
    unfold row_call at h
    split at h
    · exact hrest h
    · split at h
      · exact hrest h
      · rename_i arg _
        split at h
        · rename_i s' e' heq
          cases h
          exact hf att arg s (by rw [heq])
        · exact hrest h

theorem row_cast_error {cast : Oid → Held α → Except Failure (Option (Value α))}
    (hcast : ∀ {oid u e}, cast oid u = .error e → e = .error) {attrs : List Attribute}
    {args : List (Option (Held α))} {e : Failure}
    (h : row_cast types pg cast attrs args = .error e) : e = .error := by
  have hcolumn : ∀ att u, column_cast types pg cast att u = .error e → e = .error := by
    intro att u hc
    unfold column_cast at hc
    simp only at hc
    split at hc
    · rename_i e' he
      cases hc
      split at he
      · cases he
      · exact hcast he
    · cases hc
      rfl
    · split at hc
      · unfold pllua_typeinfo_coerce_typmod at hc
        split at hc
        · cases hc
        · split at hc
          · cases hc
            rfl
          · cases hc
      · cases hc
  unfold row_cast at h
  cases hr : (row_call (fun att u (_ : Unit) => ((), column_cast types pg cast att u)) attrs args
      ()).2 with
  | ok vs =>
    rw [hr] at h
    cases h
  | error e' =>
    rw [hr] at h
    cases h
    exact row_call_error (fun att u _ hc => hcolumn att u hc) hr

theorem mapM_error {β γ : Type} {g : β → Except Failure γ} {bs : List β} {e : Failure}
    (hg : ∀ b e, g b = .error e → e = .error) (h : bs.mapM g = .error e) : e = .error := by
  induction bs with
  | nil => cases h
  | cons b bs ih =>
    rw [List.mapM_cons] at h
    cases hb : g b with
    | error e' =>
      rw [hb] at h
      cases h
      exact hg b _ hb
    | ok v =>
      rw [hb] at h
      cases hbs : bs.mapM g with
      | error e' =>
        rw [hbs] at h
        cases h
        exact ih hbs
      | ok vs =>
        rw [hbs] at h
        cases h

theorem mapM_ok {β γ : Type} {g : β → Except Failure γ} {bs : List β} {vs : List γ}
    (h : bs.mapM g = .ok vs) {b : β} (hb : b ∈ bs) : ∃ v, g b = .ok v := by
  induction bs generalizing vs with
  | nil => cases hb
  | cons b' bs ih =>
    rw [List.mapM_cons] at h
    cases hg : g b' with
    | error e =>
      rw [hg] at h
      cases h
    | ok v =>
      cases hbs : bs.mapM g with
      | error e =>
        rw [hg, hbs] at h
        cases h
      | ok ws =>
        rcases List.mem_cons.mp hb with rfl | hb
        · exact ⟨v, hg⟩
        · exact ih hbs hb

theorem map_error {β γ : Type} {r : Except Failure β} {f : β → γ} {e : Failure}
    (h : r.map f = .error e) : r = .error e := by
  cases r with
  | error e' =>
    cases h
    rfl
  | ok b => cases h

theorem readable_error {marks : List Nat → Mark} {i : Nat} {e : Failure}
    (h : readable marks i = .error e) : e = .error := by
  unfold readable at h
  split at h
  · cases h
    rfl
  · cases h

theorem made_of_nil_error {n : Nat} {oid : Oid} {e : Failure}
    (h : made_of_nil types pg n oid = .error e) : e = .error := by
  induction n generalizing oid with
  | zero =>
    cases h
    rfl
  | succ n ih =>
    unfold made_of_nil at h
    split at h
    · cases h
    · exact ih (map_error h)
    · split at h
      · cases h
        rfl
      · cases h

theorem array_cast_error {cast : Oid → Held α → Except Failure (Option (Value α))}
    (hcast : ∀ {oid u e}, cast oid u = .error e → e = .error) {elemtype : Oid} {u : Held α}
    {e : Failure} (h : array_cast types pg cast elemtype u = .error e) : e = .error := by
  have helement : ∀ i e, element_cast types pg cast elemtype u i = .error e → e = .error := by
    intro i e he
    unfold element_cast at he
    split at he
    · cases he
      rfl
    · split at he
      · exact made_of_nil_error he
      · split at he
        · split at he
          · cases he
            rfl
          · cases he
        · exact hcast he
  unfold array_cast at h
  split at h
  · split at h
    · unfold array_of_scalar at h
      split at h
      · cases h
      · cases h
        rfl
    · exact hcast (map_error h)
  · split at h
    · rename_i hreads
      cases h
      exact mapM_error (fun _ _ => readable_error) hreads
    · exact mapM_error helement (map_error h)

/-- A cast never fails because of freed memory. -/
theorem value_cast_error (n : Nat) {oid : Oid} {u : Held α} {e : Failure}
    (h : value_cast types pg n oid u = .error e) : e = .error := by
  induction n generalizing oid u e with
  | zero =>
    cases h
    rfl
  | succ n ih =>
    have hrow : ∀ {attrs args}, row_cast types pg (value_cast types pg n) attrs args = .error e →
        e = .error := row_cast_error ih
    unfold value_cast at h
    split at h
    · split at h
      · split at h
        · exact hrow h
        · cases h
          rfl
      · exact array_cast_error ih h
      · cases h
        rfl
    · split at h
      · split at h
        · simp only at h
          split at h
          · cases h
            rfl
          · exact hrow h
        · cases h
          rfl
      · cases h
        rfl
      · cases h
        rfl
      · split at h
        · cases h
          rfl
        · cases h

theorem made_of_nil_wellformed {n : Nat} {oid : Oid} {v : Value α}
    (h : made_of_nil types pg n oid = .ok (some v)) : Wellformed types oid v := by
  cases n with
  | zero => cases h
  | succ n =>
    unfold made_of_nil at h
    split at h
    · rename_i attrs ht
      cases h
      have hnone : ∀ {i : Nat} {v : Value α},
          (List.replicate attrs.length (none : Option (Value α)))[i]? ≠ some (some v) := by
        intro i v hv
        have hmem := List.mem_of_getElem? hv
        rw [List.mem_replicate] at hmem
        cases hmem.2
      exact .row ht List.length_replicate (fun _ _ _ _ hv => absurd hv hnone)
        (fun _ _ _ _ hv => absurd hv hnone)
    · rename_i elemtype ht
      cases hmade : made_of_nil types pg n elemtype with
      | error e =>
        rw [hmade] at h
        cases h
      | ok w =>
        rw [hmade] at h
        cases h
        exact .flat (by rw [ht]; rfl)
    · split at h
      · cases h
      · rename_i w _
        cases w with
        | none => cases h
        | some w =>
          cases h
          exact w.property

/-! ## Reading a datum -/

/-- The invariant, with every row at rest, as it is between the operations. -/
structure Settled (types : Types) (h : Heap α) (s : Forest α) (loc : Places) (marks : Marks) :
    Prop where
  inv : Inv types h s loc
  rest : ∀ y Q, loc y = some Q → Rested h y
  marked : Marked types h s loc marks

/-- Rows may have been deformed, and nothing else. -/
structure Reading (types : Types) (h h' : Heap α) (s : Forest α) (loc loc' : Places)
    (marks : Marks) : Prop where
  settled : Settled types h' s loc' marks
  grown : ∀ y Q, loc y = some Q → loc' y = some Q
  fresh : ∀ y Q, loc' y = some Q → loc y = some Q ∨ (h'.datum y).modified = false ∧ Q.path ≠ []
  kept : ∀ y Q, loc y = some Q → ∃ deformed, h'.datum y = { h.datum y with deformed } ∧
    ((h.datum y).deformed ≠ none → deformed = (h.datum y).deformed)
  numbered : Numbered h h' loc loc'

section
variable {h h' h'' : Heap α} {s : Forest α} {loc loc' loc'' : Places}
  {marks : Marks}

theorem Reading.refl (hs : Settled types h s loc marks) : Reading types h h s loc loc marks :=
  ⟨hs, fun _ _ hy => hy, fun _ _ hy => Or.inl hy, fun _ _ _ => ⟨_, rfl, fun _ => rfl⟩,
    .refl _ _⟩

theorem Reading.trans (hr : Reading types h h' s loc loc' marks) (hr' : Reading types h' h'' s loc' loc'' marks) :
    Reading types h h'' s loc loc'' marks := by
  refine ⟨hr'.settled, fun y Q hy => hr'.grown y Q (hr.grown y Q hy), ?_, ?_,
    hr.numbered.trans hr'.numbered⟩
  · intro y Q hy
    rcases hr'.fresh y Q hy with hmid | hnew
    · obtain ⟨_, hkeep, -⟩ := hr'.kept y Q hmid
      rw [hkeep]
      exact hr.fresh y Q hmid
    · exact Or.inr hnew
  intro y Q hy
  obtain ⟨d, hd, hsame⟩ := hr.kept y Q hy
  obtain ⟨d', hd', hsame'⟩ := hr'.kept y Q (hr.grown y Q hy)
  rw [hd] at hd' hsame'
  refine ⟨d', hd', ?_⟩
  intro hne
  have heq := hsame hne
  rw [hsame' (by rw [heq]; exact hne)]
  exact heq

theorem Reading.slot (hr : Reading types h h' s loc loc' marks) {y : Id} {Q : Place} (hy : loc y = some Q)
    {i : Nat} {slot : Slot} (hs : h.slot y i = some slot) : h'.slot y i = some slot := by
  obtain ⟨d, hd, hsame⟩ := hr.kept y Q hy
  unfold Heap.slot at hs ⊢
  have hne : (h.datum y).deformed ≠ none := by
    intro hnone
    rw [hnone] at hs
    cases hs
  rw [hd]
  simp only [hsame hne]
  exact hs

theorem Reading.table (hr : Reading types h h' s loc loc' marks) {y : Id} {Q : Place}
    (hy : loc y = some Q) {slots : List Slot} (hd : (h.datum y).deformed = some slots) :
    (h'.datum y).deformed = some slots := by
  obtain ⟨deformed, hkeep, hsame⟩ := hr.kept y Q hy
  rw [hkeep]
  exact (hsame (by rw [hd]; nofun)).trans hd

theorem Reading.type (hr : Reading types h h' s loc loc' marks) {y : Id} {Q : Place} (hy : loc y = some Q) :
    h'.type types y = h.type types y := by
  obtain ⟨_, hd, -⟩ := hr.kept y Q hy
  unfold Heap.type
  rw [hd]

variable (pg) in
theorem Settled.deform (hs : Settled types h s loc marks) {x : Id} {P : Place} {attrs : List Attribute}
    (hx : loc x = some P) (ht : h.type types x = .row attrs) :
    ∃ loc', Reading types h (pllua_datum_deform_tuple types pg x h) s loc loc' marks ∧
      ∃ slots, ((pllua_datum_deform_tuple types pg x h).datum x).deformed = some slots := by
  obtain ⟨loc', hd⟩ := @deform_row α types pg h s loc x P attrs hs.inv hx ht
  obtain ⟨slots, htable⟩ := hd.table
  have hfresh : ∀ y Q, loc' y = some Q → loc y = some Q ∨
      ((pllua_datum_deform_tuple types pg x h).datum y).modified = false ∧ Q.path ≠ [] := by
    intro y Q hy
    rcases hd.inside y Q hy with hold | ⟨⟨i, rfl⟩, hnone⟩
    · exact Or.inl hold
    · cases hv : ((pllua_datum_deform_tuple types pg x h).datum y).value with
      | some ptr => exact Or.inr ⟨(hd.inv.flat y _ ptr hy hv).2.2, by simp [Place.child]⟩
      | none =>
        obtain ⟨-, -, hsome, -⟩ := hd.inv.row y _ hy hv
        rw [hnone] at hsome
        cases hsome
  refine ⟨loc', ⟨⟨hd.inv, fun y Q hy => hd.rest hs.inv hy (hs.rest y Q),
    hd.marked marks hs.marked⟩, hd.grown, hfresh, ?_, hd.numbered⟩, slots, by rw [htable]⟩
  intro y Q hy
  by_cases hne : y = x
  · subst hne
    refine ⟨some slots, htable, ?_⟩
    intro hne
    have hsame := @deform_id α types pg h y hne
    rw [hsame] at htable
    rw [htable]
  · exact ⟨_, hd.frame y Q hy hne, fun _ => rfl⟩

/-- What stands at the place of a datum is a value of its type. -/
theorem Inv.wellformed (hi : Inv types h s loc) {x : Id} {P : Place} {v : Value α}
    (hx : loc x = some P) (hv : s.at P = some v) : Wellformed types (h.datum x).typeinfo v := by
  -- a row that is exploded has its columns in other datums, of types that nest less deep
  have hbound : ∀ (n : Nat) (x : Id) (P : Place) (v : Value α), loc x = some P → s.at P = some v →
      types.nesting (h.datum x).typeinfo < n ∨ (h.type types x).is_row = false →
      Wellformed types (h.datum x).typeinfo v := by
    intro n
    induction n with
    | zero =>
      intro x P v hx hv hn
      cases hval : (h.datum x).value with
      | some ptr =>
        obtain ⟨hat, hw, -⟩ := hi.flat x P ptr hx hval
        rw [hv] at hat
        cases hat
        exact hw
      | none =>
        obtain ⟨-, -, -, attrs, _, ht, -⟩ := hi.row x P hx hval
        rw [ht] at hn
        cases hn with
        | inl hlt => exact absurd hlt (Nat.not_lt_zero _)
        | inr hflat => cases hflat
    | succ n ih =>
      intro x P v hx hv hn
      cases hval : (h.datum x).value with
      | some ptr =>
        obtain ⟨hat, hw, -⟩ := hi.flat x P ptr hx hval
        rw [hv] at hat
        cases hat
        exact hw
      | none =>
        obtain ⟨-, -, hdef, attrs, cols, ht, hat, hlen, hlive⟩ := hi.row x P hx hval
        rw [hv] at hat
        cases hat
        refine .row ht hlen hlive ?_
        intro i att u hatt hu
        obtain ⟨slots, hslots⟩ := Option.isSome_iff_exists.mp hdef
        obtain ⟨attrs', ht', hslen, hok⟩ := hi.slots x P slots hx hslots
        rw [ht] at ht'
        cases ht'
        have hlt : i < slots.length := by
          rw [hslen]
          exact (List.getElem?_eq_some_iff.mp hatt).1
        have hstands : s.at (P.child i) = some u := by
          rw [at_child, hv]
          simp [Value.col, hu]
        have hentry := hok i att slots[i] hatt (List.getElem?_eq_getElem hlt)
        generalize slots[i] = slot at hentry
        cases slot with
        | datum c =>
          obtain ⟨-, hloc, htype⟩ := hentry
          rw [← htype]
          refine ih c (P.child i) u hloc hstands ?_
          unfold Heap.type at ht hn ⊢
          rw [htype]
          cases hrow : (types.typeinfo att.atttypid).is_row with
          | false => exact Or.inr rfl
          | true =>
            have hdeeper := types.nesting_lt ht (List.mem_of_getElem? hatt)
            rw [ht] at hn
            rcases hn with hn | hn
            · left
              omega
            · cases hn
        | null | absent =>
          obtain ⟨-, hnone⟩ := hentry
          rw [hstands] at hnone
          cases hnone
        | dropped =>
          have hlive' := hlive i att u hatt hu
          rw [hentry] at hlive'
          cases hlive'
  exact hbound _ x P v hx hv (Or.inl (Nat.lt_succ_self _))

/-- The marks of what stands at the place, by the path from there. -/
def Marks.below (marks : Marks) (P : Place) : List Nat → Mark := fun p => marks (P.below p)

theorem Marks.below_child (marks : Marks) (P : Place) (i : Nat) :
    (fun p => marks.below P (i :: p)) = marks.below (P.child i) := by
  funext p
  unfold Marks.below
  rw [Place.below_cons]

/-- What a datum at a place holds. -/
def holding (h : Heap α) (marks : Marks) (x : Id) (P : Place) (v : Value α) : Held α where
  typeoid := (h.datum x).typeinfo
  typmod := (h.datum x).typmod
  marks := marks.below P
  value := v

/-- The datum holds this. -/
def Holds (h : Heap α) (s : Forest α) (loc : Places) (marks : Marks) (x : Id) (u : Held α) : Prop :=
  ∃ P v, loc x = some P ∧ s.at P = some v ∧ u = holding h marks x P v

/-- What the datum of a place holds. -/
theorem Inv.holds_value (hi : Inv types h s loc) {x : Id} {P : Place} (hx : loc x = some P) :
    ∃ v, s.at P = some v ∧ ((h.datum x).modified = false → h.content x = .ok v) := by
  cases hv : (h.datum x).value with
  | some ptr =>
    obtain ⟨hat, -, -⟩ := hi.flat x P ptr hx hv
    exact ⟨ptr.content, hat, fun _ => hi.content_eq hx hv⟩
  | none =>
    obtain ⟨hm, -, -, attrs, cols, -, hat, -⟩ := hi.row x P hx hv
    refine ⟨.row cols, hat, ?_⟩
    intro hm'
    rw [hm] at hm'
    cases hm'

/-- The table of a row has an entry for every column. -/
theorem Settled.entry (hs : Settled types h s loc marks) {x : Id} {P : Place} {slots : List Slot}
    {attrs : List Attribute} {i : Nat} {att : Attribute} (hx : loc x = some P)
    (ht : h.type types x = .row attrs) (hd : (h.datum x).deformed = some slots)
    (hatt : attrs[i]? = some att) :
    ∃ slot, slots[i]? = some slot ∧ SlotOk h s loc P i att slot ∧
      MarkOk h att (marks (P.child i)) slot := by
  obtain ⟨attrs', ht', hlen, hok⟩ := hs.inv.slots x P slots hx hd
  rw [ht] at ht'
  cases ht'
  have hlt : i < slots.length := by
    rw [hlen]
    exact (List.getElem?_eq_some_iff.mp hatt).1
  have hslot : slots[i]? = some slots[i] := List.getElem?_eq_getElem hlt
  refine ⟨_, hslot, hok i att _ hatt hslot, hs.marked.slots x P i attrs att _ hx ht hatt ?_⟩
  unfold Heap.slot
  rw [hd]
  exact hslot

/-- A datum in a row holds the column. -/
theorem child_holds {c : Id} {P : Place} {i : Nat} {att : Attribute} {v : Value α}
    (hloc : loc c = some (P.child i)) (htype : (h.datum c).typeinfo = att.atttypid)
    (hmark : MarkOk h att (marks (P.child i)) (.datum c)) (hv : s.at (P.child i) = some v) :
    Holds h s loc marks c (column_of (marks.below P) i att v) := by
  refine ⟨_, v, hloc, hv, ?_⟩
  unfold holding column_of
  rw [htype, hmark.2, Marks.below_child]
  rfl

/-- What is no row is not taken apart. -/
theorem Settled.flat_content (hs : Settled types h s loc marks) {c : Id} {Q : Place} {v : Value α}
    (hloc : loc c = some Q) (hflat : (h.type types c).is_row = false) (hv : s.at Q = some v) :
    h.content c = .ok v := by
  obtain ⟨w, hw, hcontent⟩ := hs.inv.holds_value hloc
  rw [hv] at hw
  cases hw
  refine hcontent ?_
  cases hval : (h.datum c).value with
  | some ptr => exact (hs.inv.flat c Q ptr hloc hval).2.2
  | none =>
    obtain ⟨-, -, -, attrs, _, ht, -⟩ := hs.inv.row c Q hloc hval
    rw [ht] at hflat
    cases hflat

/-- A value that Lua gets for itself is no row. -/
theorem Settled.tolua_content (hs : Settled types h s loc marks) {c : Id} {Q : Place} {v : Value α}
    (hloc : loc c = some Q) (htolua : (h.type types c).tolua = true) (hv : s.at Q = some v) :
    h.content c = .ok v := by
  refine hs.flat_content hloc ?_ hv
  cases ht : h.type types c with
  | row attrs =>
    rw [ht] at htolua
    cases htolua
  | scalar _ _ | range | array _ => rfl

/-- The table of a deformed row goes with what stands below its place. -/
theorem Settled.table_holds (hs : Settled types h s loc marks) {x : Id} {P : Place} {slots : List Slot}
    {attrs : List Attribute} {cols : List (Option (Value α))} (hx : loc x = some P)
    (hd : (h.datum x).deformed = some slots) (ht : h.type types x = .row attrs)
    (hat : s.at P = some (.row cols)) (hlen : cols.length = attrs.length) :
    List.Forall₂ (Option.Rel (Holds h s loc marks)) (push_columns attrs (slots.map Slot.datum?))
      (push_columns attrs (with_attributes (marks.below P) 0 attrs cols)) := by
  have hi := hs.inv
  obtain ⟨attrs', ht', hslen, hok⟩ := hi.slots x P slots hx hd
  have ht₀ := ht
  rw [ht] at ht'
  cases ht'
  -- each column by itself, for the rest of the lists
  have hrest : ∀ (k : Nat) (as : List Attribute) (ss : List Slot) (cs : List (Option (Value α))),
      as = attrs.drop k → ss = slots.drop k → cs = cols.drop k →
      List.Forall₂ (Option.Rel (Holds h s loc marks)) (push_columns as (ss.map Slot.datum?))
        (push_columns as (with_attributes (marks.below P) k as cs)) := by
    intro k as
    induction as generalizing k with
    | nil => exact fun _ _ _ _ _ => .nil
    | cons att as ih =>
      intro ss cs has hss hcs
      have hatt : attrs[k]? = some att := by
        rw [← List.head?_drop, ← has]
        rfl
      have hlt : k < attrs.length := (List.getElem?_eq_some_iff.mp hatt).1
      cases ss with
      | nil =>
        have := List.drop_eq_nil_iff.mp hss.symm
        omega
      | cons slot ss =>
        cases cs with
        | nil =>
          have := List.drop_eq_nil_iff.mp hcs.symm
          omega
        | cons col cs =>
          have hslot : slots[k]? = some slot := by
            rw [← List.head?_drop, ← hss]
            rfl
          have hcol : cols[k]? = some col := by
            rw [← List.head?_drop, ← hcs]
            rfl
          have htl : ∀ {β : Type} {b : β} {bs cs : List β}, b :: bs = cs.drop k →
              bs = cs.drop (k + 1) := by
            intro β b bs cs hb
            rw [← List.tail_drop, ← hb]
            rfl
          have ih' := ih (k + 1) ss cs (htl has) (htl hss) (htl hcs)
          have hstands : s.at (P.child k) = col := by
            rw [at_child, hat]
            simp [Value.col, hcol]
          obtain ⟨slot', hslot', hentry, hmark⟩ := hs.entry hx ht₀ hd hatt
          obtain rfl : slot = slot' := Option.some.inj (hslot.symm.trans hslot')
          simp only [List.map_cons, with_attributes, push_columns]
          cases hdrop : att.attisdropped with
          | true => exact ih'
          | false =>
            refine .cons ?_ ih'
            cases slot with
            | datum c =>
              obtain ⟨-, hloc, htype⟩ := hentry
              obtain ⟨v, hv, -⟩ := hi.holds_value hloc
              rw [hstands] at hv
              subst hv
              exact .some (child_holds hloc htype hmark hstands)
            | null | absent =>
              obtain ⟨-, hnone⟩ := hentry
              rw [hstands] at hnone
              rw [hnone]
              exact .none
            | dropped => exact absurd (hdrop.symm.trans hentry) Bool.false_ne_true
  exact hrest 0 attrs slots cols rfl rfl rfl

/-- The loop of `pllua_typeinfo_row_call` over datums goes as the loop over values. -/
theorem row_call_follows {β γ σ : Type} {I : σ → Prop} {R : β → γ → Prop}
    {f : Attribute → β → σ → σ × Except Failure (Value α)}
    {g : Attribute → γ → Except Failure (Value α)}
    {attrs : List Attribute}
    (hf : ∀ att ∈ attrs, ∀ b c s, R b c → I s → I (f att b s).1 ∧ (f att b s).2 = g att c)
    {args : List (Option β)} {args' : List (Option γ)} {s : σ}
    (hargs : List.Forall₂ (Option.Rel R) args args') (hs : I s) :
    I (row_call f attrs args s).1 ∧ (row_call f attrs args s).2 =
      (row_call (fun att c (_ : Unit) => ((), g att c)) attrs args' ()).2 := by
  induction attrs generalizing args args' s with
  | nil => exact ⟨hs, rfl⟩
  | cons att attrs ihs =>
    have ih := fun {args args' s} => @ihs (fun a ha => hf a (List.mem_cons_of_mem _ ha)) args args' s
    unfold row_call
    cases hd : att.attisdropped with
    | true =>
      obtain ⟨h1, h2⟩ := ih hargs hs
      exact ⟨h1, congrArg (Except.map (none :: ·)) h2⟩
    | false =>
      simp only [Bool.false_eq_true, if_false]
      cases hargs with
      | nil =>
        obtain ⟨h1, h2⟩ := ih .nil hs
        exact ⟨h1, congrArg (Except.map (none :: ·)) h2⟩
      | cons harg hrest =>
        cases harg with
        | none =>
          obtain ⟨h1, h2⟩ := ih hrest hs
          exact ⟨h1, congrArg (Except.map (none :: ·)) h2⟩
        | some hb =>
          rename_i _ _ b c
          obtain ⟨h1, h2⟩ := hf att List.mem_cons_self b c s hb hs
          simp only [List.headD_cons, List.tail_cons]
          cases hfb : f att b s with
          | mk s' r =>
            rw [hfb] at h1 h2
            simp only at h1 h2
            rw [← h2]
            cases r with
            | error e => exact ⟨h1, rfl⟩
            | ok v =>
              obtain ⟨h3, h4⟩ := ih hrest h1
              exact ⟨h3, congrArg (Except.map (some v :: ·)) h4⟩

/-- A loop over the heap goes as the loop over values. -/
theorem in_turn_follows {β γ σ : Type} {I : σ → Prop} {f : β → σ → σ × Except Failure γ}
    {g : β → Except Failure γ} {l : List β}
    (hf : ∀ b ∈ l, ∀ s, I s → I (f b s).1 ∧ (f b s).2 = g b) {s : σ} (hs : I s) :
    I (in_turn f l s).1 ∧ (in_turn f l s).2 = l.mapM g := by
  induction l generalizing s with
  | nil => exact ⟨hs, rfl⟩
  | cons b l ih =>
    obtain ⟨h1, h2⟩ := hf b List.mem_cons_self s hs
    unfold in_turn
    rw [List.mapM_cons, ← h2]
    cases hb : f b s with
    | mk s' r =>
      rw [hb] at h1
      cases r with
      | error e => exact ⟨h1, rfl⟩
      | ok v =>
        obtain ⟨h3, h4⟩ := ih (fun b' hb' => hf b' (List.mem_cons_of_mem _ hb')) h1
        refine ⟨h3, ?_⟩
        simp only [h4]
        cases l.mapM g <;> rfl

theorem coerce_row {oid : Oid} (hrow : (types.typeinfo oid).is_row = true) (typmod : Int)
    (v : Value α) : pllua_typeinfo_coerce_typmod types pg oid typmod v = .ok v := by
  unfold pllua_typeinfo_coerce_typmod
  rw [if_pos hrow]

/-- The statement of `call_datum_spec` for one bound. -/
def Casts (types : Types) (pg : Backend α types) (n : Nat) : Prop :=
  ∀ {h : Heap α} {s : Forest α} {loc : Places} {marks : Marks} {x : Id} {u : Held α} (oid : Oid),
    Settled types h s loc marks → Holds h s loc marks x u → types.nesting oid < n →
    ∃ loc', Reading types h (pllua_typeinfo_call_datum types pg n oid x h).1 s loc loc' marks ∧
      (pllua_typeinfo_call_datum types pg n oid x h).2 = value_cast types pg n oid u

/-- The marks below a row that is not exploded. -/
theorem Settled.plain_below (hs : Settled types h s loc marks) {x : Id} {P : Place}
    (hx : loc x = some P) (hm : (h.datum x).modified = false) (i : Nat) (p : List Nat) :
    marks.below P (i :: p) = .plain := by
  refine hs.marked.whole x P i _ hx hm ?_
  rw [Place.below_cons]
  exact Place.above_below _ p

/-- One column: the datum gives what the value that it holds gives. -/
theorem column_value_spec {n : Nat} (ih : Casts types pg n) (hs : Settled types h s loc marks)
    {c : Id} {u : Held α} (hc : Holds h s loc marks c u) {att : Attribute}
    (hn : types.nesting att.atttypid < n) :
    ∃ loc', Reading types h
        (column_value types pg (pllua_typeinfo_call_datum types pg n) att c h).1 s loc loc' marks ∧
      (column_value types pg (pllua_typeinfo_call_datum types pg n) att c h).2 =
        column_cast types pg (value_cast types pg n) att u := by
  obtain ⟨loc', hr, hcast⟩ := ih att.atttypid hs hc hn
  obtain ⟨P, v, hloc, hat, rfl⟩ := hc
  have hw := hs.inv.wellformed hloc hat
  unfold column_value column_cast
  dsimp only
  by_cases hsame : (h.datum c).typeinfo = att.atttypid
  · cases hm : (h.datum c).modified with
    | false =>
      -- the datum is taken as it is, which a cast of an untouched row would also give
      obtain ⟨u, hu, hcontent⟩ := hs.inv.holds_value hloc
      rw [hat] at hu
      cases hu
      have hvalue : (if (types.typeinfo att.atttypid).is_row = false then .ok (some v)
          else value_cast types pg n att.atttypid (holding h marks c P v)) = .ok (some v) := by
        split
        · rfl
        · rename_i hrow
          obtain ⟨m, rfl⟩ := Nat.exists_eq_succ_of_ne_zero (Nat.ne_of_gt (Nat.zero_lt_of_lt hn))
          rw [← hsame] at hn hrow ⊢
          exact value_cast_self (u := holding h marks c P v) m (Bool.of_not_eq_false hrow)
            (hs.plain_below hloc hm) hw (Nat.le_of_lt_succ hn)
      refine ⟨loc, ?_, ?_⟩
      · simp only [hsame, true_and, if_true, hcontent hm, Except.map]
        split <;> exact Reading.refl hs
      · simp only [holding] at hvalue
        simp only [holding, hsame, true_and, if_true, hcontent hm, Except.map] at hvalue ⊢
        simp only [hvalue]
        split <;> rfl
    | true =>
      -- a modified datum is a row, which is put together again
      obtain ⟨-, -, -, attrs', _, htc, -⟩ :=
        hs.inv.row c _ hloc (hs.inv.value_of_modified hloc hm)
      have hrow : (types.typeinfo att.atttypid).is_row = true := by
        unfold Heap.type at htc
        rw [← hsame, htc]
        rfl
      refine ⟨loc', ?_⟩
      cases hmade : pllua_typeinfo_call_datum types pg n att.atttypid c h with
      | mk h' r =>
        rw [hmade] at hr hcast
        simp only [holding] at hcast
        subst hcast
        simp only [holding, hsame, hrow, Bool.true_eq_false, and_false, if_false, false_and,
          not_false_eq_true, and_true, true_and]
        cases value_cast types pg n att.atttypid _ with
        | error e => exact ⟨hr, rfl⟩
        | ok w =>
          cases w with
          | none => exact ⟨hr, rfl⟩
          | some w =>
            simp only [coerce_row hrow, ite_self]
            exact ⟨hr, trivial⟩
  · refine ⟨loc', ?_⟩
    cases hmade : pllua_typeinfo_call_datum types pg n att.atttypid c h with
    | mk h' r =>
      rw [hmade] at hr hcast
      simp only [holding] at hcast
      subst hcast
      simp only [holding, hsame, false_and, if_false, not_false_eq_true, and_true]
      cases value_cast types pg n att.atttypid _ with
      | error e => exact ⟨hr, rfl⟩
      | ok w =>
        cases w with
        | none => exact ⟨hr, rfl⟩
        | some w =>
          simp only
          split
          · exact ⟨hr, rfl⟩
          · exact ⟨hr, rfl⟩

/-- The loop over the columns. The rows in them may be deformed on the way. -/
theorem row_call_spec {n : Nat} (ih : Casts types pg n) (hs : Settled types h s loc marks)
    {attrs : List Attribute} {args : List (Option Id)} {args' : List (Option (Held α))}
    (hargs : List.Forall₂ (Option.Rel (Holds h s loc marks)) args args')
    (hn : ∀ att ∈ attrs, types.nesting att.atttypid < n) :
    ∃ loc', Reading types h
        (row_call (column_value types pg (pllua_typeinfo_call_datum types pg n)) attrs args h).1
        s loc loc' marks ∧
      (row_call (column_value types pg (pllua_typeinfo_call_datum types pg n)) attrs args h).2.map
        (fun cols => some (.row cols)) = row_cast types pg (value_cast types pg n) attrs args' := by
  obtain ⟨⟨loc₁, hr⟩, hcall⟩ := @row_call_follows α Id (Held α) (Heap α)
    (fun h' => ∃ loc', Reading types h h' s loc loc' marks) (Holds h s loc marks)
    (column_value types pg (pllua_typeinfo_call_datum types pg n))
    (column_cast types pg (value_cast types pg n)) attrs
    (by
      rintro att hatt c u h' ⟨P, v, hloc, hat, rfl⟩ ⟨loc', hr⟩
      obtain ⟨_, hkeep, -⟩ := hr.kept c P hloc
      have hc : Holds h' s loc' marks c (holding h marks c P v) := by
        refine ⟨P, v, hr.grown c P hloc, hat, ?_⟩
        unfold holding
        rw [hkeep]
      obtain ⟨loc'', hr', hval⟩ := column_value_spec ih hr.settled hc (hn att hatt)
      exact ⟨⟨loc'', hr.trans hr'⟩, hval⟩)
    args args' h hargs ⟨loc, Reading.refl hs⟩
  exact ⟨loc₁, hr, congrArg (Except.map fun cols => some (Value.row cols)) hcall⟩

section
variable {x : Id} {P : Place} {v : Value α} {attrs : List Attribute} {slots : List Slot}

/-- A loop with `pairs` stops where nil was assigned to a column. -/
theorem read_column_spec (hs : Settled types h s loc marks) (hx : loc x = some P)
    (ht : h.type types x = .row attrs) (hd : (h.datum x).deformed = some slots) {i : Nat}
    (hi : i < attrs.length) : read_column types x i h = (h, readable (marks.below P) i) := by
  obtain ⟨slot, hslot, hentry, hmark⟩ := hs.entry hx ht hd (List.getElem?_eq_getElem hi)
  have hbelow : marks.below P [i] = marks (P.child i) := rfl
  unfold read_column pllua_datum_column readable
  simp only [hd, Option.bind_some, hslot, hbelow]
  cases slot with
  | null | dropped =>
    have hplain : marks (P.child i) = .plain := hmark
    simp [hplain]
  | absent =>
    have hcleared : marks (P.child i) = .cleared := hmark
    simp [hcleared]
  | datum c =>
    obtain ⟨-, hloc, -⟩ := hentry
    obtain ⟨w, hw, -⟩ := hs.inv.holds_value hloc
    simp only [if_neg hmark.1]
    cases htolua : (types.typeinfo (h.datum c).typeinfo).tolua with
    | true => simp only [if_true, hs.tolua_content hloc htolua hw]
    | false => rfl

theorem element_value_spec {n : Nat} (ih : Casts types pg n) (hs : Settled types h s loc marks)
    (hx : loc x = some P) (hv : s.at P = some v) (ht : h.type types x = .row attrs)
    (hd : (h.datum x).deformed = some slots)
    (hread : ∀ i < attrs.length, readable (marks.below P) i = .ok ()) {elemtype : Oid}
    (hn : types.nesting elemtype < n) (i : Nat) :
    ∃ loc', Reading types h
        (element_value types pg (pllua_typeinfo_call_datum types pg n) elemtype x i h).1
        s loc loc' marks ∧
      (element_value types pg (pllua_typeinfo_call_datum types pg n) elemtype x i h).2 =
        element_cast types pg (value_cast types pg n) elemtype (holding h marks x P v) i := by
  have hstill : pllua_datum_deform_tuple types pg x h = h := deform_id (by rw [hd]; nofun)
  unfold element_value element_cast pllua_datum_row_index holding
  simp only [hstill]
  cases hcol : types.column (h.datum x).typeinfo i with
  | none => exact ⟨loc, Reading.refl hs, rfl⟩
  | some att =>
    have hatt : attrs[i]? = some att ∧ att.attisdropped = false := by
      unfold Heap.type at ht
      simpa [Types.column, ht, Option.filter_eq_some_iff] using hcol
    obtain ⟨slot, hslot, hentry, hmark⟩ := hs.entry hx ht hd hatt.1
    have hstands : s.at (P.child i) = v.col i := by rw [at_child, hv, Option.bind_some]
    simp only [hd, Option.bind_some, hslot]
    unfold pllua_datum_column
    cases slot with
    | null =>
      rw [← hstands, hentry.2]
      exact ⟨loc, Reading.refl hs, rfl⟩
    | dropped => exact absurd (hatt.2.symm.trans hentry) Bool.false_ne_true
    | absent =>
      have hcleared : marks.below P [i] = .cleared := hmark
      have hok := hread i (List.getElem?_eq_some_iff.mp hatt.1).1
      unfold readable at hok
      rw [if_pos hcleared] at hok
      cases hok
    | datum c =>
      obtain ⟨-, hloc, htype⟩ := hentry
      obtain ⟨w, hw, -⟩ := hs.inv.holds_value hloc
      rw [hstands] at hw
      simp only [hw, htype]
      cases htolua : (types.typeinfo att.atttypid).tolua with
      | true =>
        have hcontent : h.content c = .ok w := by
          refine hs.tolua_content hloc ?_ (hstands.trans hw)
          unfold Heap.type
          rw [htype]
          exact htolua
        simp only [if_true, hcontent]
        refine ⟨loc, ?_⟩
        cases pg.from_lua att.atttypid elemtype w <;> exact ⟨Reading.refl hs, rfl⟩
      | false => exact ih elemtype hs (child_holds hloc htype hmark (hstands.trans hw)) hn

theorem scalar_container_ne {src elemtype : Oid} {largest : Value α → Option Nat}
    (h : scalar_container types pg src elemtype = some largest) : src ≠ elemtype := by
  rintro rfl
  unfold scalar_container at h
  rw [if_pos rfl] at h
  cases h

theorem container_none {src elemtype : Oid} (h : types.container src elemtype = none)
    (hne : src ≠ elemtype) : (types.typeinfo src).is_row = false := by
  unfold Types.container at h
  cases ht : types.typeinfo src with
  | row attrs =>
    rw [ht] at h
    simp [hne] at h
  | scalar _ _ | range | array _ => rfl

/-- An array that is made of a datum: a row is read column by column. -/
theorem array_call_spec {n : Nat} (ih : Casts types pg n) (hs : Settled types h s loc marks)
    {u : Held α} (hholds : Holds h s loc marks x u) {elemtype : Oid}
    (hn : types.nesting elemtype < n) :
    ∃ loc', Reading types h
        (pllua_typeinfo_array_call types pg (pllua_typeinfo_call_datum types pg n) elemtype x h).1
        s loc loc' marks ∧
      (pllua_typeinfo_array_call types pg (pllua_typeinfo_call_datum types pg n) elemtype x h).2 =
        array_cast types pg (value_cast types pg n) elemtype u := by
  obtain ⟨P, v, hx, hv, rfl⟩ := id hholds
  unfold pllua_typeinfo_array_call array_cast
  have htypeoid : (holding h marks x P v).typeoid = (h.datum x).typeinfo := rfl
  rw [htypeoid]
  cases hcontainer : types.container (h.datum x).typeinfo elemtype with
  | none =>
    simp only
    cases hscalar : scalar_container types pg (h.datum x).typeinfo elemtype with
    | none =>
      obtain ⟨loc', hr, hval⟩ := ih elemtype hs hholds hn
      exact ⟨loc', hr,
        congrArg (Except.map fun v => some (Value.flat (pg.construct_array elemtype [v]))) hval⟩
    | some largest =>
      rw [hs.flat_content hx (container_none hcontainer (scalar_container_ne hscalar)) hv]
      exact ⟨loc, Reading.refl hs, rfl⟩
  | some attrs =>
    have ht : h.type types x = .row attrs := by
      unfold Types.container at hcontainer
      split at hcontainer
      · rename_i attrs' hrow
        split at hcontainer
        · cases hcontainer
        · cases hcontainer
          exact hrow
      · cases hcontainer
    obtain ⟨loc₁, hr₁, slots, hd⟩ := hs.deform pg hx ht
    have hx₁ := hr₁.grown x P hx
    have ht₁ := (hr₁.type hx).trans ht
    simp only
    -- the table is read, which leaves the heap as it is
    obtain ⟨heq, hreads⟩ := in_turn_follows
      (I := fun h' => h' = pllua_datum_deform_tuple types pg x h)
      (f := read_column types x) (g := readable (marks.below P)) (l := List.range attrs.length)
      (by
        rintro i hi h' rfl
        rw [read_column_spec hr₁.settled hx₁ ht₁ hd (List.mem_range.mp hi)]
        exact ⟨rfl, rfl⟩)
      rfl
    generalize in_turn (read_column types x) (List.range attrs.length)
      (pllua_datum_deform_tuple types pg x h) = out at heq hreads
    obtain ⟨h₁, r⟩ := out
    obtain rfl : h₁ = _ := heq
    have hmarks : (holding h marks x P v).marks = marks.below P := rfl
    rw [hmarks, ← hreads]
    cases r with
    | error e => exact ⟨loc₁, hr₁, rfl⟩
    | ok us =>
      have hall : ∀ i < attrs.length, readable (marks.below P) i = .ok () := by
        intro i hi
        cases hread : readable (marks.below P) i with
        | ok u => rfl
        | error e =>
          obtain ⟨u, hu⟩ := mapM_ok hreads.symm (List.mem_range.mpr hi)
          rw [hread] at hu
          cases hu
      obtain ⟨⟨loc₂, hr₂⟩, hvals⟩ := in_turn_follows
        (I := fun h' => ∃ loc', Reading types h h' s loc loc' marks ∧
          (h'.datum x).deformed = some slots)
        (f := element_value types pg (pllua_typeinfo_call_datum types pg n) elemtype x)
        (g := element_cast types pg (value_cast types pg n) elemtype (holding h marks x P v))
        (l := List.range (pllua_largest_int_key pg.name_integer attrs))
        (by
          rintro i - h' ⟨loc', hr', hd'⟩
          have hx' := hr'.grown x P hx
          obtain ⟨_, hkeep, -⟩ := hr'.kept x P hx
          have hsame : holding h' marks x P v = holding h marks x P v := by
            unfold holding
            rw [hkeep]
          obtain ⟨loc'', hr'', hval⟩ := element_value_spec ih hr'.settled hx' hv
            ((hr'.type hx).trans ht) hd' hall hn i
          exact ⟨⟨loc'', hr'.trans hr'', hr''.table hx' hd'⟩, hval.trans (by rw [hsame])⟩)
        ⟨loc₁, hr₁, hd⟩
      exact ⟨loc₂, hr₂.1,
        congrArg (Except.map fun vs => some (Value.flat (pg.construct_array elemtype vs))) hvals⟩

end

/-- The cast of a datum goes by what it holds. -/
theorem call_datum_spec (n : Nat) : Casts types pg n := by
  induction n with
  | zero => exact fun _ _ _ hn => absurd hn (Nat.not_lt_zero _)
  | succ n ih =>
    intro h s loc marks x u oid hs hholds hn
    obtain ⟨P, v, hx, hv, hu⟩ := id hholds
    have htype : (h.datum x).typeinfo = u.typeoid := by rw [hu]; rfl
    have hvalue : u.value = v := by rw [hu]; rfl
    have hmarks : u.marks = marks.below P := by rw [hu]; rfl
    have hattrs : ∀ {attrs}, types.typeinfo oid = .row attrs → ∀ att ∈ attrs,
        types.nesting att.atttypid < n := fun ht att hatt =>
      Nat.lt_of_lt_of_le (types.nesting_lt ht hatt) (Nat.le_of_lt_succ hn)
    unfold pllua_typeinfo_call_datum value_cast
    dsimp only
    rw [htype, hvalue, hmarks]
    by_cases helement : types.as_element u.typeoid oid = true
    · simp only [helement, if_true]
      cases hdst : types.typeinfo oid with
      | row attrs =>
        simp only
        split
        · exact row_call_spec ih hs (.cons (.some hholds) .nil) (hattrs hdst)
        · exact ⟨loc, Reading.refl hs, rfl⟩
      | array elemtype =>
        have hlt := Nat.lt_of_lt_of_le (types.elem_lt hdst) (Nat.le_of_lt_succ hn)
        exact array_call_spec ih hs hholds hlt
      | scalar _ _ | range => exact ⟨loc, Reading.refl hs, rfl⟩
    · simp only [helement, Bool.false_eq_true, if_false]
      cases hsrc : types.typeinfo u.typeoid with
      | row src_attrs =>
        cases hdst : types.typeinfo oid with
        | row attrs =>
          simp only
          cases rowcast.match_columns (decide (u.typeoid = oid)) src_attrs attrs with
          | none => exact ⟨loc, Reading.refl hs, rfl⟩
          | some droplist =>
            have hw := hs.inv.wellformed hx hv
            rw [htype] at hw
            cases hw with
            | flat hflat =>
              rw [hsrc] at hflat
              cases hflat
            | row ht hlen hdropped hcols =>
              rename_i attrs' cols
              rw [hsrc] at ht
              cases ht
              have ht : h.type types x = .row src_attrs := by
                unfold Heap.type
                rw [htype]
                exact hsrc
              obtain ⟨loc₁, hr, slots, hslots⟩ := hs.deform pg hx ht
              have ht₁ := hr.type hx
              rw [ht] at ht₁
              have hargs := hr.settled.table_holds (hr.grown x P hx) hslots ht₁ hv hlen
              simp only [hslots, Option.getD_some, ← List.Forall₂.length_eq hargs]
              split
              · exact ⟨loc₁, hr, rfl⟩
              · obtain ⟨loc₂, hr₂, hcall⟩ := row_call_spec ih hr.settled hargs (hattrs hdst)
                exact ⟨loc₂, hr.trans hr₂, hcall⟩
        | scalar _ _ | range | array _ => exact ⟨loc, Reading.refl hs, rfl⟩
      | scalar _ _ | range | array _ =>
        have hflat : (h.type types x).is_row = false := by
          unfold Heap.type
          rw [htype, hsrc]
          rfl
        refine ⟨loc, ?_⟩
        simp only [hs.flat_content hx hflat hv]
        cases types.typeinfo oid with
        | row attrs => exact ⟨Reading.refl hs, rfl⟩
        | scalar _ _ | range | array _ =>
          cases pg.cast u.typeoid oid v <;> exact ⟨Reading.refl hs, rfl⟩

end

end

end pllua.datums
