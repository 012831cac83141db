-- The domains of the columns of a constructed row. The constructors of the columns check them,
-- but a null has no constructor, a datum of the type of the column is taken as it is, and the
-- constructors of row and array types know nothing of a domain over their type.
import Pllua.Constructors

open pllua.catalog

namespace pllua.constructors

section
variable {S P : Type} (lib : Backend S P)

/-! ## The property and its condition -/

mutual

/-- The value satisfies the domains of its type, and its columns, at any depth, satisfy theirs.
What an array holds are no columns. -/
def satisfies : Ty → Option (Value S) → Prop
  | .row _ columns, some (.row vals) => columns_satisfy columns vals
  | .domain oid base, v => lib.accepts oid v = true ∧ satisfies base v
  | _, _ => True

def columns_satisfy : Columns → List (Option (Value S)) → Prop
  | .nil, _ => True
  | .dropped rest, vals => columns_satisfy rest vals.tail
  | .column _ type rest, vals =>
    satisfies type (vals.headD none) ∧ columns_satisfy rest vals.tail

end

section
variable (taken : Ty → Option (Value S) → Prop) (built : Ty → Lua S P → Prop)

/-- The argument for a column of the type `argt`: `taken` is asked of a null, and of a datum
that is taken as it is. -/
def column_meets (argt : Ty) (call_meets : Lua S P → Prop) (arg : Lua S P) : Prop :=
  if arg.isnil then taken argt none
  else
    match arg.datum_of argt with
    | some (_, value) => taken argt (some value)
    | none => call_meets arg

/-- The argument of a constructor by kind: `built` is asked of one that is made into an array
or a row, and the arguments for the columns of a row are to be fit for them. -/
def kind_meets (t : Ty) (row_meets : List (Lua S P) → Prop) (arg : Lua S P) : Prop :=
  (t.is_array = true ∨ t.is_row = true → built t arg) ∧
  ∀ columns args, t.columns = some columns → row_args lib columns [arg] = .ok args →
    row_meets args

/-- The argument of the constructor of `t`: nothing is asked of a cast but that the columns it
hands over are fit. -/
def call_meets (t : Ty) (row_meets : List (Lua S P) → Prop) (arg : Lua S P) : Prop :=
  match arg.typeinfo with
  | some src =>
    if is_element t src then kind_meets lib built t row_meets arg
    else ∀ src_columns columns pushed args, src.columns = some src_columns →
      t.columns = some columns → coerce_args src t src_columns columns arg = some pushed →
        row_args lib columns pushed = .ok args → row_meets args
  | none => kind_meets lib built t row_meets arg

mutual

def row_meets : Ty → List (Lua S P) → Prop
  | .row _ columns => columns_meet columns
  | .domain _ base => row_meets base
  | _ => fun _ => True

/-- Each argument is fit for its column. -/
def columns_meet : Columns → List (Lua S P) → Prop
  | .nil => fun _ => True
  | .dropped rest => columns_meet rest
  | .column _ argt rest => fun args =>
    column_meets taken argt (call_meets lib built argt (row_meets argt)) (args.headD .nil) ∧
      columns_meet rest args.tail

end

/-- The arguments of a row constructor, each fit for its column. -/
def args_meet (columns : Columns) (args : List (Lua S P)) : Prop :=
  ∀ pushed, row_args lib columns args = .ok pushed → columns_meet lib taken built columns pushed

end

/-- The domains of the type have no constraints but that on a null. -/
def unconstrained (t : Ty) (_ : Lua S P) : Prop :=
  ∀ v : Value S, domain_accepts lib.accepts t (some v) = true

/-- A null or a datum that is taken as it is satisfies the domains of its column, and no array or
row is made for a column whose domain has constraints. -/
def args_fit : Columns → List (Lua S P) → Prop :=
  args_meet lib (satisfies lib) (unconstrained lib)

/-- No array or row is made for a column whose domain has constraints. -/
def builds_unconstrained : Columns → List (Lua S P) → Prop :=
  args_meet lib (fun _ _ => True) (unconstrained lib)

/-- The domains of the type accept what its constructor makes of the argument. -/
def makes_accepted (t : Ty) (arg : Lua S P) : Prop :=
  ∀ v, call_by_kind lib t (row_values lib t) (elemtypeinfo lib t) arg = .ok v →
    domain_accepts lib.accepts t v = true

/-! ## What is asked of arguments -/

section
variable {lib} {taken taken' taken'' : Ty → Option (Value S) → Prop}
  {built built' built'' : Ty → Lua S P → Prop}

theorem column_meets_combine (htaken : ∀ t v, taken t v → taken' t v → taken'' t v) {argt : Ty}
    {c c' c'' : Lua S P → Prop} (hc : ∀ arg, c arg → c' arg → c'' arg) {arg : Lua S P} (h : column_meets taken argt c arg)
    (h' : column_meets taken' argt c' arg) : column_meets taken'' argt c'' arg := by
  unfold column_meets at h h' ⊢
  by_cases hnil : arg.isnil = true
  · rw [if_pos hnil] at h h' ⊢
    exact htaken _ _ h h'
  · rw [if_neg hnil] at h h' ⊢
    cases hdatum : arg.datum_of argt with
    | some d =>
      rw [hdatum] at h h'
      exact htaken _ _ h h'
    | none =>
      rw [hdatum] at h h'
      exact hc arg h h'

theorem kind_meets_combine
    (hbuilt : ∀ t arg, t.is_array = true ∨ t.is_row = true →
      built t arg → built' t arg → built'' t arg)
    {t : Ty} {r r' r'' : List (Lua S P) → Prop} (hr : ∀ args, r args → r' args → r'' args) {arg : Lua S P}
    (h : kind_meets lib built t r arg) (h' : kind_meets lib built' t r' arg) :
    kind_meets lib built'' t r'' arg := by
  refine ⟨fun hkind => hbuilt t arg hkind (h.1 hkind) (h'.1 hkind), ?_⟩
  intro columns args hcolumns hargs
  exact hr args (h.2 columns args hcolumns hargs) (h'.2 columns args hcolumns hargs)

theorem call_meets_combine
    (hbuilt : ∀ t arg, t.is_array = true ∨ t.is_row = true →
      built t arg → built' t arg → built'' t arg)
    {t : Ty} {r r' r'' : List (Lua S P) → Prop} (hr : ∀ args, r args → r' args → r'' args) {arg : Lua S P}
    (h : call_meets lib built t r arg) (h' : call_meets lib built' t r' arg) :
    call_meets lib built'' t r'' arg := by
  unfold call_meets at h h' ⊢
  cases harg : arg.typeinfo with
  | none =>
    rw [harg] at h h'
    exact kind_meets_combine hbuilt hr h h'
  | some src =>
    rw [harg] at h h'
    simp only at h h' ⊢
    by_cases helem : is_element t src = true
    · rw [if_pos helem] at h h' ⊢
      exact kind_meets_combine hbuilt hr h h'
    · rw [if_neg helem] at h h' ⊢
      intro src_columns columns pushed args hsrc ht hpushed hargs
      exact hr args (h _ _ _ _ hsrc ht hpushed hargs) (h' _ _ _ _ hsrc ht hpushed hargs)

mutual

theorem row_meets_combine (htaken : ∀ t v, taken t v → taken' t v → taken'' t v)
    (hbuilt : ∀ t arg, t.is_array = true ∨ t.is_row = true →
      built t arg → built' t arg → built'' t arg) :
    ∀ (t : Ty) (args : List (Lua S P)), row_meets lib taken built t args →
      row_meets lib taken' built' t args → row_meets lib taken'' built'' t args
  | .scalar _ _, _ => fun _ _ => trivial
  | .array _ _ _, _ => fun _ _ => trivial
  | .row _ columns, args => columns_meet_combine htaken hbuilt columns args
  | .domain _ base, args => row_meets_combine htaken hbuilt base args

theorem columns_meet_combine (htaken : ∀ t v, taken t v → taken' t v → taken'' t v)
    (hbuilt : ∀ t arg, t.is_array = true ∨ t.is_row = true →
      built t arg → built' t arg → built'' t arg) :
    ∀ (columns : Columns) (args : List (Lua S P)), columns_meet lib taken built columns args →
      columns_meet lib taken' built' columns args → columns_meet lib taken'' built'' columns args
  | .nil, _ => fun _ _ => trivial
  | .dropped rest, args => columns_meet_combine htaken hbuilt rest args
  | .column _ argt rest, args => fun h h' =>
    ⟨column_meets_combine htaken
      (fun _ => call_meets_combine hbuilt (row_meets_combine htaken hbuilt argt)) h.1 h'.1,
      columns_meet_combine htaken hbuilt rest args.tail h.2 h'.2⟩

end

/-- What is asked twice is asked together. -/
theorem args_meet_combine (htaken : ∀ t v, taken t v → taken' t v → taken'' t v)
    (hbuilt : ∀ t arg, t.is_array = true ∨ t.is_row = true →
      built t arg → built' t arg → built'' t arg)
    {columns : Columns} {args : List (Lua S P)}
    (h : args_meet lib taken built columns args) (h' : args_meet lib taken' built' columns args) :
    args_meet lib taken'' built'' columns args := fun pushed hpushed =>
  columns_meet_combine htaken hbuilt columns pushed (h pushed hpushed) (h' pushed hpushed)

end

/-! ## Domains and what stands under them -/

variable {lib}

theorem satisfies_iff : ∀ (t : Ty) (v : Option (Value S)),
    satisfies lib t v ↔ domain_accepts lib.accepts t v = true ∧ satisfies lib t.base v
  | .scalar _ _, _ => ⟨fun _ => ⟨rfl, trivial⟩, fun _ => trivial⟩
  | .array _ _ _, _ => ⟨fun _ => ⟨rfl, trivial⟩, fun _ => trivial⟩
  | .row oid columns, v => by
    have haccepts : domain_accepts lib.accepts (.row oid columns) v = true := by
      rw [domain_accepts]
      intro _ _ h
      cases h
    rw [haccepts]
    simp [Ty.base]
  | .domain oid base, v => by
    rw [satisfies, domain_accepts, Bool.and_eq_true, satisfies_iff base v, and_assoc, Ty.base]

/-- Under the domains stands a row type, an array type or a scalar. -/
theorem base_of_columns : ∀ {t : Ty} {columns : Columns}, t.columns = some columns →
    (∃ oid, t.base = .row oid columns) ∧ t.is_array = false
  | .row oid _, _, h => by
    cases h
    exact ⟨⟨oid, rfl⟩, rfl⟩
  | .domain _ base, _, h => base_of_columns (t := base) h

theorem satisfies_base_row {t : Ty} {columns : Columns} (h : t.columns = some columns)
    (vals : List (Option (Value S))) :
    satisfies lib t.base (some (.row vals)) ↔ columns_satisfy lib columns vals := by
  obtain ⟨⟨oid, hbase⟩, -⟩ := base_of_columns h
  rw [hbase, satisfies]

theorem satisfies_base_other : ∀ {t : Ty}, t.columns = none → ∀ v : Option (Value S),
    satisfies lib t.base v
  | .scalar _ _, _, _ => trivial
  | .array _ _ _, _, _ => trivial
  | .domain _ base, h, v => satisfies_base_other (t := base) h v

theorem domain_accepts_of_not_domain {t : Ty} (h : t.is_domain = false) (v : Option (Value S)) :
    domain_accepts lib.accepts t v = true := by
  cases t with
  | domain oid base => cases h
  | scalar oid typmod => rfl
  | array oid typmod elem => rfl
  | row oid columns => rfl

/-- A column with a typmod has no domain. -/
theorem column_typmod_satisfies {argt : Ty} {typmod : Option Int} {v w : Option (Value S)}
    (h : column_typmod lib argt typmod v = .ok w) :
    satisfies lib argt w ↔ satisfies lib argt v := by
  cases argt with
  | scalar oid typmod => exact Iff.rfl
  | array oid typmod elem => exact Iff.rfl
  | row oid columns =>
    cases h
    exact Iff.rfl
  | domain oid base =>
    cases h
    exact Iff.rfl

theorem elemtypeinfo_isSome : ∀ t : Ty, (elemtypeinfo lib t).isSome = t.is_array
  | .scalar _ _ => rfl
  | .array _ _ _ => rfl
  | .row _ _ => rfl
  | .domain _ base => elemtypeinfo_isSome base

/-! ## What a constructor makes -/

theorem check_domain_accepts {t : Ty} {v w : Option (Value S)}
    (h : pllua_typeinfo_check_domain lib t v = .ok w) :
    domain_accepts lib.accepts t w = true := by
  obtain ⟨val, -, hval⟩ := bind_eq_ok h
  by_cases haccepts : domain_accepts lib.accepts t val = true
  · rw [if_pos haccepts] at hval
    cases hval
    exact haccepts
  · rw [if_neg haccepts] at hval
    cases hval

theorem scalar_checked_accepts {t : Ty} {v w : Option (Value S)}
    (h : scalar_checked lib t v = .ok w) : domain_accepts lib.accepts t w = true := by
  unfold scalar_checked at h
  by_cases hd : t.is_domain = true
  · rw [if_pos hd] at h
    exact check_domain_accepts h
  · exact domain_accepts_of_not_domain (by simpa using hd) w

theorem cast_checked_accepts {t : Ty} {v w : Option (Value S)}
    (h : cast_checked lib t v = .ok w) : v = w ∧ domain_accepts lib.accepts t w = true := by
  unfold cast_checked at h
  split at h
  · cases h
  · rename_i hcheck
    cases h
    by_cases hd : t.is_domain = true
    · exact ⟨rfl, by simpa [hd] using hcheck⟩
    · exact ⟨rfl, domain_accepts_of_not_domain (by simpa using hd) v⟩

/-- The constructor of a scalar checks the domains, or leaves them to the input function. -/
theorem scalar_call_accepts {t : Ty} {arg : Lua S P} {v : Option (Value S)}
    (h : pllua_typeinfo_scalar_call lib t arg = .ok v) :
    domain_accepts lib.accepts t v = true := by
  unfold pllua_typeinfo_scalar_call at h
  split at h
  · obtain ⟨val, -, h⟩ := bind_eq_ok h
    obtain ⟨checked, hchecked, h⟩ := bind_eq_ok h
    split at h
    · cases h
    · cases h
      exact scalar_checked_accepts hchecked
  · split at h
    · obtain ⟨val, -, h⟩ := bind_eq_ok h
      exact scalar_checked_accepts h
    · split at h
      · obtain ⟨value, hvalue, rfl⟩ := map_eq_ok h
        exact lib.input_checks t _ value hvalue
      · cases h

theorem row_call_ok {columns : Columns}
    {values : List (Lua S P) → Except String (List (Option (Value S)))} {args : List (Lua S P)}
    {v : Value S} (h : pllua_typeinfo_row_call lib columns values args = .ok v) :
    ∃ pushed vals, row_args lib columns args = .ok pushed ∧ values pushed = .ok vals ∧
      v = .row vals := by
  obtain ⟨pushed, hpushed, h⟩ := bind_eq_ok h
  obtain ⟨vals, hvals, h⟩ := bind_eq_ok h
  cases h
  exact ⟨pushed, vals, hpushed, hvals, rfl⟩

/-- What is asked of the arguments of a row where the domains see what is made. -/
abbrev exact_meets (lib : Backend S P) : Ty → List (Lua S P) → Prop :=
  row_meets lib (satisfies lib) (makes_accepted lib)

/-- The columns of a row satisfy their domains just if the arguments are fit. -/
def RowLaw (lib : Backend S P) (t : Ty) : Prop :=
  ∀ columns args vals, t.columns = some columns → row_values lib t args = .ok vals →
    (columns_satisfy lib columns vals ↔ exact_meets lib t args)

/-- A row that is put together: the domains of its type, and those of its columns. -/
theorem row_satisfies {t : Ty} (hlaw : RowLaw lib t) {columns : Columns}
    (hcolumns : t.columns = some columns) {args : List (Lua S P)} {v : Value S}
    (h : pllua_typeinfo_row_call lib columns (row_values lib t) args = .ok v) :
    satisfies lib t (some v) ↔ domain_accepts lib.accepts t (some v) = true ∧
      ∀ pushed, row_args lib columns args = .ok pushed → exact_meets lib t pushed := by
  obtain ⟨pushed, vals, hpushed, hvals, rfl⟩ := row_call_ok h
  rw [satisfies_iff, satisfies_base_row hcolumns, hlaw columns pushed vals hcolumns hvals]
  refine and_congr_right fun _ => ⟨?_, fun hall => hall pushed hpushed⟩
  intro hmeets other hother
  rw [hpushed] at hother
  cases hother
  exact hmeets

theorem call_by_kind_satisfies {t : Ty} (hlaw : RowLaw lib t) {arg : Lua S P}
    {v : Option (Value S)}
    (h : call_by_kind lib t (row_values lib t) (elemtypeinfo lib t) arg = .ok v) :
    satisfies lib t v ↔ kind_meets lib (makes_accepted lib) t (exact_meets lib t) arg := by
  have hsame : (∀ w, call_by_kind lib t (row_values lib t) (elemtypeinfo lib t) arg = .ok w →
      domain_accepts lib.accepts t w = true) ↔ domain_accepts lib.accepts t v = true := by
    refine ⟨fun hall => hall v h, ?_⟩
    intro hv w hw
    rw [h] at hw
    cases hw
    exact hv
  rw [kind_meets, makes_accepted, hsame]
  cases hcolumns : t.columns with
  | some columns =>
    have harray := (base_of_columns hcolumns).2
    have helem : elemtypeinfo lib t = none := by
      rw [← Option.not_isSome_iff_eq_none, elemtypeinfo_isSome, harray]
      decide
    simp only [call_by_kind, helem, hcolumns] at h
    obtain ⟨value, hvalue, rfl⟩ := map_eq_ok h
    rw [row_satisfies hlaw hcolumns hvalue]
    have hrow : t.is_row = true := by rw [Ty.is_row, hcolumns, Option.isSome_some]
    refine ⟨?_, fun hmeets => ⟨hmeets.1 (Or.inr hrow), fun args => hmeets.2 columns args rfl⟩⟩
    rintro ⟨haccepts, hmeets⟩
    refine ⟨fun _ => haccepts, ?_⟩
    rintro _ args ⟨⟩ hargs
    exact hmeets args hargs
  | none =>
    rw [satisfies_iff]
    have hrow : t.is_row = false := by rw [Ty.is_row, hcolumns, Option.isSome_none]
    have hbase : satisfies lib t.base v := satisfies_base_other hcolumns v
    cases harray : t.is_array with
    | true => simp [hbase]
    | false =>
      have helem : elemtypeinfo lib t = none := by
        rw [← Option.not_isSome_iff_eq_none, elemtypeinfo_isSome, harray]
        decide
      simp only [call_by_kind, helem, hcolumns] at h
      simp [hbase, hrow, scalar_call_accepts h]

/-- A cast checks the domains of the type itself. -/
theorem call_datum_satisfies {src t : Ty} (hlaw : RowLaw lib t) {d : Lua S P}
    {v : Option (Value S)} (h : pllua_typeinfo_call_datum lib src t (row_values lib t) d = .ok v) :
    satisfies lib t v ↔ ∀ src_columns columns pushed args, src.columns = some src_columns →
      t.columns = some columns → coerce_args src t src_columns columns d = some pushed →
        row_args lib columns pushed = .ok args → exact_meets lib t args := by
  unfold pllua_typeinfo_call_datum at h
  split at h
  · rename_i hsrc ht
    split at h
    · obtain ⟨val, -, h⟩ := bind_eq_ok h
      obtain ⟨-, haccepts⟩ := cast_checked_accepts h
      rw [satisfies_iff, haccepts]
      simp [satisfies_base_other ht, ht]
    · cases h
  · rename_i src_columns columns hsrc ht
    cases hargs : coerce_args src t src_columns columns d with
    | none =>
      rw [hargs] at h
      cases h
    | some args =>
      rw [hargs] at h
      obtain ⟨row, hrow, h⟩ := bind_eq_ok h
      obtain ⟨rfl, haccepts⟩ := cast_checked_accepts h
      rw [row_satisfies hlaw ht hrow, and_iff_right haccepts, hsrc, ht]
      refine ⟨?_, fun hmeets pushed => hmeets src_columns columns args pushed rfl rfl hargs⟩
      rintro hmeets _ _ pushed args' ⟨⟩ ⟨⟩ hpushed
      rw [hargs] at hpushed
      cases hpushed
      exact hmeets args'
  · cases h

theorem construct_satisfies {t : Ty} (hlaw : RowLaw lib t) {arg : Lua S P}
    {v : Option (Value S)} (h : construct lib t arg = .ok v) :
    satisfies lib t v ↔ call_meets lib (makes_accepted lib) t (exact_meets lib t) arg := by
  unfold construct pllua_typeinfo_call at h
  unfold call_meets
  cases harg : arg.typeinfo with
  | none =>
    rw [harg] at h
    exact call_by_kind_satisfies hlaw h
  | some src =>
    rw [harg] at h
    simp only at h ⊢
    by_cases helem : is_element t src = true
    · rw [if_pos helem] at h ⊢
      exact call_by_kind_satisfies hlaw h
    · rw [if_neg helem] at h ⊢
      exact call_datum_satisfies hlaw h

/-- The value of a column: a null and a datum of its type meet no constructor. -/
theorem column_satisfies {argt : Ty} (hlaw : RowLaw lib argt) {arg : Lua S P}
    {v : Option (Value S)} (h : column_value lib argt (construct lib argt) arg = .ok v) :
    satisfies lib argt v ↔
      column_meets (satisfies lib) argt (call_meets lib (makes_accepted lib) argt (exact_meets lib argt)) arg := by
  unfold column_value at h
  unfold column_meets
  by_cases hnil : arg.isnil = true
  · rw [if_pos hnil] at h ⊢
    exact column_typmod_satisfies h
  · rw [if_neg hnil] at h ⊢
    cases hdatum : arg.datum_of argt with
    | some d =>
      rw [hdatum] at h
      exact column_typmod_satisfies h
    | none =>
      rw [hdatum] at h
      obtain ⟨made, hmade, h⟩ := bind_eq_ok h
      cases made with
      | none => cases h
      | some value =>
        rw [column_typmod_satisfies h]
        exact construct_satisfies hlaw hmade

mutual

theorem row_law : ∀ t : Ty, RowLaw lib t
  | .scalar _ _ => fun _ _ _ hcolumns => nomatch hcolumns
  | .array _ _ _ => fun _ _ _ hcolumns => nomatch hcolumns
  | .row _ columns => by
    rintro _ args vals ⟨⟩ h
    exact columns_law columns args vals h
  | .domain _ base => fun columns args vals hcolumns h => row_law base columns args vals hcolumns h

theorem columns_law : ∀ (columns : Columns) (args : List (Lua S P)) (vals : List (Option (Value S))),
    column_values lib columns args = .ok vals →
      (columns_satisfy lib columns vals ↔ columns_meet lib (satisfies lib) (makes_accepted lib) columns args)
  | .nil => fun _ _ _ => Iff.rfl
  | .dropped rest => by
    intro args vals h
    obtain ⟨others, hothers, h⟩ := bind_eq_ok h
    cases h
    exact columns_law rest args others hothers
  | .column _ argt rest => by
    intro args vals h
    obtain ⟨val, hval, h⟩ := bind_eq_ok h
    obtain ⟨others, hothers, h⟩ := bind_eq_ok h
    cases h
    exact and_congr (column_satisfies (row_law argt) hval)
      (columns_law rest args.tail others hothers)

end

/-! ## The law -/

variable (lib)

/-- The columns of a row satisfy their domains just if each null and each datum taken as it is
does, and each array or row that is made is one that its domain accepts. -/
theorem row_satisfies_iff (oid : Oid) (columns : Columns) (args : List (Lua S P)) (row : Value S)
    (h : construct_row lib columns args = .ok row) :
    satisfies lib (.row oid columns) (some row) ↔
      args_meet lib (satisfies lib) (makes_accepted lib) columns args := by
  have hlaw : RowLaw lib (.row oid columns) := row_law _
  rw [row_satisfies hlaw rfl h]
  exact and_iff_right rfl

/-- An array or a row that is made is not null. -/
theorem call_by_kind_some {t : Ty} {arg : Lua S P} {v : Option (Value S)}
    (hkind : t.is_array = true ∨ t.is_row = true)
    (h : call_by_kind lib t (row_values lib t) (elemtypeinfo lib t) arg = .ok v) :
    ∃ value, v = some value := by
  unfold call_by_kind at h
  split at h
  · obtain ⟨value, -, rfl⟩ := map_eq_ok h
    exact ⟨value, rfl⟩
  · obtain ⟨value, -, rfl⟩ := map_eq_ok h
    exact ⟨value, rfl⟩
  · rename_i helem hcolumns
    rcases hkind with harray | hrow
    · rw [← @elemtypeinfo_isSome _ _ lib t, helem] at harray
      cases harray
    · rw [Ty.is_row, hcolumns] at hrow
      cases hrow

/-- A domain without constraints accepts whatever is made. -/
theorem unconstrained_accepts {t : Ty} {arg : Lua S P} (hkind : t.is_array = true ∨ t.is_row = true)
    (h : unconstrained lib t arg) : makes_accepted lib t arg := by
  intro v hv
  obtain ⟨value, rfl⟩ := call_by_kind_some lib hkind hv
  exact h value

/-- The columns of a row that was constructed satisfy their domains if every null is one that
its domain accepts, every datum taken as it is satisfies the domain of its column, and no
array or row is made by a constructor for a domain with constraints. Where none is, the first
two are also necessary. -/
theorem a_row_of_fit_arguments_satisfies_its_domains (oid : Oid) (columns : Columns)
    (args : List (Lua S P)) (row : Value S) (h : construct_row lib columns args = .ok row) :
    (args_fit lib columns args → satisfies lib (.row oid columns) (some row)) ∧
    (builds_unconstrained lib columns args →
      (satisfies lib (.row oid columns) (some row) ↔ args_fit lib columns args)) := by
  have hfit : args_fit lib columns args → satisfies lib (.row oid columns) (some row) := by
    intro hargs
    rw [row_satisfies_iff lib oid columns args row h]
    exact args_meet_combine (fun _ _ hsat _ => hsat)
      (fun _ _ hkind hbuilt _ => unconstrained_accepts lib hkind hbuilt) hargs hargs
  refine ⟨hfit, fun hbuilds => ⟨?_, hfit⟩⟩
  rw [row_satisfies_iff lib oid columns args row h]
  exact args_meet_combine (fun _ _ _ hsat => hsat) (fun _ _ _ hbuilt _ => hbuilt) hbuilds

end

/-! ## Two columns -/

/-- The domain 1 is not null. -/
def not_null (oid : Oid) (v : Option (Value Int)) : Bool := oid != 1 || v.isSome

theorem not_null_accepts (v : Value Int) : ∀ t : Ty, domain_accepts not_null t (some v) = true
  | .scalar _ _ => rfl
  | .array _ _ _ => rfl
  | .row _ _ => rfl
  | .domain _ base => by simp [domain_accepts, not_null, not_null_accepts v base]

/-- Integers are input as they are, and one string is. -/
def integers : Backend Int Empty where
  isuserdata p := nomatch p
  is_container _ := false
  integer_keys _ := []
  tointegerx _ := none
  geti _ _ := .error "attempt to index a value"
  getfield p := nomatch p
  transform_tosql _ _ := none
  from_value _
    | .nil => some (.ok none)
    | .integer k => some (.ok (some (.scalar k)))
    | _ => none
  raw_input _ s := if s = "7" then .ok (.scalar 7) else .error "invalid input syntax"
  length_coercion _ _ v := .ok v
  coerce _ _ v := .ok (some v)
  accepts := not_null
  input_checks t _ v _ := not_null_accepts v t

/-- A column whose domain is not null, one of its base type, and one with a domain over the
array type. -/
def three_columns : Columns :=
  .column "a" (.domain 1 (.scalar 23 (-1))) (.column "b" (.scalar 23 (-1))
    (.column "c" (.domain 2 (.array 1007 (-1) (.scalar 23 (-1)))) .nil))

/-- The string goes to the input function, the null has no domain, and the domain of the array
has no constraints. -/
theorem fields_that_are_there_are_checked :
    satisfies integers (.row 100 three_columns)
      (some (.row [some (.scalar 7), none, some (.array [(1, 1)] [some (.scalar 5)])])) := by
  refine (a_row_of_fit_arguments_satisfies_its_domains integers 100 three_columns
    [.table [(.string "a", .string "7"), (.string "c", .table [(.integer 1, .integer 5)])]]
    _ rfl).1 ?_
  rintro _ ⟨⟩
  refine ⟨⟨by simp [Ty.is_array, Ty.is_row, Ty.columns], ?_⟩, trivial,
    ⟨fun _ _ => rfl, ?_⟩, trivial⟩
  · rintro columns args ⟨⟩
  · rintro columns args ⟨⟩

/-- A table without the field: the null goes past the domain. -/
theorem a_missing_field_is_not_checked :
    construct_row integers three_columns [.table [(.string "b", .integer 5)]] =
      .ok (.row [none, some (.scalar 5), none]) ∧
    ¬ satisfies integers (.row 100 three_columns)
      (some (.row [none, some (.scalar 5), none])) := by
  refine ⟨rfl, ?_⟩
  rintro ⟨⟨haccepts, -⟩, -⟩
  cases haccepts

end pllua.constructors
