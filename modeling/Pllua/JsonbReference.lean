-- An instance of the backend: jsonb values are documents in canonical form, and
-- the parse is the builder of documents. It meets what PostgreSQL documents.
import Pllua.JsonbEmit
import Mathlib.Data.List.Lex

open pllua.documents pllua.luavalue

namespace pllua.jsonb

/-! ## The order of keys -/

/-- The keys of an object are ordered by length, then by bytes. -/
def keylt (a b : Bytes) : Bool :=
  decide (a.length < b.length) ||
    (decide (a.length = b.length) && decide (a.map UInt8.toNat < b.map UInt8.toNat))

theorem keylt_iff (a b : Bytes) :
    keylt a b ↔ a.length < b.length ∨
      a.length = b.length ∧ a.map UInt8.toNat < b.map UInt8.toNat := by
  simp [keylt]

theorem keylt_order : StrictOrder keylt where
  irrefl a := by
    rw [Bool.eq_false_iff, Ne, keylt_iff]
    rintro (h | ⟨-, h⟩)
    · exact Nat.lt_irrefl _ h
    · exact lt_irrefl _ h
  trans a c d hac hcd := by
    rw [keylt_iff] at *
    rcases hac with h | ⟨h, hl⟩
    · rcases hcd with h' | ⟨h', -⟩
      · exact Or.inl (h.trans h')
      · exact Or.inl (h' ▸ h)
    · rcases hcd with h' | ⟨h', hl'⟩
      · exact Or.inl (h ▸ h')
      · exact Or.inr ⟨h.trans h', hl.trans hl'⟩
  total a c hne := by
    rw [keylt_iff, keylt_iff]
    rcases Nat.lt_trichotomy a.length c.length with h | h | h
    · exact Or.inl (Or.inl h)
    · rcases lt_trichotomy (a.map UInt8.toNat) (c.map UInt8.toNat) with hl | hl | hl
      · exact Or.inl (Or.inr ⟨h, hl⟩)
      · have hinj : Function.Injective UInt8.toNat := fun _ _ => UInt8.toNat_inj.mp
        exact absurd (List.map_injective_iff.mpr hinj hl) hne
      · exact Or.inr (Or.inr ⟨h.symm, hl⟩)
    · exact Or.inr (Or.inl h)

/-! ## The backend -/

/-- A document that a jsonb can hold. -/
def Storable (d : Json Int) : Prop := d.Canonical keylt ∧ d.all counts_fit

instance (d : Json Int) : Decidable (Storable d) :=
  inferInstanceAs (Decidable (d.all (keysIncrease keylt) = true ∧ d.all counts_fit = true))

/-- A jsonb is its document. -/
abbrev StoredJsonb := { d : Json Int // Storable d }

/-- The scalar of a value, unless it is a container. -/
def scalarValue : JsonbValue Int StoredJsonb → Option (Scalar Int)
  | .jbvNull => some .null
  | .jbvBool boolean => some (.bool boolean)
  | .jbvNumeric numeric => some (.numeric numeric)
  | .jbvString string => some (.string string)
  | .jbvBinary _ => none

def tokenOf : Event Int StoredJsonb → Option (Token Bytes (Scalar Int))
  | (.WJB_BEGIN_ARRAY, _) => some .beginArray
  | (.WJB_END_ARRAY, _) => some .endArray
  | (.WJB_BEGIN_OBJECT, _) => some .beginObject
  | (.WJB_END_OBJECT, _) => some .endObject
  | (.WJB_ELEM, some v) => (scalarValue v).map .elem
  | (.WJB_KEY, some (.jbvString k)) => some (.key k)
  | (.WJB_VALUE, some v) => (scalarValue v).map .value
  | _ => none

theorem tokenOf_event (t : Token Bytes (Scalar Int)) : tokenOf (event t) = some t := by
  cases t <;> first | rfl | (rename_i s; cases s <;> rfl)

/-- A document that is stored, if it can be. -/
def store (d : Json Int) : Except String StoredJsonb :=
  if h : Storable d then .ok ⟨d, h⟩ else .error "invalid jsonb"

/-- The functions over stored documents. Containers inside others are not skipped,
and numbers are integers. -/
def reference : Backend Int StoredJsonb StoredJsonb (List (Open Bytes (Scalar Int))) where
  JB_ROOT_COUNT j := root_count j.1
  JB_ROOT_IS_SCALAR j := root_is_scalar j.1
  JsonbIteratorNext _ j := (iterated j.1).map event
  pstate := [.top none]
  pushJsonbValue p e :=
    match (tokenOf e).bind (build keylt p) with
    | some p' => .ok p'
    | none => .error "unexpected token"
  resultToJsonb p :=
    match p with
    | [.top (some d)] => store d
    | _ => .error "unexpected parse state"
  JsonbValueToJsonb v :=
    match scalarValue v with
    | some s => store (.scalar s)
    | none => .error "unexpected value"
  pg_verifymbstr _ := true
  jsonb_datum j := j
  to_jsonb j := .ok (some j)
  numeric v :=
    match v with
    | .integer i => .ok i
    | _ => .error "invalid number"
  tonumber n := .integer n
  datum_tostring _ := []

theorem reference_push {ts : List (Token Bytes (Scalar Int))}
    {p : List (Open Bytes (Scalar Int))} (p' : List (Open Bytes (Scalar Int)))
    (h : ts.foldlM (build keylt) p = some p') :
    (ts.map event).foldlM reference.pushJsonbValue p = .ok p' := by
  induction ts generalizing p with
  | nil =>
    cases h
    rfl
  | cons t ts ih =>
    rw [List.foldlM_cons] at h
    obtain ⟨q, hq, hts⟩ := Option.bind_eq_some_iff.mp h
    have hpush : reference.pushJsonbValue p (event t) = .ok q := by
      simp [reference, tokenOf_event, hq]
    rw [List.map_cons, List.foldlM_cons, hpush, ok_bind, ih hts]

theorem reference_listing {d : Json Int} (hd : d.Canonical keylt)
    (hs : root_is_scalar d = false) {w : Scalar Int → Token Bytes (Scalar Int)}
    {ts : List (Token Bytes (Scalar Int))} (hl : Listing w d ts) :
    (ts.map event).foldlM reference.pushJsonbValue reference.pstate = .ok [.top (some d)] := by
  apply reference_push
  refine build_listing keylt_order hd [] ?_ rfl hl
  intro s h
  rw [h] at hs
  cases hs

theorem all_verified (d : Json Int) : d.all (verified fun _ => true) := by
  induction d using Doc.induct with
  | scalar s => cases s <;> rfl
  | array xs ih => exact (all_array _ xs).mpr ⟨rfl, ih⟩
  | object ms ih =>
    refine (all_object _ ms).mpr ⟨?_, ih⟩
    rw [verified, List.all_eq_true]
    exact fun _ _ => rfl

/-- The instance keeps what PostgreSQL documents. -/
theorem reference_documented : Documented reference keylt Subtype.val where
  order := keylt_order
  canonical j := j.2.1
  counts j := j.2.2
  encoding j := all_verified j.1
  count _ := rfl
  is_scalar _ := rfl
  iterator _ := rfl
  push j w ts hs hl := ⟨_, j, reference_listing j.2.1 hs hl, dif_pos j.2⟩
  pushed d w ts p j' hd hs hl hp hj' := by
    rw [reference_listing hd hs hl] at hp
    cases hp
    simp only [reference, store] at hj'
    split at hj'
    · cases hj'
      rfl
    · cases hj'
  scalar j s hj := by
    refine ⟨j, ?_, rfl⟩
    have hs : scalarValue s.toJsonbValue = some s := by cases s <;> rfl
    simp only [reference, hs]
    rw [← hj]
    exact dif_pos j.2

/-- A library of Lua whose `lua_next` takes the fields in the order they were set. -/
def insertionorder : LuaLib Int StoredJsonb where
  stringtointeger _ := none
  float_tostring _ := []
  l_strcmp_lt a c := decide (a < c)
  lua_next v := v.fields.map Prod.fst

theorem insertionorder_traverses : Traverses insertionorder := fun _ _ _ => List.Perm.refl _

end pllua.jsonb
