-- The elements of an array by subscript, in one step or through references to its slices. The
-- subscripts are Lua integers, which the code keeps in C ints; a nil that is assigned goes
-- through the constructor of the element type; and no assignment through a slice succeeds.
import Mathlib.Logic.Relation
import Pllua.ArrayTables

open pllua.constructors pllua.arraymap pllua.arraytables

namespace pllua.arrayelements

/-! ## The functions of PostgreSQL -/

/-- There is an element at the subscripts. -/
def Within : Bounds → List Int → Prop
  | [], [] => True
  | (d, lb) :: b, k :: idx => lb ≤ k ∧ k < lb + d ∧ Within b idx
  | _, _ => False

/-- The arrays, and the contracts of `array_get_element` and `array_set_element`. -/
structure ArrayFns (A V : Type) where
  bounds : A → Bounds
  array_get_element : A → List Int → Option V
  array_set_element : A → List Int → Option V → Except String A
  /-- outside of the bounds, and with another number of subscripts, there is null -/
  get_outside : ∀ a idx, ¬ Within (bounds a) idx → array_get_element a idx = none
  get_set : ∀ a idx v a', array_set_element a idx v = .ok a' → array_get_element a' idx = v
  get_set_other : ∀ a idx v a' idx', array_set_element a idx v = .ok a' → idx' ≠ idx →
    array_get_element a' idx' = array_get_element a idx'
  /-- only an empty array gets its number of dimensions from an assignment -/
  set_ndims : ∀ a idx v a', array_set_element a idx v = .ok a' →
    (bounds a').length = idx.length ∧
      ((bounds a).length = 0 ∨ idx.length = (bounds a).length)

/-- `struct idxlist`: `cur_dim` is the number of the subscripts so far. -/
structure IdxList where
  ndim : Nat
  idx : List Int

/-- What an index gives. -/
inductive Indexed (S P : Type)
  | value (v : Lua S P)
  | slice (l : IdxList)

/-- The array itself, or a slice of it. -/
inductive Ref
  | datum
  | slice (l : IdxList)

section
variable {A S P : Type} (fns : ArrayFns A (Value S)) (lib : Backend S P)
  (single : Value S → Lua S P) (et : Ty)

def ndims (a : A) : Nat := (fns.bounds a).length

/-! ## The metamethods -/

/-- `pllua_datum_array_index` with an integer. -/
def pllua_datum_array_index (a : A) (k : Int) : Indexed S P :=
  if ndims fns a > 1 then .slice ⟨ndims fns a, [c_int k]⟩
  else .value (lua_element single (fns.array_get_element a [c_int k]))

/-- `pllua_datum_array_index` with the subscripts of a slice. -/
def pllua_datum_array_index_list (a : A) (l : IdxList) : Except String (Indexed S P) :=
  if l.ndim ≠ ndims fns a ∨ l.idx.length ≠ ndims fns a then .error "wrong idxlist"
  else .ok (.value (lua_element single (fns.array_get_element a l.idx)))

/-- A copy of the subscripts, with one more: `pllua_datum_array_make_idxlist`. -/
def IdxList.push (l : IdxList) (k : Int) : IdxList := { l with idx := l.idx ++ [c_int k] }

def pllua_datum_idxlist_index (a : A) (l : IdxList) (k : Int) : Except String (Indexed S P) :=
  if (l.push k).idx.length ≥ (l.push k).ndim then
    pllua_datum_array_index_list fns single a (l.push k)
  else .ok (.slice (l.push k))

/-- `pllua_datum_array_newindex`, once the key is a list of subscripts. -/
def pllua_datum_array_newindex (a : A) (idx : List Int) (x : Lua S P) : Except String A := do
  if idx.length < ndims fns a then throw "not enough subscripts for array"
  if idx.length > ndims fns a ∧ ndims fns a > 0 then throw "too many subscripts for array"
  let v ← constructors.construct lib et x
  fns.array_set_element a idx v

/-- `lua_settable` finds the new list below the value and below it the new list again: it
assigns the value to the new list, with the list itself for a subscript. This function is called
again, and `luaL_checkinteger` raises. -/
def pllua_datum_idxlist_newindex (l : IdxList) (k : Int) : Except String A :=
  if (l.push k).idx.length ≠ (l.push k).ndim then
    .error s!"incorrect number of dimensions in array assignment (expected {(l.push k).ndim} got {(l.push k).idx.length})"
  else .error "bad argument #2 (number expected, got userdata)"

/-! ## Chained subscripts -/

/-- `r[k]` -/
def index_one (a : A) (r : Ref) (k : Int) : Except String (Indexed S P) :=
  match r with
  | .datum => .ok (pllua_datum_array_index fns single a k)
  | .slice l => pllua_datum_idxlist_index fns single a l k

/-- `r[k1]...[kn]` -/
def index (a : A) (r : Ref) : List Int → Except String (Indexed S P)
  | [] => .error "missing subscript"
  | [k] => index_one fns single a r k
  | k :: ks => do
    match ← index_one fns single a r k with
    | .slice l => index a (.slice l) ks
    | .value _ => .error "attempt to index a value"

/-- `r[k1]...[kn] = x` -/
def assign (a : A) (r : Ref) (x : Lua S P) : List Int → Except String A
  | [] => .error "missing subscript"
  | [k] =>
    match r with
    | .datum => pllua_datum_array_newindex fns lib et a [c_int k] x
    | .slice l => pllua_datum_idxlist_newindex l k
  | k :: ks => do
    match ← index_one fns single a r k with
    | .slice l => assign a (.slice l) x ks
    | .value _ => .error "attempt to index a value"

/-! ## The laws -/

/-- A later state of the same array. -/
def Later : A → A → Prop :=
  Relation.ReflTransGen fun a a' => ∃ idx v, fns.array_set_element a idx v = .ok a'

/-- The reference was got by the subscripts `pre`, from this state of the array or an earlier
one. -/
def Captured (a : A) : List Int → Ref → Prop
  | [], r => r = .datum
  | pre, r => ∃ a₀ l, Later fns a₀ a ∧ index fns single a₀ .datum pre = .ok (.slice l) ∧
      r = .slice l

/-- The subscript is a C int. -/
def InRange (k : Int) : Prop := -2147483648 ≤ k ∧ k < 2147483648

/-- An assignment through the reference gives the array `a'`. -/
structure SetGet (a : A) (r : Ref) (path ks : List Int) (x : Lua S P) (a' : A) : Prop where
  reads_back : ∃ v, (if x.isnil then v = none else constructors.construct lib et x = .ok v) ∧
    index fns single a' r ks = .ok (.value (lua_element single v))
  others : ∀ other : List Int, other.length = path.length → (∀ k ∈ other, InRange k) →
    other ≠ path → index fns single a' .datum other = index fns single a .datum other
  between : ∀ other : List Int, other.length = path.length → (∀ k ∈ other, InRange k) →
    other ≠ path → ¬ Within (fns.bounds a) other →
      index fns single a' .datum other = .ok (.value .nil)

/-- With a subscript that is no C int: the read gives null, and the assignment leaves the
element alone that stands at the truncated subscripts. -/
structure Untouched (a : A) (r : Ref) (path ks : List Int) (x : Lua S P) : Prop where
  reads_null : (∃ e, index fns single a r ks = .error e) ∨
    index fns single a r ks = .ok (.value .nil)
  unchanged : ∀ a', assign fns lib single et a r x ks = .ok a' →
    index fns single a' .datum (path.map c_int) = index fns single a .datum (path.map c_int)

/-- The laws for the subscripts `ks` of the reference, which stands for `path` in all. -/
def GetSetLaws (a : A) (r : Ref) (path ks : List Int) (x : Lua S P) : Prop :=
  ((∀ k ∈ path, InRange k) → ∀ a', assign fns lib single et a r x ks = .ok a' →
    SetGet fns lib single et a r path ks x a') ∧
  (¬ (∀ k ∈ path, InRange k) → Untouched fns lib single et a r path ks x)

/-- The assignment raises no error. -/
def Accepted (a : A) (r : Ref) (ks : List Int) (x : Lua S P) : Prop :=
  ∃ a', assign fns lib single et a r x ks = .ok a'

/-! ## References -/

variable {fns lib single et}

theorem c_int_of_range {k : Int} (h : InRange k) : c_int k = k := by
  obtain ⟨hlow, hhigh⟩ := h
  rw [c_int]
  exact Int.bmod_eq_of_le_mul_two (by omega) (by omega)

theorem c_int_c_int (k : Int) : c_int (c_int k) = c_int k := Int.bmod_bmod

theorem map_c_int_of_range {path : List Int} (h : ∀ k ∈ path, InRange k) :
    path.map c_int = path := by
  rw [List.map_congr_left fun k hk => c_int_of_range (h k hk), List.map_id']

/-- The subscripts that the reference stands for. -/
def Ref.idx : Ref → List Int
  | .datum => []
  | .slice l => l.idx

/-- The reference fits the array. -/
def Valid (fns : ArrayFns A (Value S)) (a : A) : Ref → Prop
  | .datum => True
  | .slice l => l.ndim = ndims fns a ∧ 0 < l.idx.length ∧ l.idx.length < ndims fns a

theorem push_length (l : IdxList) (k : Int) : (l.push k).idx.length = l.idx.length + 1 := by
  simp [IdxList.push]

variable (single) in
/-- One more subscript, but not the last one. -/
theorem index_one_slice {a : A} {r : Ref} (k : Int) (hvalid : Valid fns a r)
    (hmore : r.idx.length + 1 < ndims fns a) :
    ∃ l, index_one fns single a r k = .ok (.slice l) ∧ Valid fns a (.slice l) ∧
      l.idx = r.idx ++ [c_int k] := by
  cases r with
  | datum =>
    have hgt : ndims fns a > 1 := by simpa [Ref.idx] using hmore
    refine ⟨⟨ndims fns a, [c_int k]⟩, ?_, ⟨rfl, Nat.one_pos, hgt⟩, rfl⟩
    rw [index_one, pllua_datum_array_index, if_pos hgt]
  | slice l =>
    obtain ⟨hndim, hpos, hlt⟩ := hvalid
    have hlength := push_length l k
    have hless : ¬ (l.push k).idx.length ≥ (l.push k).ndim := by
      rw [hlength, Nat.not_le]
      exact hndim ▸ hmore
    refine ⟨l.push k, ?_, ⟨hndim, ?_, ?_⟩, rfl⟩
    · rw [index_one, pllua_datum_idxlist_index, if_neg hless]
    · rw [hlength]
      exact Nat.succ_pos _
    · rw [hlength]
      exact hmore

/-- The last subscript. -/
theorem index_one_value {a : A} {r : Ref} {k : Int} (hvalid : Valid fns a r)
    (hlast : r.idx.length + 1 = max 1 (ndims fns a)) :
    index_one fns single a r k =
      .ok (.value (lua_element single (fns.array_get_element a (r.idx ++ [c_int k])))) := by
  cases r with
  | datum =>
    have hle : ¬ ndims fns a > 1 := by
      simp only [Ref.idx, List.length_nil] at hlast
      omega
    rw [index_one, pllua_datum_array_index, if_neg hle]
    rfl
  | slice l =>
    obtain ⟨hndim, hpos, hlt⟩ := hvalid
    have hlength : (l.push k).idx.length = ndims fns a := by
      rw [push_length]
      simp only [Ref.idx] at hlast
      omega
    have hge : (l.push k).idx.length ≥ (l.push k).ndim := Nat.le_of_eq (hndim.trans hlength.symm)
    have hfits : ¬ ((l.push k).ndim ≠ ndims fns a ∨ (l.push k).idx.length ≠ ndims fns a) := by
      rintro (h | h)
      · exact h hndim
      · exact h hlength
    rw [index_one, pllua_datum_idxlist_index, if_pos hge, pllua_datum_array_index_list,
      if_neg hfits]
    rfl

/-- The element at all the subscripts, each in a C int. -/
theorem index_value {a : A} {r : Ref} {ks : List Int} (hvalid : Valid fns a r) (hne : ks ≠ [])
    (hlength : r.idx.length + ks.length = max 1 (ndims fns a)) :
    index fns single a r ks =
      .ok (.value (lua_element single (fns.array_get_element a (r.idx ++ ks.map c_int)))) := by
  induction ks generalizing r with
  | nil => exact absurd rfl hne
  | cons k ks ih =>
    cases ks with
    | nil => exact index_one_value hvalid hlength
    | cons k' ks =>
      simp only [List.length_cons] at hlength
      obtain ⟨l, hl, hvalid', hidx⟩ := index_one_slice single k hvalid (by omega)
      have hlength' : (Ref.slice l).idx.length + (k' :: ks).length = max 1 (ndims fns a) := by
        rw [Ref.idx, hidx, List.length_append, List.length_singleton, List.length_cons]
        omega
      rw [index, hl]
      · have hnext := ih hvalid' (List.cons_ne_nil k' ks) hlength'
        rw [Ref.idx, hidx, List.append_assoc] at hnext
        exact hnext
      · exact fun h => nomatch h

theorem idxlist_newindex_ne_ok (l : IdxList) (k : Int) (a' : A) :
    pllua_datum_idxlist_newindex l k ≠ .ok a' := by
  unfold pllua_datum_idxlist_newindex
  split <;> exact fun h => nomatch h

/-- No assignment through a slice succeeds. -/
theorem assign_slice {a a' : A} {l : IdxList} {ks : List Int} {x : Lua S P} :
    assign fns lib single et a (.slice l) x ks ≠ .ok a' := by
  induction ks generalizing l with
  | nil => exact fun h => nomatch h
  | cons k ks ih =>
    cases ks with
    | nil => exact idxlist_newindex_ne_ok l k a'
    | cons k' ks =>
      intro h
      obtain ⟨one, -, h⟩ := bind_eq_ok h
      cases one with
      | slice l' => exact ih h
      | value v => cases h

/-- An assignment that succeeds has one subscript and stores the converted value there. -/
theorem assign_datum {a a' : A} {r : Ref} {ks : List Int} {x : Lua S P}
    (h : assign fns lib single et a r x ks = .ok a') :
    r = .datum ∧ ∃ k v, ks = [k] ∧ constructors.construct lib et x = .ok v ∧
      fns.array_set_element a [c_int k] v = .ok a' := by
  cases r with
  | slice l => exact absurd h assign_slice
  | datum =>
    refine ⟨rfl, ?_⟩
    match ks, h with
    | [k], h =>
      rw [assign, pllua_datum_array_newindex] at h
      split at h
      · cases h
      split at h
      · cases h
      obtain ⟨v, hv, hset⟩ := bind_eq_ok h
      exact ⟨k, v, rfl, hv, hset⟩
    | k :: k' :: ks, h =>
      obtain ⟨one, -, h⟩ := bind_eq_ok h
      cases one with
      | slice l => exact absurd h assign_slice
      | value v => cases h

/-- Where one more subscript gives a slice, the array has more dimensions still. -/
theorem slice_of_index_one {a : A} {r : Ref} {k : Int} {l : IdxList} (hvalid : Valid fns a r)
    (h : index_one fns single a r k = .ok (.slice l)) :
    Valid fns a (.slice l) ∧ l.idx = r.idx ++ [c_int k] := by
  have hmore : r.idx.length + 1 < ndims fns a := by
    rcases Nat.lt_or_ge (r.idx.length + 1) (ndims fns a) with hlt | hge
    · exact hlt
    · have hlast : r.idx.length + 1 = max 1 (ndims fns a) := by
        cases r with
        | datum =>
          simp only [Ref.idx, List.length_nil] at hge ⊢
          omega
        | slice l =>
          have hlt := hvalid.2.2
          simp only [Ref.idx] at hge ⊢
          omega
      rw [index_one_value hvalid hlast] at h
      cases h
  obtain ⟨l', hl', hvalid', hidx⟩ := index_one_slice single k hvalid hmore
  rw [h] at hl'
  cases hl'
  exact ⟨hvalid', hidx⟩

theorem slice_of_index {a : A} {r : Ref} {ks : List Int} {l : IdxList} (hvalid : Valid fns a r)
    (h : index fns single a r ks = .ok (.slice l)) :
    Valid fns a (.slice l) ∧ l.idx = r.idx ++ ks.map c_int := by
  induction ks generalizing r with
  | nil => cases h
  | cons k ks ih =>
    cases ks with
    | nil => exact slice_of_index_one hvalid h
    | cons k' ks =>
      obtain ⟨one, hone, h⟩ := bind_eq_ok h
      cases one with
      | value v => cases h
      | slice l' =>
        obtain ⟨hvalid', hidx⟩ := slice_of_index_one hvalid hone
        obtain ⟨hslice, hl⟩ := ih hvalid' h
        refine ⟨hslice, ?_⟩
        rw [hl, Ref.idx, hidx, List.append_assoc]
        rfl

theorem later_ndims {a a' : A} (h : Later fns a a') (hpos : ndims fns a ≠ 0) :
    ndims fns a' = ndims fns a := by
  induction h with
  | refl => rfl
  | tail _ hstep ih =>
    obtain ⟨idx, v, hset⟩ := hstep
    obtain ⟨hlength, hsame⟩ := fns.set_ndims _ _ _ _ hset
    rcases hsame with hzero | hsame
    · exact absurd (ih.symm.trans hzero) hpos
    · exact hlength.trans (hsame.trans ih)

/-- A reference stays valid, whatever is assigned. -/
theorem captured_valid {a : A} {pre : List Int} {r : Ref} (h : Captured fns single a pre r) :
    Valid fns a r ∧ r.idx = pre.map c_int := by
  cases pre with
  | nil =>
    cases h
    exact ⟨trivial, rfl⟩
  | cons k pre =>
    obtain ⟨a₀, l, hlater, hindex, rfl⟩ := h
    obtain ⟨⟨hndim, hpos, hlt⟩, hidx⟩ := slice_of_index (r := .datum) trivial hindex
    have hsame := later_ndims hlater (Nat.ne_of_gt (Nat.lt_of_le_of_lt (Nat.zero_le _) hlt))
    refine ⟨⟨hndim.trans hsame.symm, hpos, ?_⟩, hidx⟩
    rw [hsame]
    exact hlt

theorem captured_later {a a' : A} {pre : List Int} {r : Ref} (h : Captured fns single a pre r)
    {idx : List Int} {v : Option (Value S)} (hset : fns.array_set_element a idx v = .ok a') :
    Captured fns single a' pre r := by
  cases pre with
  | nil => exact h
  | cons k pre =>
    obtain ⟨a₀, l, hlater, hindex, rfl⟩ := h
    exact ⟨a₀, l, hlater.tail ⟨idx, v, hset⟩, hindex, rfl⟩

/-! ## The laws of one assignment -/

theorem lua_element_eq_nil (hsingle : ∀ v, single v ≠ .nil) (v : Option (Value S)) :
    lua_element single v = .nil ↔ v = none := by
  cases v with
  | none => exact iff_of_true rfl rfl
  | some v => exact iff_of_false (hsingle v) (fun h => nomatch h)

section
variable {a : A} {pre ks : List Int} {r : Ref} {x : Lua S P}

/-- An accepted assignment converts the value, and stores it at the truncated subscripts. -/
theorem assign_ok (hcaptured : Captured fns single a pre r)
    (hlength : (pre ++ ks).length = max 1 (ndims fns a)) {a' : A}
    (h : assign fns lib single et a r x ks = .ok a') :
    ∃ v, constructors.construct lib et x = .ok v ∧
      fns.array_set_element a ((pre ++ ks).map c_int) v = .ok a' ∧
      max 1 (ndims fns a') = max 1 (ndims fns a) := by
  obtain ⟨rfl, k, v, rfl, hv, hset⟩ := assign_datum h
  obtain rfl : pre = [] := List.map_eq_nil_iff.mp (captured_valid hcaptured).2.symm
  refine ⟨v, hv, hset, ?_⟩
  rw [ndims, (fns.set_ndims _ _ _ _ hset).1, ← hlength]
  rfl

theorem index_captured (hcaptured : Captured fns single a pre r) (hne : ks ≠ [])
    (hlength : (pre ++ ks).length = max 1 (ndims fns a)) :
    index fns single a r ks =
      .ok (.value (lua_element single (fns.array_get_element a ((pre ++ ks).map c_int)))) := by
  obtain ⟨hvalid, hidx⟩ := captured_valid hcaptured
  rw [index_value hvalid hne (by rw [hidx, List.length_map, ← List.length_append, hlength]), hidx,
    List.map_append]

/-- Read from the array itself. -/
theorem index_datum {path : List Int} (hlength : path.length = max 1 (ndims fns a)) :
    index (P := P) fns single a .datum path =
      .ok (.value (lua_element single (fns.array_get_element a (path.map c_int)))) := by
  refine index_value (r := .datum) trivial ?_ ((Nat.zero_add _).trans hlength)
  rintro rfl
  rw [List.length_nil] at hlength
  omega

/-- With subscripts in the range of a C int. -/
theorem set_get_iff (laws : NilLaws lib) (hsingle : ∀ v, single v ≠ .nil)
    (hcaptured : Captured fns single a pre r) (hne : ks ≠ [])
    (hlength : (pre ++ ks).length = max 1 (ndims fns a)) (hrange : ∀ k ∈ pre ++ ks, InRange k)
    {a' : A} (h : assign fns lib single et a r x ks = .ok a') :
    SetGet fns lib single et a r (pre ++ ks) ks x a' ↔
      (x.isnil = true → collects et = false) := by
  obtain ⟨v, hv, hset, hndims⟩ := assign_ok hcaptured hlength h
  have hread := index_captured (captured_later hcaptured hset) hne (hlength.trans hndims.symm)
  rw [fns.get_set _ _ _ _ hset] at hread
  rw [map_c_int_of_range hrange] at hset
  constructor
  · rintro ⟨⟨w, hw, hback⟩, -, -⟩ hnil
    rw [if_pos hnil] at hw
    rw [hread, hw] at hback
    have hv' : v = none := by
      rw [← lua_element_eq_nil hsingle]
      injection hback with hback
      injection hback
    cases x with
    | nil =>
      rw [hv'] at hv
      rw [Bool.eq_false_iff]
      exact fun hcollects => collection_nil hcollects hv rfl
    | _ => cases hnil
  · intro hscalar
    have hother : ∀ other : List Int, other.length = (pre ++ ks).length →
        (∀ k ∈ other, InRange k) → other ≠ pre ++ ks →
          index fns single a' .datum other = index fns single a .datum other := by
      intro other hlen hin hdiff
      rw [index_datum (hlen.trans (hlength.trans hndims.symm)), index_datum (hlen.trans hlength),
        map_c_int_of_range hin, fns.get_set_other _ _ _ _ _ hset hdiff]
    refine ⟨⟨v, ?_, hread⟩, hother, ?_⟩
    · by_cases hnil : x.isnil = true
      · rw [if_pos hnil]
        cases x with
        | nil => exact scalar_nil_eq laws (hscalar rfl) hv
        | _ => cases hnil
      · rw [if_neg hnil]
        exact hv
    · intro other hlen hin hdiff hout
      rw [hother other hlen hin hdiff, index_datum (hlen.trans hlength), map_c_int_of_range hin,
        fns.get_outside _ _ hout]
      rfl

/-- With a subscript that is no C int. -/
theorem untouched_iff (hsingle : ∀ v, single v ≠ .nil) (hcaptured : Captured fns single a pre r)
    (hne : ks ≠ []) (hlength : (pre ++ ks).length = max 1 (ndims fns a)) :
    Untouched fns lib single et a r (pre ++ ks) ks x ↔
      fns.array_get_element a ((pre ++ ks).map c_int) = none ∧
        (Accepted fns lib single et a r ks x → constructors.construct lib et x = .ok none) := by
  have hpath : ((pre ++ ks).map c_int).map c_int = (pre ++ ks).map c_int := by
    rw [List.map_map]
    exact List.map_congr_left fun k _ => c_int_c_int k
  have hlength' : ((pre ++ ks).map c_int).length = max 1 (ndims fns a) := by
    rw [List.length_map, hlength]
  have hread := index_captured hcaptured hne hlength
  constructor
  · rintro ⟨hnull, hsame⟩
    have hget : fns.array_get_element a ((pre ++ ks).map c_int) = none := by
      rcases hnull with ⟨e, he⟩ | hnull
      · rw [hread] at he
        cases he
      · rw [hread] at hnull
        rw [← lua_element_eq_nil hsingle]
        injection hnull with hnull
        injection hnull
    refine ⟨hget, ?_⟩
    rintro ⟨a', ha'⟩
    obtain ⟨v, hv, hset, hndims⟩ := assign_ok hcaptured hlength ha'
    have hunchanged := hsame a' ha'
    rw [index_datum (hlength'.trans hndims.symm), index_datum hlength', hpath,
      fns.get_set _ _ _ _ hset, hget] at hunchanged
    have hnone : v = none := by
      rw [← lua_element_eq_nil hsingle]
      injection hunchanged with hunchanged
      injection hunchanged
    rw [hv, hnone]
  · rintro ⟨hget, hnull⟩
    refine ⟨Or.inr ?_, ?_⟩
    · rw [hread, hget]
      rfl
    · intro a' ha'
      obtain ⟨v, hv, hset, hndims⟩ := assign_ok hcaptured hlength ha'
      have hnone := hnull ⟨a', ha'⟩
      rw [hv] at hnone
      cases hnone
      rw [index_datum (hlength'.trans hndims.symm), index_datum hlength', hpath,
        fns.get_set _ _ _ _ hset, hget]

end

variable (fns lib single et)

/-- An assignment is read back and changes nothing else, and a subscript that is no C int meets
no element: just if, with subscripts that are C ints, no nil is assigned to an element that is a
row or an array; and with others there is null at the truncated subscripts, and null is
assigned. -/
theorem the_get_set_laws_hold_iff (laws : NilLaws lib) (hsingle : ∀ v, single v ≠ .nil) (a : A)
    (pre ks : List Int) (r : Ref) (hcaptured : Captured fns single a pre r) (hne : ks ≠ [])
    (hlength : (pre ++ ks).length = max 1 (ndims fns a)) (x : Lua S P) :
    GetSetLaws fns lib single et a r (pre ++ ks) ks x ↔
      ((∀ k ∈ pre ++ ks, InRange k) → Accepted fns lib single et a r ks x → x.isnil = true →
        collects et = false) ∧
      (¬ (∀ k ∈ pre ++ ks, InRange k) →
        fns.array_get_element a ((pre ++ ks).map c_int) = none ∧
          (Accepted fns lib single et a r ks x → constructors.construct lib et x = .ok none)) := by
  refine and_congr (imp_congr_right fun hrange => ?_) (imp_congr_right fun _ =>
    untouched_iff hsingle hcaptured hne hlength)
  constructor
  · rintro hlaws ⟨a', ha'⟩
    exact (set_get_iff laws hsingle hcaptured hne hlength hrange ha').mp (hlaws a' ha')
  · intro hnil a' ha'
    exact (set_get_iff laws hsingle hcaptured hne hlength hrange ha').mpr
      (hnil ⟨a', ha'⟩)

end

/-! ## Arrays with these contracts -/

instance decidableWithin : ∀ (b : Bounds) (idx : List Int), Decidable (Within b idx)
  | [], [] => isTrue trivial
  | (d, lb) :: b, k :: idx =>
    have := decidableWithin b idx
    inferInstanceAs (Decidable (lb ≤ k ∧ k < lb + d ∧ Within b idx))
  | [], _ :: _ => isFalse id
  | _ :: _, [] => isFalse id

structure PgArray (V : Type) where
  bounds : Bounds
  item : List Int → Option V

def PgArray.get {V : Type} (a : PgArray V) (idx : List Int) : Option V :=
  if idx ≠ [] ∧ Within a.bounds idx then a.item idx else none

/-- The bounds after an assignment: an array of one dimension is extended. -/
def extended : Bounds → List Int → Option Bounds
  | [], idx => if idx = [] then none else some (idx.map fun k => (1, k))
  | [(d, lb)], [k] =>
    let low := min lb k
    let size := (max (lb + d) (k + 1) - low).toNat
    if size > maxelem then none else some [(size, low)]
  | b, idx => if Within b idx then some b else none

def PgArray.set {V : Type} (a : PgArray V) (idx : List Int) (v : Option V) :
    Except String (PgArray V) :=
  match extended a.bounds idx with
  | none => .error "array subscript out of range"
  | some b => .ok ⟨b, fun i => if i = idx then v else a.get i⟩

theorem within_ones (idx : List Int) : Within (idx.map fun k => (1, k)) idx := by
  induction idx with
  | nil => trivial
  | cons k idx ih => exact ⟨Int.le_refl k, Int.lt_add_of_pos_right k Int.one_pos, ih⟩

theorem within_length {b : Bounds} {idx : List Int} (h : Within b idx) : idx.length = b.length := by
  induction b generalizing idx with
  | nil =>
    cases idx with
    | nil => rfl
    | cons k idx => exact h.elim
  | cons bound b ih =>
    cases idx with
    | nil => exact h.elim
    | cons k idx => exact congrArg Nat.succ (ih h.2.2)

/-- The new bounds: the subscripts are within them, as are all that were before. -/
theorem extended_within {b b' : Bounds} {idx : List Int} (h : extended b idx = some b') :
    idx ≠ [] ∧ Within b' idx ∧ b'.length = idx.length ∧ (b.length = 0 ∨ idx.length = b.length) ∧
      ∀ other, other ≠ [] → Within b other → Within b' other := by
  unfold extended at h
  split at h
  · split at h
    · cases h
    · rename_i hne
      cases h
      refine ⟨hne, within_ones _, List.length_map _, Or.inl rfl, ?_⟩
      intro other hother hwithin
      exact absurd (List.length_eq_zero_iff.mp (within_length hwithin)) hother
  · rename_i d lb k
    simp only at h
    split at h
    · cases h
    · cases h
      refine ⟨List.cons_ne_nil _ _, ⟨by omega, by omega, trivial⟩, rfl, Or.inr rfl, ?_⟩
      intro other _ hwithin
      match other, hwithin with
      | [l], ⟨hlow, hhigh, _⟩ => exact ⟨by omega, by omega, trivial⟩
      | [], hwithin => exact hwithin.elim
      | _ :: _ :: _, hwithin => exact hwithin.2.2.elim
  · rename_i hempty _
    split at h
    · rename_i hwithin
      cases h
      have hlength := within_length hwithin
      refine ⟨?_, hwithin, hlength.symm, Or.inr hlength, fun _ _ hother => hother⟩
      rintro rfl
      exact hempty (List.length_eq_zero_iff.mp hlength.symm)
    · cases h

theorem PgArray.set_ok {V : Type} {a a' : PgArray V} {idx : List Int} {v : Option V}
    (h : a.set idx v = .ok a') :
    ∃ b, extended a.bounds idx = some b ∧ a' = ⟨b, fun i => if i = idx then v else a.get i⟩ := by
  unfold PgArray.set at h
  cases hb : extended a.bounds idx with
  | none =>
    rw [hb] at h
    cases h
  | some b =>
    rw [hb] at h
    cases h
    exact ⟨b, rfl, rfl⟩

/-- They are met by arrays of items. -/
def pgarrays (V : Type) : ArrayFns (PgArray V) V where
  bounds := PgArray.bounds
  array_get_element := PgArray.get
  array_set_element := PgArray.set
  get_outside a idx h := if_neg fun hin => h hin.2
  get_set a idx v a' h := by
    obtain ⟨b, hb, rfl⟩ := PgArray.set_ok h
    obtain ⟨hne, hwithin, -⟩ := extended_within hb
    rw [PgArray.get, if_pos ⟨hne, hwithin⟩]
    exact if_pos rfl
  get_set_other a idx v a' idx' h hdiff := by
    obtain ⟨b, hb, rfl⟩ := PgArray.set_ok h
    obtain ⟨-, -, -, -, hmore⟩ := extended_within hb
    have hitem : (if idx' = idx then v else a.get idx') = a.get idx' := if_neg hdiff
    rw [PgArray.get]
    simp only [hitem]
    by_cases hin : idx' ≠ [] ∧ Within a.bounds idx'
    · rw [if_pos ⟨hin.1, hmore idx' hin.1 hin.2⟩]
    · rw [PgArray.get, if_neg hin, ite_self]
  set_ndims a idx v a' h := by
    obtain ⟨b, hb, rfl⟩ := PgArray.set_ok h
    obtain ⟨-, -, hlength, hsame, -⟩ := extended_within hb
    exact ⟨hlength, hsame⟩

/-! ## An array of two integers -/

def two_integers : PgArray (Value Int) :=
  ⟨[(2, 1)], fun idx => if idx = [1] then some (.scalar 10) else some (.scalar 20)⟩

/-- A value as Lua sees it: an integer, or a row. -/
def lua_value : Value Int → Lua Int Empty
  | .scalar k => .integer k
  | v => .datum one_column v

theorem lua_value_ne_nil (v : Value Int) : lua_value v ≠ .nil := by
  cases v with
  | scalar k => exact fun h => nomatch h
  | array bounds elems => exact fun h => nomatch h
  | row cols => exact fun h => nomatch h

theorem a_third_integer_meets_the_laws :
    GetSetLaws (pgarrays _) integers lua_value (.scalar 23 (-1)) two_integers .datum [5] [5]
        (.integer 7) ↔
      ((∀ k ∈ [5], InRange k) → Accepted (pgarrays _) integers lua_value (.scalar 23 (-1))
        two_integers .datum [5] (.integer 7) → Lua.isnil (.integer 7 : Lua Int Empty) = true →
          collects (.scalar 23 (-1)) = false) ∧
      (¬ (∀ k ∈ [5], InRange k) →
        (pgarrays _).array_get_element two_integers ([5].map c_int) = none ∧
          (Accepted (pgarrays _) integers lua_value (.scalar 23 (-1)) two_integers .datum [5]
            (.integer 7) → construct integers (.scalar 23 (-1)) (.integer 7) = .ok none)) :=
  the_get_set_laws_hold_iff (pgarrays _) integers lua_value (.scalar 23 (-1)) integers_nil
    lua_value_ne_nil two_integers [] [5] .datum rfl (by decide) rfl (.integer 7)

/-- The subscript 2³² + 1 reads the element 1. -/
theorem a_large_subscript_meets_an_element :
    index (pgarrays _) lua_value two_integers .datum [4294967297] =
      .ok (.value (.integer 10 : Lua Int Empty)) ∧
    ¬ GetSetLaws (pgarrays _) integers lua_value (.scalar 23 (-1)) two_integers .datum
      [4294967297] [4294967297] (.integer 7) := by
  have hread : index (pgarrays _) lua_value two_integers .datum [4294967297] =
      .ok (.value (.integer 10 : Lua Int Empty)) := rfl
  refine ⟨hread, ?_⟩
  rintro ⟨-, hout⟩
  have hrange : ¬ ∀ k ∈ [(4294967297 : Int)], InRange k := by
    intro hall
    have hlt := (hall 4294967297 List.mem_cons_self).2
    omega
  rcases (hout hrange).reads_null with ⟨e, he⟩ | hnull
  · rw [hread] at he
    cases he
  · rw [hread] at hnull
    cases hnull

end pllua.arrayelements
