-- Loops over an array with pairs (datum.c), one inside the other for the dimensions. A loop takes
-- its bounds when it begins, and reads each element when it comes to it. A read that raises an
-- error (no memory, a transform that fails) is left out.
import Pllua.ArrayElements

open pllua.constructors pllua.rowmajor pllua.arraymap pllua.arraytables pllua.arrayelements

namespace pllua.arraypairs

section
variable {A S P σ : Type} (fns : ArrayFns A (Value S)) (single : Value S → Lua S P)

/-! ## The iterators -/

/-- The closure `pllua_datum_array_next`. -/
structure ArrayNext where
  ref : Ref
  idx : Int
  ubound : Int

/-- The closure for a dimension. -/
def array_next (r : Ref) : Option (Nat × Int) → ArrayNext
  | none => ⟨r, 0, 0⟩
  | some (d, lb) => ⟨r, c_int lb, c_int (lb + d)⟩

def pllua_datum_array_pairs (a : A) : ArrayNext := array_next .datum (fns.bounds a)[0]?

def pllua_datum_idxlist_pairs (a : A) (l : IdxList) : ArrayNext :=
  array_next (.slice l) (fns.bounds a)[l.idx.length]?

/-- `__pairs` -/
def pairs (a : A) : Ref → ArrayNext
  | .datum => pllua_datum_array_pairs fns a
  | .slice l => pllua_datum_idxlist_pairs fns a l

/-- `pllua_datum_array_next`: an index with what stands there, unless the loop is over. -/
def pllua_datum_array_next (a : A) (it : ArrayNext) :
    Except String (Option (ArrayNext × Int × Indexed S P)) :=
  if it.idx ≥ it.ubound then .ok none
  else do
    let v ← index_one fns single a it.ref it.idx
    return some ({ it with idx := c_int (it.idx + 1) }, it.idx, v)

/-! ## Loops of a program -/

variable (arr : σ → A)

/-- A `for` loop with an iterator, with a bound on the number of its calls. The array is a part of
the state of Lua. -/
def for_pairs (body : σ → Int → Indexed S P → Except String σ) :
    Nat → ArrayNext → σ → Except String σ
  | 0, _, _ => .error "the loop goes on"
  | n + 1, it, lua => do
    match ← pllua_datum_array_next fns single (arr lua) it with
    | none => return lua
    | some (it, k, v) => for_pairs body n it (← body lua k v)

/-- A loop for each of `n` dimensions, with `visit` in the innermost one. -/
def nested_pairs (visit : σ → Lua S P → List Int → Except String σ) :
    Nat → Ref → List Int → σ → Except String σ
  | 0, _, _, _ => .error "too many dimensions"
  | n + 1, r, path, lua =>
    let it := pairs fns (arr lua) r
    let body := fun lua k v =>
      match v with
      | .value v => visit lua v (path ++ [k])
      | .slice l => nested_pairs visit n (.slice l) (path ++ [k]) lua
    for_pairs fns single arr body ((it.ubound - it.idx).toNat + 1) it lua

/-- The loops over a whole array. One without dimensions is looped over like one with none in
its only dimension. -/
def loop_over (visit : σ → Lua S P → List Int → Except String σ) (lua : σ) : Except String σ :=
  nested_pairs fns single arr visit (max 1 (ndims fns (arr lua))) .datum [] lua

/-! ## The law -/

/-- The element at the subscripts. -/
def element (a : A) (path : List Int) : Lua S P :=
  lua_element single (fns.array_get_element a path)

/-- The subscripts of all elements, in row-major order. -/
def all_subscripts (b : Bounds) : List (List Int) :=
  if b.isEmpty then [] else row_major_subscripts b

/-- One loop over all the elements, each read when its turn comes. -/
def visit_all (visit : σ → Lua S P → List Int → Except String σ) (paths : List (List Int))
    (lua : σ) : Except String σ :=
  paths.foldlM (fun lua path => visit lua (element fns single (arr lua) path) path) lua

/-- `ArrayCheckBounds`: the bounds are C ints, also the one after the last index. -/
def Checked (b : Bounds) : Prop := ∀ x ∈ b, InRange x.2 ∧ InRange (x.2 + x.1)

instance (k : Int) : Decidable (InRange k) := inferInstanceAs (Decidable (_ ∧ _))

instance (b : Bounds) : Decidable (Checked b) :=
  inferInstanceAs (Decidable (∀ x ∈ b, InRange x.2 ∧ InRange (x.2 + x.1)))

/-- What a visit can do to an array with elements is to assign to them. -/
def Assigns (visit : σ → Lua S P → List Int → Except String σ) : Prop :=
  ∀ lua v path lua', visit lua v path = .ok lua' → fns.bounds (arr lua) ≠ [] →
    Resized (fns.bounds (arr lua)) (fns.bounds (arr lua'))

variable {fns single arr} {visit : σ → Lua S P → List Int → Except String σ}

theorem resized_ne_nil {b b' : Bounds} (h : Resized b b') (hne : b ≠ []) : b' ≠ [] := by
  rintro rfl
  exact hne (List.length_eq_zero_iff.mp h.length.symm)

theorem visit_all_resized (hv : Assigns fns arr visit) {paths : List (List Int)} {lua lua' : σ}
    (h : visit_all fns single arr visit paths lua = .ok lua') (hne : fns.bounds (arr lua) ≠ []) :
    Resized (fns.bounds (arr lua)) (fns.bounds (arr lua')) := by
  induction paths generalizing lua with
  | nil =>
    cases h
    exact .refl _
  | cons path paths ih =>
    obtain ⟨mid, hmid, h⟩ := bind_eq_ok h
    have hfirst := hv _ _ _ _ hmid hne
    exact hfirst.trans (ih h (resized_ne_nil hfirst hne))

theorem in_range_index {d : Nat} {lb : Int} (h : InRange lb ∧ InRange (lb + d)) {i : Nat}
    (hi : i ≤ d) : InRange (i + lb) := by
  unfold InRange at *
  omega

theorem visit_all_append (paths paths' : List (List Int)) (lua : σ) :
    visit_all fns single arr visit (paths ++ paths') lua =
      visit_all fns single arr visit paths lua >>= visit_all fns single arr visit paths' := by
  unfold visit_all
  rw [List.foldlM_append]

theorem visit_all_singleton (path : List Int) (lua : σ) :
    visit_all fns single arr visit [path] lua = visit lua (element fns single (arr lua) path) path :=
  bind_pure _

/-- A loop visits the blocks of its indices, one after the other. -/
theorem for_pairs_blocks (hv : Assigns fns arr visit)
    {body : σ → Int → Indexed S P → Except String σ} {blocks : Nat → List (List Int)} {b : Bounds}
    (hne : b ≠ []) {r : Ref} {d : Nat} {lb : Int} (hrange : InRange lb ∧ InRange (lb + d))
    (hbody : ∀ (i : Nat) lua, i < d → Resized b (fns.bounds (arr lua)) →
      (index_one fns single (arr lua) r (i + lb) >>= body lua (i + lb)) =
        visit_all fns single arr visit (blocks i) lua)
    {n i : Nat} (hi : i + n = d) (lua : σ) (hb : Resized b (fns.bounds (arr lua))) :
    for_pairs fns single arr body (n + 1) ⟨r, i + lb, lb + d⟩ lua =
      visit_all fns single arr visit ((List.range' i n).flatMap blocks) lua := by
  induction n generalizing i lua with
  | zero =>
    have hend : (i : Int) + lb ≥ lb + d := by omega
    simp only [for_pairs, pllua_datum_array_next, if_pos hend]
    rfl
  | succ n ih =>
    have hmore : ¬ (i : Int) + lb ≥ lb + d := by omega
    have hnext : c_int ((i : Int) + lb + 1) = ((i + 1 : Nat) : Int) + lb := by
      have hrange' := in_range_index hrange (i := i + 1) (by omega)
      rw [← c_int_of_range hrange']
      congr 1
      omega
    rw [for_pairs, pllua_datum_array_next, if_neg hmore]
    have hfirst := hbody i lua (by omega) hb
    rw [List.range'_succ, List.flatMap_cons, visit_all_append, ← hfirst]
    cases hindex : index_one fns single (arr lua) r (i + lb) with
    | error e => rfl
    | ok v =>
      rw [hindex] at hfirst
      simp only [hnext, bind, pure, Except.bind, Except.pure] at hfirst ⊢
      cases hvisit : body lua (i + lb) v with
      | error e => rfl
      | ok lua' =>
        rw [hvisit] at hfirst
        exact ih (by omega) lua' (hb.trans (visit_all_resized hv hfirst.symm (resized_ne_nil hb hne)))

variable (single) in
/-- The loops over the dimensions that are left visit the elements below the reference. -/
theorem nested_pairs_below (hv : Assigns fns arr visit) {b : Bounds} (hchecked : Checked b)
    {rest : Bounds} (hne : rest ≠ []) {r : Ref} {pre : List Int} (hdrop : b.drop pre.length = rest)
    (hidx : r.idx = pre) (lua : σ) (hb : fns.bounds (arr lua) = b) (hvalid : Valid fns (arr lua) r) :
    nested_pairs fns single arr visit rest.length r pre lua =
      visit_all fns single arr visit ((row_major_subscripts rest).map (pre ++ ·)) lua := by
  induction rest generalizing r pre lua with
  | nil => exact absurd rfl hne
  | cons bound rest ih =>
    obtain ⟨d, lb⟩ := bound
    have hrange : InRange lb ∧ InRange (lb + d) :=
      hchecked (d, lb) (List.mem_of_mem_drop (hdrop ▸ List.mem_cons_self))
    have hhead : b[pre.length]? = some (d, lb) := by
      rw [← List.head?_drop, hdrop]
      rfl
    have hit : pairs fns (arr lua) r = ⟨r, lb, lb + d⟩ := by
      cases r with
      | datum =>
        cases hidx
        rw [Ref.idx, List.length_nil] at hhead
        simp only [pairs, pllua_datum_array_pairs, hb, hhead, array_next,
          c_int_of_range hrange.1, c_int_of_range hrange.2]
      | slice l =>
        cases hidx
        simp only [Ref.idx] at hhead
        simp only [pairs, pllua_datum_idxlist_pairs, hb, hhead, array_next,
          c_int_of_range hrange.1, c_int_of_range hrange.2]
    have hfuel : (lb + d - lb).toNat + 1 = d + 1 := by omega
    have hzero : lb = ((0 : Nat) : Int) + lb := (Int.zero_add lb).symm
    have hfull : b.length = pre.length + (rest.length + 1) := by
      have hlen := congrArg List.length hdrop
      rw [List.length_drop, List.length_cons] at hlen
      omega
    rw [row_major_subscripts_cons, List.map_flatMap, List.range_eq_range', List.length_cons,
      nested_pairs]
    simp only [hit, hfuel]
    nth_rewrite 1 [hzero]
    have hnonempty : b ≠ [] := by
      rintro rfl
      cases hfull
    refine for_pairs_blocks (b := b) hv hnonempty hrange ?_ (Nat.zero_add d) lua (hb ▸ Resized.refl _)
    intro i lua' hi hb'
    have hndims : ndims fns (arr lua') = b.length := hb'.length
    have hvalid' : Valid fns (arr lua') r := by
      cases r with
      | datum => trivial
      | slice l =>
        have hsame : ndims fns (arr lua) = b.length := congrArg List.length hb
        unfold Valid at hvalid ⊢
        rwa [hndims, ← hsame]
    have hkey : c_int (i + lb) = i + lb := c_int_of_range (in_range_index hrange (Nat.le_of_lt hi))
    have hlength : r.idx.length = pre.length := congrArg List.length hidx
    cases rest with
    | nil =>
      have hlast : r.idx.length + 1 = max 1 (ndims fns (arr lua')) := by
        rw [hndims, hfull, hlength, List.length_nil]
        omega
      rw [index_one_value hvalid' hlast, hkey, hidx]
      exact (bind_pure _).symm
    | cons bound rest =>
      have hmore : r.idx.length + 1 < ndims fns (arr lua') := by
        rw [hndims, hfull, hlength, List.length_cons]
        omega
      obtain ⟨l, hl, hvalid_l, hidx_l⟩ := index_one_slice single (i + lb) hvalid' hmore
      have hsame : fns.bounds (arr lua') = b := by
        rcases hb' with heq | ⟨_, _, _, _, hone, -, -⟩
        · exact heq
        · rw [hone, List.length_singleton, List.length_cons] at hfull
          omega
      have hdrop_l : b.drop (pre ++ [i + lb]).length = bound :: rest := by
        rw [List.length_append, ← List.drop_drop, hdrop]
        rfl
      have hidx_below : (Ref.slice l).idx = pre ++ [i + lb] := by rw [Ref.idx, hidx_l, hkey, hidx]
      have hbelow := ih (List.cons_ne_nil _ _) hdrop_l hidx_below lua' hsame hvalid_l
      rw [hl]
      simpa [bind, Except.bind, List.map_map, Function.comp_def] using hbelow

/-- Nested loops with pairs visit all elements of the array in row-major order, each with what
stands there when its turn comes, whatever the visits assign to the array. -/
theorem loops_are_row_major (hv : Assigns fns arr visit) (lua : σ)
    (hchecked : Checked (fns.bounds (arr lua))) :
    loop_over fns single arr visit lua =
      visit_all fns single arr visit (all_subscripts (fns.bounds (arr lua))) lua := by
  unfold loop_over all_subscripts
  cases hb : fns.bounds (arr lua) with
  | nil =>
    have hndims : ndims fns (arr lua) = 0 := congrArg List.length hb
    have hit : pairs fns (arr lua) .datum = ⟨.datum, 0, 0⟩ := by
      simp [pairs, pllua_datum_array_pairs, hb, array_next]
    rw [hndims]
    simp [nested_pairs, hit, for_pairs, pllua_datum_array_next, visit_all, bind, Except.bind]
  | cons bound rest =>
    have hndims : ndims fns (arr lua) = (bound :: rest).length := congrArg List.length hb
    have hmax : max 1 (ndims fns (arr lua)) = (bound :: rest).length := by
      rw [hndims, List.length_cons]
      omega
    have hdrop : (bound :: rest).drop ([] : List Int).length = bound :: rest := rfl
    have hbelow := nested_pairs_below (r := .datum) single hv (hb ▸ hchecked)
      (List.cons_ne_nil bound rest) hdrop rfl lua hb trivial
    rw [hmax, hbelow]
    simp

end

/-! ## A loop that writes -/

/-- An array, and what a loop has seen of it. -/
abbrev Seen := PgArray (Value Int) × List (List Int × Lua Int Empty)

/-- The last element is replaced before the loop comes to it. -/
def replace_last (s : Seen) (v : Lua Int Empty) (path : List Int) : Except String Seen :=
  (s.1.set [2] (some (.scalar 7))).map fun a => (a, s.2 ++ [(path, v)])

theorem replace_last_assigns : Assigns (pgarrays _) Prod.fst replace_last := by
  intro s v path s' h hne
  obtain ⟨a', ha', rfl⟩ := map_eq_ok h
  obtain ⟨b, hb, rfl⟩ := PgArray.set_ok ha'
  change Resized s.1.bounds b
  unfold extended at hb
  split at hb
  · rename_i hempty
    exact absurd hempty hne
  · rename_i d lb k hone hk
    simp only at hb
    split at hb
    · cases hb
    · cases hb
      exact Or.inr ⟨d, lb, _, _, hone, rfl, by omega⟩
  · split at hb
    · exact Or.inl (Option.some.inj hb).symm
    · cases hb

theorem the_loop_sees_the_new_element :
    (loop_over (pgarrays _) lua_value Prod.fst replace_last (two_integers, [])).map (·.2) =
      .ok [([1], .integer 10), ([2], .integer 7)] :=
  (congrArg (Except.map (·.2)) (loops_are_row_major replace_last_assigns (two_integers, [])
    (by decide))).trans rfl

section
variable {A S P σ : Type} {fns : ArrayFns A (Value S)} {single : Value S → Lua S P} {arr : σ → A}

/-! ## The map -/

/-- The map of the array with the function `f`, which gets nil for a null. -/
structure MapOf (fns : ArrayFns A (Value S)) (single : Value S → Lua S P) (arr : σ → A)
    (m : Mapping σ S P) (f : σ → Lua S P → List Int → Except String (σ × Lua S P)) : Prop where
  bounds : ∀ lua, m.bounds lua = fns.bounds (arr lua)
  mapfunc : m.mapfunc = some f
  /-- a result that is discarded would be left on the stack -/
  noresult : m.noresult = false
  nullvalue : m.nullvalue = none
  /-- `array_iter_next` gives the elements in row-major order -/
  element : ∀ (lua : σ) (index : Nat) (path : List Int),
    (row_major_subscripts (fns.bounds (arr lua)))[index]? = some path →
      m.element lua index = .ok (element fns single (arr lua) path)
  /-- the function leaves the array as it is -/
  keeps : ∀ lua v path lua' r, f lua v path = .ok (lua', r) → arr lua' = arr lua

variable {m : Mapping σ S P} {f : σ → Lua S P → List Int → Except String (σ × Lua S P)}

/-- The function as the body of a loop. -/
def body_of (f : σ → Lua S P → List Int → Except String (σ × Lua S P)) (lua : σ) (v : Lua S P)
    (path : List Int) : Except String σ := (f lua v path).map (·.1)

/-- An iteration calls the function once. -/
theorem iteration_lua (hm : MapOf fns single arr m f) {index : Nat} {st : MapState σ S P}
    {path : List Int} (hpath : (row_major_subscripts (m.bounds st.lua))[index]? = some path)
    (hidx : subscripts (lbounds (m.bounds st.lua)) (stack_up m st).idx = path) :
    (iteration m index st).map (·.lua) =
      body_of f st.lua (element fns single (arr st.lua) path) path := by
  have helement := hm.element st.lua index path (hm.bounds st.lua ▸ hpath)
  unfold iteration push_element
  rw [stack_up_lua, helement]
  simp only [hm.nullvalue, Option.getD_none, ite_self, call_mapfunc, hm.mapfunc, bind,
    Except.bind, pure, Except.pure, hidx, body_of]
  cases f st.lua (arraypairs.element fns single (arr st.lua) path) path with
  | error e => rfl
  | ok r =>
    unfold store
    rw [hm.noresult]
    rfl

/-- A loop that leaves the array alone. -/
theorem visit_all_keeps (hm : MapOf fns single arr m f) {paths : List (List Int)} {lua lua' : σ}
    (h : visit_all fns single arr (body_of f) paths lua = .ok lua') : arr lua' = arr lua := by
  induction paths generalizing lua with
  | nil =>
    cases h
    rfl
  | cons path paths ih =>
    obtain ⟨mid, hmid, h⟩ := bind_eq_ok h
    obtain ⟨⟨mid, r⟩, hr, rfl⟩ := map_eq_ok hmid
    exact (ih h).trans (hm.keeps _ _ _ _ _ hr)

/-- Before the element at a position, the loop over the elements has come as far. -/
theorem run_visits (hm : MapOf fns single arr m f) (lua : σ) {n : Nat}
    (hn : n ≤ nelems (m.bounds lua)) :
    (run m lua n).map (·.lua) = visit_all fns single arr (body_of f)
      ((row_major_subscripts (fns.bounds (arr lua))).take n) lua := by
  induction n with
  | zero => rfl
  | succ n ih =>
    have hprev := ih (Nat.le_of_succ_le hn)
    have hpath := row_major_subscripts_getElem hn
    rw [← hm.bounds lua] at hprev ⊢
    rw [List.take_add_one, hpath, visit_all_append, ← hprev, run]
    cases hrun : run m lua n with
    | error e => rfl
    | ok st =>
      rw [hrun] at hprev
      have harr := visit_all_keeps hm hprev.symm
      have hbounds : m.bounds st.lua = m.bounds lua := by
        rw [hm.bounds, hm.bounds, harr]
      have hidx := (run_before (Nat.le_of_succ_le hn) hrun).stack_up_idx hn
      have hpath' := hpath
      rw [← hbounds] at hpath' hidx
      rw [← hbounds]
      exact (iteration_lua hm hpath' (congrArg _ hidx)).trans (visit_all_singleton _ _).symm

/-- Mapping a function over an array, with its results, is the same as calling it in nested loops
with pairs: it gets the same elements with the same subscripts in the same order, and has the
same effect. -/
theorem the_map_agrees_with_pairs (hm : MapOf fns single arr m f) (lua : σ)
    (hchecked : Checked (fns.bounds (arr lua))) :
    (run m lua (nelems (m.bounds lua))).map (·.lua) =
      loop_over fns single arr (body_of f) lua := by
  have hv : Assigns fns arr (body_of f) := by
    intro lua v path lua' h _
    obtain ⟨⟨lua', r⟩, hr, rfl⟩ := map_eq_ok h
    rw [hm.keeps _ _ _ _ _ hr]
    exact Resized.refl _
  rw [run_visits hm lua (Nat.le_refl _), loops_are_row_major hv lua hchecked, hm.bounds lua]
  unfold all_subscripts nelems
  cases hb : fns.bounds (arr lua) with
  | nil => rfl
  | cons bound rest =>
    have hall : (row_major_subscripts (bound :: rest)).take (volume (dims (bound :: rest))) =
        row_major_subscripts (bound :: rest) :=
      List.take_of_length_le (Nat.le_of_eq (row_major_subscripts_length _))
    simpa using congrArg (visit_all fns single arr (body_of f) · lua) hall

end

/-- An array of two rows. -/
def two_rows : PgArray (Value Int) :=
  ⟨[(2, 1), (2, 5)], fun idx => some (.scalar (idx.headD 0 * 10 + idx.getLastD 0))⟩

/-- What the function sees of each element. -/
def see (s : Seen) (v : Lua Int Empty) (path : List Int) : Except String (Seen × Lua Int Empty) :=
  .ok ((s.1, s.2 ++ [(path, v)]), v)

/-- `two_rows` with its elements in row-major order. -/
def see_all : Mapping Seen Int Empty where
  bounds s := s.1.bounds
  element s index :=
    .ok (((row_major_subscripts s.1.bounds)[index]?.map
      (element (pgarrays _) lua_value s.1)).getD .nil)
  mapfunc := some see
  noresult := false
  nullvalue := none
  resized := by
    rintro _ ⟨⟩ _ _ _ _ _ ⟨⟩
    exact Resized.refl _

theorem see_all_map : MapOf (pgarrays _) lua_value Prod.fst see_all see where
  bounds _ := rfl
  mapfunc := rfl
  noresult := rfl
  nullvalue := rfl
  element s index path hpath := by
    have hpath' : (row_major_subscripts s.1.bounds)[index]? = some path := hpath
    simp [see_all, hpath']
  keeps := by
    rintro _ _ _ _ _ ⟨⟩
    rfl

theorem the_map_sees_what_the_loop_sees :
    (run see_all (two_rows, []) (nelems two_rows.bounds)).map (·.lua.2) =
        .ok [([1, 5], .integer 15), ([1, 6], .integer 16), ([2, 5], .integer 25),
          ([2, 6], .integer 26)] ∧
      (run see_all (two_rows, []) (nelems two_rows.bounds)).map (·.lua) =
        loop_over (pgarrays _) lua_value Prod.fst (body_of see) (two_rows, []) :=
  ⟨rfl, the_map_agrees_with_pairs see_all_map (two_rows, []) (by decide)⟩

end pllua.arraypairs
