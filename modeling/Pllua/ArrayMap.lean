-- The map of an array: one loop over the elements, with an index for each dimension, and a
-- stack of tables for the dimensions that are in progress. A result that is discarded is left on
-- the stack.
import Pllua.Constructors
import Pllua.RowMajor

open pllua.constructors pllua.rowmajor

namespace pllua.arraymap

/-! ## The array and what is asked for -/

/-- The length and the lower bound of each dimension. -/
abbrev Bounds := List (Nat × Int)

def dims (b : Bounds) : List Nat := b.map (·.1)
def lbounds (b : Bounds) : List Int := b.map (·.2)

/-- `array_set_element` extends an array of one dimension, and no other. -/
def Resized (b b' : Bounds) : Prop :=
  b' = b ∨ ∃ d lb d' lb', b = [(d, lb)] ∧ b' = [(d', lb')] ∧ d ≤ d'

/-- The array, and the second argument of the map. What Lua code does to the array shows in the
state `σ` of Lua. -/
structure Mapping (σ S P : Type) where
  /-- `arr->dims` and `arr->lbound` -/
  bounds : σ → Bounds
  /-- `array_iter_next` and `pllua_datum_single` -/
  element : σ → Nat → Except String (Lua S P)
  /-- the map function, on the element and its subscripts -/
  mapfunc : Option (σ → Lua S P → List Int → Except String (σ × Lua S P))
  noresult : Bool
  nullvalue : Option (Lua S P)
  resized : ∀ f, mapfunc = some f → ∀ lua v subscripts lua' r,
    f lua v subscripts = .ok (lua', r) → Resized (bounds lua) (bounds lua')

section
variable {σ S P : Type} (m : Mapping σ S P)

/-! ## The loop -/

structure MapState (σ S P : Type) where
  /-- what stands above the entry values, the topmost first -/
  stack : List (Lua S P)
  /-- `idxlist.idx` up to `nstack`, the innermost first -/
  idx : List Nat
  /-- the subscripts with which the map function was called so far -/
  calls : List (List Int)
  lua : σ

/-- `lua_seti` of the topmost value in the table below it. -/
def lua_seti (k : Int) : List (Lua S P) → List (Lua S P)
  | v :: .table entries :: stack =>
    .table ((.integer k, v) :: entries.filter (·.1 ≠ .integer k)) :: stack
  | stack => stack

/-- New tables, to the required depth. -/
def stack_up (st : MapState σ S P) : MapState σ S P :=
  let missing := (m.bounds st.lua).length - st.idx.length
  { st with
    stack := if m.noresult then st.stack else List.replicate missing (.table []) ++ st.stack
    idx := List.replicate missing 0 ++ st.idx }

/-- The element, or what stands for a null. -/
def push_element (index : Nat) (st : MapState σ S P) : Except String (MapState σ S P) := do
  let v ← m.element st.lua index
  return { st with stack := (if v.isnil then m.nullvalue.getD v else v) :: st.stack }

/-- The subscripts for the indices. -/
def subscripts (lbs : List Int) (idx : List Nat) : List Int :=
  List.zipWith (fun i lb => (i : Int) + lb) idx.reverse lbs

def call_mapfunc (st : MapState σ S P) : Except String (MapState σ S P) :=
  match m.mapfunc, st.stack with
  | some f, v :: stack => do
    let subs := subscripts (lbounds (m.bounds st.lua)) st.idx
    let r ← f st.lua v subs
    return { st with stack := r.2 :: stack, calls := st.calls ++ [subs], lua := r.1 }
  | _, _ => .ok st

/-- The key in the table of the dimension whose index is the first of `idx`. -/
def key (b : Bounds) (idx : List Nat) : Int :=
  idx.headD 0 + (b.getD (idx.length - 1) (0, 0)).2

/-- The result goes into the table on top, unless it is to be discarded. -/
def store (st : MapState σ S P) : MapState σ S P :=
  if m.noresult then st
  else { st with stack := lua_seti (key (m.bounds st.lua) st.idx) st.stack }

/-- The next index. Where a dimension has ended, its table goes into the one below. -/
def rollover (b : Bounds) (noresult : Bool) :
    List Nat → List (Lua S P) → List Nat × List (Lua S P)
  | [], stack => ([], stack)
  | i :: outer, stack =>
    let next := (i + 1) % (b.getD outer.length (0, 0)).1
    if next ≠ 0 then (next :: outer, stack)
    else if outer.isEmpty then ([next], stack)
    else rollover b noresult outer (if noresult then stack else lua_seti (key b outer) stack)

def roll (st : MapState σ S P) : MapState σ S P :=
  let r := rollover (m.bounds st.lua) m.noresult st.idx st.stack
  { st with idx := r.1, stack := r.2 }

def iteration (index : Nat) (st : MapState σ S P) : Except String (MapState σ S P) := do
  let st ← push_element m index (stack_up m st)
  let st ← call_mapfunc m st
  return roll m (store m st)

/-- The state at the start of an iteration. -/
def run (lua : σ) : Nat → Except String (MapState σ S P)
  | 0 => .ok ⟨[], [], [], lua⟩
  | index + 1 => do iteration m index (← run lua index)

/-- `ArrayGetNItems` -/
def nelems (b : Bounds) : Nat := if b.length = 0 then 0 else volume (dims b)

/-- `pllua_datum_array_map`: what it returns. -/
def pllua_datum_array_map (lua : σ) : Except String (List (Lua S P)) :=
  if nelems (m.bounds lua) < 1 then .ok (if m.noresult then [] else [.table []])
  else do
    let st ← run m lua (nelems (m.bounds lua))
    return if m.noresult then [] else st.stack.take 1

/-! ## The laws -/

/-- The subscripts of the elements, in row-major order. -/
def row_major_subscripts (b : Bounds) : List (List Int) :=
  (row_major (dims b)).map fun (idx : List Nat) => subscripts (lbounds b) idx.reverse

/-- The calls of the map function, one for each element. -/
def expected_calls (lua : σ) : List (List Int) :=
  if m.mapfunc.isSome then row_major_subscripts (m.bounds lua) else []

/-- The number of tables in progress before the element at a position: one for each dimension,
but for the innermost ones whose index is 0 again. -/
def in_progress (b : Bounds) (index : Nat) : Nat := (significant (dims b).reverse index).length

/-- The stack holds the tables in progress, and none when discarding. -/
structure Disciplined (lua : σ) (index : Nat) (stack : List (Lua S P)) : Prop where
  length : stack.length = if m.noresult then 0 else in_progress (m.bounds lua) index
  tables : ∀ v ∈ stack, v.istable = true
  bounded : stack.length ≤ (m.bounds lua).length

/-- At the start of an iteration, and once they are all done. -/
def Kept (lua : σ) (index : Nat) (st : MapState σ S P) : Prop :=
  (index < nelems (m.bounds lua) → Disciplined m lua index st.stack) ∧
    st.calls = (expected_calls m lua).take index

/-! ## One step of the odometer -/

variable {m}

theorem Resized.refl (b : Bounds) : Resized b b := Or.inl rfl

theorem Resized.trans {a b c : Bounds} (h1 : Resized a b) (h2 : Resized b c) : Resized a c := by
  rcases h1 with rfl | ⟨d, lb, d', lb', rfl, rfl, hle⟩
  · exact h2
  · rcases h2 with rfl | ⟨e, mb, e', mb', heq, rfl, hle'⟩
    · exact Or.inr ⟨d, lb, d', lb', rfl, rfl, hle⟩
    · cases heq
      exact Or.inr ⟨d, lb, e', mb', rfl, rfl, Nat.le_trans hle hle'⟩

theorem Resized.length {b b' : Bounds} (h : Resized b b') : b'.length = b.length := by
  rcases h with rfl | ⟨d, lb, d', lb', rfl, rfl, -⟩
  · rfl
  · rfl

theorem volume_of_lt {b : Bounds} {k : Nat} (h : k < nelems b) : k < volume (dims b).reverse := by
  unfold nelems at h
  rw [volume_reverse]
  split at h
  · exact absurd h (Nat.not_lt_zero k)
  · exact h

/-- The array may have grown: its only index counts up all the same. -/
theorem carry_resized {b b' : Bounds} (h : Resized b b') {k : Nat} (hk : k + 1 < nelems b) :
    carry (dims b').reverse (digits (dims b).reverse k) = significant (dims b).reverse (k + 1) := by
  rcases h with rfl | ⟨d, lb, d', lb', rfl, rfl, hle⟩
  · exact carry_digits (volume_of_lt hk)
  · have hlt : k + 1 < d := by simpa [nelems, dims, volume] using hk
    have hk' : k % d = k := Nat.mod_eq_of_lt (by omega)
    have hnext : (k + 1) % d = k + 1 := Nat.mod_eq_of_lt hlt
    have hnext' : (k + 1) % d' = k + 1 := Nat.mod_eq_of_lt (by omega)
    simp [dims, digits, carry, significant, hk', hnext, hnext']

/-- The indices roll over as those of the odometer, unless the outermost one does. -/
theorem rollover_idx {b : Bounds} {noresult : Bool} {idx : List Nat} (stack : List (Lua S P))
    (hlength : idx.length ≤ b.length)
    (hnext : carry ((dims b).take idx.length).reverse idx ≠ []) :
    (rollover b noresult idx stack).1 = carry ((dims b).take idx.length).reverse idx := by
  induction idx generalizing stack with
  | nil => rfl
  | cons i outer ih =>
    have hlt : outer.length < (dims b).length := by
      rw [dims, List.length_map]
      exact hlength
    have hget : (dims b)[outer.length] = (b.getD outer.length (0, 0)).1 := by
      have hb : outer.length < b.length := hlength
      simp [dims, List.getD_eq_getElem?_getD, hb]
    rw [List.length_cons, List.take_succ_eq_append_getElem hlt, List.reverse_append,
      List.reverse_singleton, List.singleton_append, carry, hget] at hnext ⊢
    rw [rollover]
    by_cases hzero : (i + 1) % (b.getD outer.length (0, 0)).1 = 0
    · rw [if_pos hzero] at hnext ⊢
      rw [if_neg (fun hne => hne hzero)]
      cases outer with
      | nil => exact absurd rfl hnext
      | cons j rest => exact ih _ (Nat.le_of_succ_le hlength) hnext
    · rw [if_neg hzero, if_pos hzero]

/-- A value goes into the table below it. -/
theorem seti_tables (k : Int) (v : Lua S P) {stack : List (Lua S P)} (hne : stack ≠ [])
    (htables : ∀ w ∈ stack, w.istable = true) :
    (lua_seti k (v :: stack)).length = stack.length ∧
      ∀ w ∈ lua_seti k (v :: stack), w.istable = true := by
  cases stack with
  | nil => exact absurd rfl hne
  | cons w rest =>
    have hw := htables w List.mem_cons_self
    cases w with
    | table entries =>
      refine ⟨rfl, ?_⟩
      intro u hu
      rcases List.mem_cons.mp hu with rfl | hu
      · rfl
      · exact htables u (List.mem_cons_of_mem _ hu)
    | _ => cases hw

/-- The tables that are done go from the stack with their indices. -/
theorem rollover_stack {b : Bounds} {idx : List Nat} {stack : List (Lua S P)}
    (hlength : stack.length = idx.length) (htables : ∀ v ∈ stack, v.istable = true) :
    (rollover b false idx stack).2.length = (rollover b false idx stack).1.length ∧
      ∀ v ∈ (rollover b false idx stack).2, v.istable = true := by
  induction idx generalizing stack with
  | nil => exact ⟨hlength, htables⟩
  | cons i outer ih =>
    rw [rollover]
    split
    · exact ⟨hlength, htables⟩
    · split
      · rename_i hempty
        rw [List.isEmpty_iff.mp hempty] at hlength
        exact ⟨hlength, htables⟩
      · rename_i hnonempty
        cases stack with
        | nil => cases hlength
        | cons v stack =>
          have hlength' : stack.length = outer.length := Nat.succ.inj hlength
          have hne : stack ≠ [] := by
            intro hnil
            rw [hnil] at hlength'
            exact hnonempty (List.isEmpty_iff.mpr (List.length_eq_zero_iff.mp hlength'.symm))
          obtain ⟨hseti, htables'⟩ := seti_tables (key b outer) v hne
            fun w hw => htables w (List.mem_cons_of_mem _ hw)
          exact ih (hseti.trans hlength') htables'

theorem rollover_discard (b : Bounds) (idx : List Nat) (stack : List (Lua S P)) :
    (rollover b true idx stack).2 = stack := by
  induction idx with
  | nil => rfl
  | cons i outer ih =>
    rw [rollover]
    split
    · rfl
    · split
      · rfl
      · exact ih

/-! ## One iteration -/

/-- The call, if there is a map function. -/
def called (b : Bounds) (idx : List Nat) : List (List Int) :=
  if m.mapfunc.isSome then [subscripts (lbounds b) idx] else []

theorem call_mapfunc_ok {st st' : MapState σ S P} {v : Lua S P} {stack : List (Lua S P)}
    (hstack : st.stack = v :: stack) (h : call_mapfunc m st = .ok st') :
    ∃ r, st'.stack = r :: stack ∧ st'.idx = st.idx ∧
      Resized (m.bounds st.lua) (m.bounds st'.lua) ∧
      st'.calls = st.calls ++ called (m := m) (m.bounds st.lua) st.idx := by
  unfold call_mapfunc at h
  cases hf : m.mapfunc with
  | none =>
    rw [hf] at h
    cases h
    exact ⟨v, hstack, rfl, Resized.refl _, by simp [called, hf]⟩
  | some f =>
    rw [hf, hstack] at h
    obtain ⟨r, hr, h⟩ := bind_eq_ok h
    cases h
    exact ⟨r.2, rfl, rfl, m.resized f hf _ _ _ _ _ hr, by simp [called, hf]⟩

@[simp] theorem stack_up_lua (st : MapState σ S P) : (stack_up m st).lua = st.lua := rfl

@[simp] theorem stack_up_calls (st : MapState σ S P) : (stack_up m st).calls = st.calls := rfl

/-- What an iteration does: the element, the call, and then the odometer. -/
theorem iteration_ok {index : Nat} {st st' : MapState σ S P} (h : iteration m index st = .ok st') :
    ∃ r, Resized (m.bounds st.lua) (m.bounds st'.lua) ∧
      st'.calls = st.calls ++ called (m := m) (m.bounds st.lua) (stack_up m st).idx ∧
      (st'.idx, st'.stack) = rollover (m.bounds st'.lua) m.noresult (stack_up m st).idx
        (if m.noresult then r :: (stack_up m st).stack
        else lua_seti (key (m.bounds st'.lua) (stack_up m st).idx)
          (r :: (stack_up m st).stack)) := by
  obtain ⟨pushed, hpushed, h⟩ := bind_eq_ok h
  obtain ⟨v, hv, hpush⟩ := bind_eq_ok hpushed
  cases hpush
  obtain ⟨after, hcall, h⟩ := bind_eq_ok h
  obtain ⟨r, hstack, hidx, hresized, hcalls⟩ := call_mapfunc_ok rfl hcall
  cases h
  refine ⟨r, ?_, ?_, ?_⟩
  · by_cases hd : m.noresult = true
    · simpa [roll, store, hd] using hresized
    · simpa [roll, store, hd] using hresized
  · by_cases hd : m.noresult = true
    · simpa [roll, store, hd] using hcalls
    · simpa [roll, store, hd] using hcalls
  · by_cases hd : m.noresult = true
    · simp [roll, store, hd, hstack, hidx]
    · simp [roll, store, hd, hstack, hidx]

/-- The state before the element at a position. -/
structure Before (lua : σ) (index : Nat) (st : MapState σ S P) : Prop where
  resized : Resized (m.bounds lua) (m.bounds st.lua)
  idx : index < nelems (m.bounds lua) →
    st.idx = significant (dims (m.bounds lua)).reverse index
  tables : m.noresult = false → st.stack.length = st.idx.length ∧ ∀ v ∈ st.stack, v.istable = true
  leaked : m.noresult = true → st.stack.length = index

theorem before_start (lua : σ) : Before (m := m) lua 0 ⟨[], [], [], lua⟩ :=
  ⟨Resized.refl _, fun _ => (significant_zero _).symm,
    fun _ => ⟨rfl, fun _ hv => nomatch hv⟩, fun _ => rfl⟩

variable {lua : σ} {index : Nat} {st st' : MapState σ S P}

/-- With the new tables there is an index for each dimension. -/
theorem Before.stack_up_idx (h : Before (m := m) lua index st)
    (hlt : index < nelems (m.bounds lua)) :
    (stack_up m st).idx = digits (dims (m.bounds lua)).reverse index := by
  have hlength : (m.bounds st.lua).length = (dims (m.bounds lua)).reverse.length := by
    rw [h.resized.length, List.length_reverse, dims, List.length_map]
  rw [digits_eq_zeros_append, ← h.idx hlt, ← hlength]
  rfl

theorem Before.stack_up_tables (h : Before (m := m) lua index st) (hd : m.noresult = false) :
    (stack_up m st).stack.length = (stack_up m st).idx.length ∧
      ∀ v ∈ (stack_up m st).stack, v.istable = true := by
  obtain ⟨hlength, htables⟩ := h.tables hd
  have hstack : (stack_up m st).stack =
      List.replicate ((m.bounds st.lua).length - st.idx.length) (.table []) ++ st.stack := by
    simp [stack_up, hd]
  rw [hstack]
  refine ⟨?_, ?_⟩
  · rw [List.length_append, hlength]
    simp [stack_up]
  · intro v hv
    rcases List.mem_append.mp hv with hv | hv
    · rw [List.eq_of_mem_replicate hv]
      rfl
    · exact htables v hv

theorem Before.next (h : Before (m := m) lua index st) (hlt : index < nelems (m.bounds lua))
    (hstep : iteration m index st = .ok st') : Before (m := m) lua (index + 1) st' := by
  obtain ⟨r, hresized, -, hroll⟩ := iteration_ok hstep
  have hall := h.resized.trans hresized
  have hidx := h.stack_up_idx hlt
  obtain ⟨hidx', hstack'⟩ := Prod.mk.inj hroll
  refine ⟨hall, ?_, ?_, ?_⟩
  · intro hnext
    have hlength : (stack_up m st).idx.length = (dims (m.bounds st'.lua)).length := by
      rw [hidx, digits_length, List.length_reverse, dims, dims, List.length_map, List.length_map,
        hall.length]
    have hcarry := carry_resized hall hnext
    have hne := significant_ne_nil (Nat.succ_pos index) (volume_of_lt hnext)
    rw [hidx', rollover_idx]
    · rw [hlength, List.take_length, hidx, hcarry]
    · exact Nat.le_of_eq (by rw [hlength, dims, List.length_map])
    · rw [hlength, List.take_length, hidx, hcarry]
      exact hne
  · intro hd
    obtain ⟨hlength, htables⟩ := h.stack_up_tables hd
    have hne : (stack_up m st).stack ≠ [] := by
      intro hnil
      rw [hnil, hidx, digits_length, List.length_reverse, dims, List.length_map] at hlength
      have hzero : (m.bounds lua).length = 0 := hlength.symm
      rw [nelems, if_pos hzero] at hlt
      exact absurd hlt (Nat.not_lt_zero index)
    obtain ⟨hlength', htables'⟩ :=
      seti_tables (key (m.bounds st'.lua) (stack_up m st).idx) r hne htables
    rw [hidx', hstack', hd]
    exact rollover_stack (hlength'.trans hlength) htables'
  · intro hd
    have hstack : (stack_up m st).stack = st.stack := by simp [stack_up, hd]
    rw [hstack', hd]
    simp [rollover_discard, hstack, h.leaked hd]

/-! ## A whole map -/

theorem run_succ (h : run m lua (index + 1) = .ok st') :
    ∃ st, run m lua index = .ok st ∧ iteration m index st = .ok st' := bind_eq_ok h

theorem run_before (hle : index ≤ nelems (m.bounds lua)) (h : run m lua index = .ok st) :
    Before (m := m) lua index st := by
  induction index generalizing st with
  | zero =>
    cases h
    exact before_start lua
  | succ index ih =>
    obtain ⟨before, hbefore, hstep⟩ := run_succ h
    exact (ih (Nat.le_of_succ_le hle) hbefore).next hle hstep

theorem run_first (h : run m lua (index + 1) = .ok st) : ∃ st', run m lua 1 = .ok st' := by
  induction index generalizing st with
  | zero => exact ⟨st, h⟩
  | succ index ih =>
    obtain ⟨before, hbefore, -⟩ := run_succ h
    exact ih hbefore

/-- The subscripts of the element at a position. -/
theorem row_major_subscripts_getElem {b : Bounds} {k : Nat} (h : k < nelems b) :
    (row_major_subscripts b)[k]? = some (subscripts (lbounds b) (digits (dims b).reverse k)) := by
  have hlt : k < volume (dims b) := by
    rw [← volume_reverse]
    exact volume_of_lt h
  rw [row_major_subscripts, List.getElem?_map, row_major_getElem hlt, Option.map_some,
    List.reverse_reverse]

theorem expected_calls_take (hlt : index < nelems (m.bounds lua)) :
    (expected_calls m lua).take (index + 1) = (expected_calls m lua).take index ++
      called (m := m) (m.bounds lua) (digits (dims (m.bounds lua)).reverse index) := by
  unfold expected_calls called
  split
  · rw [List.take_add_one, row_major_subscripts_getElem hlt, Option.toList_some]
  · rw [List.take_nil, List.take_nil, List.append_nil]

/-- An array that grew at its lower end has other subscripts. -/
theorem called_resized {b b' : Bounds} (h : Resized b b') {k : Nat} (hf : m.mapfunc.isSome = true) :
    called (m := m) b' (digits (dims b).reverse k) = called (m := m) b (digits (dims b).reverse k) ↔
      lbounds b' = lbounds b := by
  unfold called
  rw [if_pos hf, if_pos hf]
  rcases h with rfl | ⟨d, lb, d', lb', rfl, rfl, -⟩
  · exact iff_of_true rfl rfl
  · simp [dims, lbounds, digits, subscripts]

theorem run_calls (hlt : index < nelems (m.bounds lua)) (hst : run m lua index = .ok st)
    (hst' : run m lua (index + 1) = .ok st') :
    st'.calls = st.calls ++
      called (m := m) (m.bounds st.lua) (digits (dims (m.bounds lua)).reverse index) := by
  obtain ⟨before, hbefore, hstep⟩ := run_succ hst'
  rw [hst] at hbefore
  cases hbefore
  obtain ⟨r, -, hcalls, -⟩ := iteration_ok hstep
  rw [hcalls, (run_before (Nat.le_of_lt hlt) hst).stack_up_idx hlt]

/-- Without a map function nothing happens to the array. -/
theorem run_lua (hf : m.mapfunc = none) (h : run m lua index = .ok st) : st.lua = lua := by
  induction index generalizing st with
  | zero =>
    cases h
    rfl
  | succ index ih =>
    obtain ⟨before, hbefore, hstep⟩ := run_succ h
    obtain ⟨pushed, hpushed, hstep⟩ := bind_eq_ok hstep
    obtain ⟨v, hv, hpush⟩ := bind_eq_ok hpushed
    cases hpush
    rw [call_mapfunc, hf] at hstep
    cases hstep
    by_cases hd : m.noresult = true
    · simpa [roll, store, hd] using ih hbefore
    · simpa [roll, store, hd] using ih hbefore

theorem disciplined_of_result (hd : m.noresult = false) (hlt : index < nelems (m.bounds lua))
    (h : Before (m := m) lua index st) : Disciplined m lua index st.stack := by
  obtain ⟨hlength, htables⟩ := h.tables hd
  have hprogress : st.stack.length = in_progress (m.bounds lua) index := by
    rw [hlength, h.idx hlt, in_progress]
  refine ⟨?_, htables, ?_⟩
  · rw [hd, hprogress]
    rfl
  · have hle := significant_length (dims (m.bounds lua)).reverse index
    rw [List.length_reverse, dims, List.length_map] at hle
    rw [hprogress]
    exact hle

variable (m lua)

/-- The stack holds the tables in progress and no more, and the map function is called for the
elements in their order, just if no element comes after a result that is discarded, and no call
before another element moves the lower end of the array. -/
theorem the_map_keeps_its_stack_and_order_iff :
    (∀ index st, index ≤ nelems (m.bounds lua) → run m lua index = .ok st →
      Kept m lua index st) ↔
    (m.noresult = true → 1 < nelems (m.bounds lua) → ∀ st, run m lua 1 ≠ .ok st) ∧
      ∀ index st st', index < nelems (m.bounds lua) → run m lua index = .ok st →
        run m lua (index + 1) = .ok st' → lbounds (m.bounds st.lua) = lbounds (m.bounds lua) := by
  refine ⟨fun hkept => ⟨?_, ?_⟩, ?_⟩
  · intro hd hlt st hst
    have hlength := ((hkept 1 st (Nat.le_of_lt hlt) hst).1 hlt).length
    rw [(run_before (Nat.le_of_lt hlt) hst).leaked hd, hd] at hlength
    cases hlength
  · intro index st st' hlt hst hst'
    cases hf : m.mapfunc with
    | none => rw [run_lua hf hst]
    | some f =>
      have hcalls := (hkept index st (Nat.le_of_lt hlt) hst).2
      have hcalls' := (hkept (index + 1) st' hlt hst').2
      rw [expected_calls_take hlt, run_calls hlt hst hst', hcalls] at hcalls'
      have hsame := List.append_cancel_left hcalls'
      exact (called_resized (run_before (Nat.le_of_lt hlt) hst).resized
        (by rw [hf, Option.isSome_some])).mp hsame
  · rintro ⟨hdiscard, hlower⟩ index st hle hst
    refine ⟨fun hlt => ?_, ?_⟩
    · have hbefore := run_before hle hst
      cases hd : m.noresult with
      | false => exact disciplined_of_result hd hlt hbefore
      | true =>
        cases index with
        | zero =>
          cases hst
          exact ⟨by rw [hd]; rfl, List.forall_mem_nil _, Nat.zero_le _⟩
        | succ index =>
          obtain ⟨first, hfirst⟩ := run_first hst
          exact absurd hfirst (hdiscard hd (by omega) first)
    · clear hdiscard
      induction index generalizing st with
      | zero =>
        cases hst
        rfl
      | succ index ih =>
        obtain ⟨before, hbefore, -⟩ := run_succ hst
        have hcalls := ih before (Nat.le_of_succ_le hle) hbefore
        rw [run_calls hle hbefore hst, expected_calls_take hle, hcalls]
        congr 1
        cases hf : m.mapfunc with
        | none => simp [called, hf]
        | some f =>
          exact (called_resized (run_before (Nat.le_of_succ_le hle) hbefore).resized
            (by rw [hf, Option.isSome_some])).mpr (hlower index before st hle hbefore hst)

end

/-! ## Two elements without a result -/

def two_discarded : Mapping Unit Int Empty where
  bounds _ := [(2, 1)]
  element _ index := .ok (.integer index)
  mapfunc := some fun lua v _ => .ok (lua, v)
  noresult := true
  nullvalue := none
  resized _ _ _ _ _ _ _ _ := Resized.refl _

/-- The first result is still on the stack when the second element is read. -/
theorem a_discarded_result_stays_on_the_stack :
    run two_discarded () 1 = .ok ⟨[.integer 0], [1], [[1]], ()⟩ ∧
    ¬ ∀ index st, index ≤ nelems (two_discarded.bounds ()) → run two_discarded () index = .ok st →
      Kept two_discarded () index st := by
  have hrun : run two_discarded () 1 = .ok ⟨[.integer 0], [1], [[1]], ()⟩ := rfl
  refine ⟨hrun, ?_⟩
  intro hkept
  have hlength := ((hkept 1 _ (by decide) hrun).1 (by decide)).length
  cases hlength

end pllua.arraymap
