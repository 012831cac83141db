-- An array made from nested tables and mapped back to tables. The loop of
-- pllua_typeinfo_array_fromtable and that of pllua_datum_array_map are nested loops over the
-- dimensions, the one with its own stack of data, the other with a stack of tables.
import Mathlib.Data.List.Forall2
import Pllua.ArrayMap
import Pllua.DomainRows

open pllua.constructors pllua.rowmajor pllua.arraymap

namespace pllua.arraytables

section
variable {S P : Type} (lib : Backend S P) (construct : Lua S P → Except String (Option (Value S)))

/-! ## Nested loops -/

/-- `t[i1]...[in]`, where nil stands for all that is missing below it. -/
def lookup (data : Lua S P) : List Int → Except String (Lua S P)
  | [] => .ok data
  | k :: path => do lookup (← lua_geti lib data k) path

/-- The inner loop for `n` items of the data, from the index `cur` on. -/
def blocks (inner : Lua S P → Except String (List (Option (Value S)))) (data : Lua S P) :
    Nat → Nat → Except String (List (Option (Value S)))
  | 0, _ => .ok []
  | n + 1, cur => do
    let item ← lua_geti lib data cur
    let xs ← inner item
    let ys ← blocks inner data n (cur + 1)
    return xs ++ ys

/-- The elements, by a loop for each dimension. -/
def nested : List Nat → Lua S P → Except String (List (Option (Value S)))
  | [], item => do return [← construct item]
  | dim :: dims, data => blocks lib (nested dims) data dim 1

variable {lib construct}

/-- A table is on the stack before the first of its items. -/
theorem pushlevels_more {dims : List Nat} {top : Lua S P × Nat} {levels : Levels S P}
    (h : (top :: levels).length < dims.length) :
    pushlevels lib (dims.length - (top :: levels).length) (top :: levels) = (do
      let item ← lua_geti lib top.1 top.2
      pushlevels lib (dims.length - ((item, 1) :: top :: levels).length)
        ((item, 1) :: top :: levels)) := by
  obtain ⟨n, hn⟩ := Nat.exists_eq_succ_of_ne_zero (Nat.sub_ne_zero_of_lt h)
  have hn' : ∀ item : Lua S P, dims.length - ((item, 1) :: top :: levels).length = n := by
    intro item
    rw [List.length_cons]
    omega
  simp only [hn, hn']
  rfl

theorem element_loop_push {dims : List Nat} {data : Lua S P} {cur : Nat} {levels : Levels S P}
    {n : Nat} (hn : 0 < n) (h : ((data, cur) :: levels).length < dims.length) :
    element_loop lib construct dims n ((data, cur) :: levels) = (do
      let item ← lua_geti lib data cur
      element_loop lib construct dims n ((item, 1) :: (data, cur) :: levels)) := by
  cases n with
  | zero => exact absurd hn (Nat.lt_irrefl 0)
  | succ n =>
    rw [element_loop, pushlevels_more h]
    simp only [bind_assoc]
    rfl

/-- The elements below one item. -/
def Item (lib : Backend S P) (construct : Lua S P → Except String (Option (Value S)))
    (dims ds : List Nat) (levels : Levels S P) : Prop :=
  ∀ data cur m, element_loop lib construct dims (volume ds + m) ((data, cur) :: levels) = (do
    let item ← lua_geti lib data cur
    let xs ← nested lib construct ds item
    let ys ← element_loop lib construct dims m (constructors.rollover dims ((data, cur) :: levels))
    return xs ++ ys)

/-- The elements below the items of the data from `cur` on. -/
theorem blocks_of_item {dims ds : List Nat} {d : Nat} {levels : Levels S P}
    (hdims : dims.drop levels.length = d :: ds) (hitem : Item lib construct dims ds levels)
    (data : Lua S P) (m : Nat) {n cur : Nat} (hcur : cur + n = d + 1) (hn : 0 < n) :
    element_loop lib construct dims (n * volume ds + m) ((data, cur) :: levels) = (do
      let xs ← blocks lib (nested lib construct ds) data n cur
      let ys ← element_loop lib construct dims m (constructors.rollover dims levels)
      return xs ++ ys) := by
  have hget : dims.getD levels.length 0 = d := by
    have hhead := congrArg List.head? hdims
    rw [List.head?_drop] at hhead
    rw [List.getD_eq_getElem?_getD, hhead]
    rfl
  induction n generalizing cur with
  | zero => exact absurd hn (Nat.lt_irrefl 0)
  | succ n ih =>
    rw [Nat.succ_mul, Nat.add_comm (n * volume ds), Nat.add_assoc, hitem, constructors.rollover, hget]
    rcases Nat.eq_zero_or_pos n with rfl | hpos
    · have hend : cur + 1 > d := by omega
      simp only [if_pos hend, Nat.zero_mul, Nat.zero_add, blocks, bind_assoc]
      simp [bind, Except.bind, pure, Except.pure]
    · have hmore : ¬ cur + 1 > d := by omega
      rw [if_neg hmore, ih (by omega) hpos]
      simp only [blocks, bind_assoc, pure_bind, List.append_assoc]

/-- The loop is the nested loops, item by item. -/
theorem item_holds {dims : List Nat} (hpos : ∀ d ∈ dims, 0 < d) (ds : List Nat)
    {d : Nat} {levels : Levels S P} (hdims : dims.drop levels.length = d :: ds) :
    Item lib construct dims ds levels := by
  have hlength : dims.length - levels.length = ds.length + 1 := by
    rw [← List.length_drop, hdims, List.length_cons]
  induction ds generalizing d levels with
  | nil =>
    intro data cur m
    have hnone : dims.length - ((data, cur) :: levels).length = 0 := by
      rw [List.length_cons, Nat.sub_add_eq, hlength]
      rfl
    rw [volume, Nat.add_comm, element_loop, hnone, pushlevels]
    simp only [nested, bind_assoc, pure_bind]
    rfl
  | cons e ds ih =>
    intro data cur m
    have hnext : ∀ top : Lua S P × Nat, dims.drop (top :: levels).length = e :: ds := by
      intro top
      rw [List.length_cons, ← List.drop_drop, hdims]
      rfl
    have hmem : ∀ x ∈ e :: ds, 0 < x := by
      intro x hx
      rw [← hnext (data, cur)] at hx
      exact hpos x (List.mem_of_mem_drop hx)
    have he : 0 < e := hmem e List.mem_cons_self
    have hvolume : 0 < volume (e :: ds) := volume_pos hmem
    have hlt : ((data, cur) :: levels).length < dims.length := by
      rw [List.length_cons] at hlength ⊢
      omega
    rw [element_loop_push (Nat.add_pos_left hvolume m) hlt]
    refine congrArg _ (funext fun item => ?_)
    have hitem := ih (hnext (data, cur)) (by rw [← List.length_drop, hnext, List.length_cons])
    exact blocks_of_item (hnext (data, cur)) hitem item m (Nat.add_comm 1 e) he

/-- The elements of an array from a table, by nested loops. -/
theorem element_loop_nested {dims : List Nat} (hpos : ∀ d ∈ dims, 0 < d) (hne : dims ≠ [])
    (data : Lua S P) :
    element_loop lib construct dims (volume dims) [(data, 1)] = nested lib construct dims data := by
  cases dims with
  | nil => exact absurd rfl hne
  | cons d ds =>
    have hitem : Item lib construct (d :: ds) ds [] := item_holds hpos ds rfl
    have hloop := blocks_of_item rfl hitem data 0 (Nat.add_comm 1 d) (hpos d List.mem_cons_self)
    rw [Nat.add_zero] at hloop
    rw [volume, hloop, nested]
    cases blocks lib (nested lib construct ds) data d 1 with
    | error e => rfl
    | ok xs => exact congrArg Except.ok (List.append_nil xs)

theorem count_elements_ok {tnelems n : Nat} {ds : List Nat}
    (h : count_elements tnelems ds = .ok n) : n = tnelems * volume ds := by
  induction ds generalizing tnelems with
  | nil =>
    rw [count_elements] at h
    split at h
    · cases h
    · cases h
      exact (Nat.mul_one n).symm
  | cons d ds ih =>
    rw [count_elements] at h
    split at h
    · cases h
    · rw [ih h, volume, Nat.mul_assoc]

/-- The bounds of an array from a table. -/
def from_one (dims : List Nat) : Bounds := dims.map fun d => (d, 1)

theorem array_fromtable_ok {dims : List Nat} (hpos : ∀ d ∈ dims, 0 < d) (hne : dims ≠ [])
    {data : Lua S P} {arr : Value S}
    (h : pllua_typeinfo_array_fromtable lib construct data dims = .ok arr) :
    ∃ elems, nested lib construct dims data = .ok elems ∧ arr = .array (from_one dims) elems := by
  cases dims with
  | nil => exact absurd rfl hne
  | cons d ds =>
    obtain ⟨n, hn, h⟩ := bind_eq_ok h
    obtain rfl : n = volume (d :: ds) := count_elements_ok hn
    simp only [Nat.ne_of_gt (volume_pos hpos), if_false] at h
    obtain ⟨elems, helems, h⟩ := bind_eq_ok h
    rw [element_loop_nested hpos hne] at helems
    cases h
    exact ⟨elems, helems, rfl⟩

/-! ## The element at an index vector -/

theorem row_major_subscripts_cons (d : Nat) (lb : Int) (b : Bounds) :
    row_major_subscripts ((d, lb) :: b) =
      (List.range d).flatMap fun (i : Nat) => (row_major_subscripts b).map ((i + lb) :: ·) := by
  simp [row_major_subscripts, row_major, dims, lbounds, subscripts, List.map_flatMap,
    Function.comp_def]

/-- The element `x` is the conversion of what stands at the path. -/
def Converted (lib : Backend S P) (construct : Lua S P → Except String (Option (Value S)))
    (data : Lua S P) (path : List Int) (x : Option (Value S)) : Prop :=
  ∃ item, lookup lib data path = .ok item ∧ construct item = .ok x

theorem blocks_converted {inner : Lua S P → Except String (List (Option (Value S)))}
    {data : Lua S P} {paths : List (List Int)}
    (hinner : ∀ item xs, inner item = .ok xs →
      List.Forall₂ (Converted lib construct item) paths xs)
    {n cur : Nat} {xs : List (Option (Value S))} (h : blocks lib inner data n cur = .ok xs) :
    List.Forall₂ (Converted lib construct data)
      ((List.range' cur n).flatMap fun (i : Nat) => paths.map ((i : Int) :: ·)) xs := by
  induction n generalizing cur xs with
  | zero =>
    cases h
    exact List.Forall₂.nil
  | succ n ih =>
    obtain ⟨item, hitem, h⟩ := bind_eq_ok h
    obtain ⟨ys, hys, h⟩ := bind_eq_ok h
    obtain ⟨zs, hzs, h⟩ := bind_eq_ok h
    cases h
    rw [List.range'_succ, List.flatMap_cons]
    refine List.rel_append ?_ (ih hzs)
    rw [List.forall₂_map_left_iff]
    refine (hinner item ys hys).imp ?_
    rintro path x ⟨found, hfound, hx⟩
    refine ⟨found, ?_, hx⟩
    rw [lookup, hitem]
    exact hfound

theorem nested_converted {dims : List Nat} {data : Lua S P} {xs : List (Option (Value S))}
    (h : nested lib construct dims data = .ok xs) :
    List.Forall₂ (Converted lib construct data) (row_major_subscripts (from_one dims)) xs := by
  induction dims generalizing data xs with
  | nil =>
    obtain ⟨x, hx, h⟩ := bind_eq_ok h
    cases h
    exact List.Forall₂.cons ⟨data, rfl, hx⟩ List.Forall₂.nil
  | cons d ds ih =>
    have hblocks := blocks_converted (fun item xs hitem => ih hitem) h
    rw [List.range'_eq_map_range, List.flatMap_map] at hblocks
    rw [from_one, List.map_cons, row_major_subscripts_cons]
    simpa [Int.add_comm, from_one] using hblocks

/-! ## The way back -/

/-- An element as Lua sees it. -/
def lua_element (single : Value S → Lua S P) : Option (Value S) → Lua S P
  | none => .nil
  | some v => single v

/-- The map of an array with the function that returns its element. -/
def identity_map (single : Value S → Lua S P) (b : Bounds) (elems : List (Option (Value S))) :
    Mapping Unit S P where
  bounds _ := b
  element _ index := .ok (lua_element single elems[index]?.join)
  mapfunc := some fun lua v _ => .ok (lua, v)
  noresult := false
  nullvalue := none
  resized := by
    rintro _ ⟨⟩ _ _ _ _ _ ⟨⟩
    exact Resized.refl b

/-- What an iteration does to the indices and the tables. -/
def step (b : Bounds) (s : List Nat × List (Lua S P)) (v : Lua S P) : List Nat × List (Lua S P) :=
  let missing := b.length - s.1.length
  let idx := List.replicate missing 0 ++ s.1
  arraymap.rollover b false idx
    (lua_seti (key b idx) (v :: (List.replicate missing (.table []) ++ s.2)))

theorem iteration_identity (single : Value S → Lua S P) (b : Bounds)
    (elems : List (Option (Value S))) (n : Nat) (st : MapState Unit S P) :
    ∃ calls, iteration (identity_map single b elems) n st =
      .ok ⟨(step b (st.idx, st.stack) (lua_element single elems[n]?.join)).2,
        (step b (st.idx, st.stack) (lua_element single elems[n]?.join)).1, calls, ()⟩ := by
  refine ⟨st.calls ++ [subscripts (lbounds b) (stack_up (identity_map single b elems) st).idx], ?_⟩
  have hnull : ∀ v : Lua S P, (if v.isnil then (none : Option (Lua S P)).getD v else v) = v :=
    fun v => ite_self v
  simp only [iteration, push_element, identity_map, hnull]
  rfl

theorem run_identity (single : Value S → Lua S P) (b : Bounds) (elems : List (Option (Value S)))
    {n : Nat} (hn : n ≤ elems.length) :
    ∃ calls, run (identity_map single b elems) () n =
      .ok ⟨(((elems.map (lua_element single)).take n).foldl (step b) ([], [])).2,
        (((elems.map (lua_element single)).take n).foldl (step b) ([], [])).1, calls, ()⟩ := by
  induction n with
  | zero => exact ⟨[], rfl⟩
  | succ n ih =>
    obtain ⟨calls, hrun⟩ := ih (Nat.le_of_succ_le hn)
    have hget : (elems.map (lua_element single))[n]? = some (lua_element single elems[n]?.join) := by
      rw [List.getElem?_map, List.getElem?_eq_getElem hn, Option.map_some, Option.join_some]
    rw [run, hrun, List.take_add_one, hget, Option.toList_some, List.foldl_append]
    exact iteration_identity single b elems n _

/-- The entries of a table, once `n` blocks are stored from the index `i` on. -/
def fill (sub : List (Lua S P) → Lua S P) (size : Nat) (lb : Int) :
    Nat → Nat → List (Key × Lua S P) → List (Lua S P) → List (Key × Lua S P)
  | 0, _, entries, _ => entries
  | n + 1, i, entries, xs =>
    fill sub size lb n (i + 1)
      ((.integer (i + lb), sub (xs.take size)) :: entries.filter (·.1 ≠ .integer (i + lb)))
      (xs.drop size)

/-- The nested tables of the elements. -/
def tree : Bounds → List (Lua S P) → Lua S P
  | [], xs => xs.headD .nil
  | (d, lb) :: b, xs => .table (fill (tree b) (volume (dims b)) lb d 0 [] xs)

/-- What becomes of the table of a dimension that has ended. -/
def close (b : Bounds) (pre : List Nat) (stack : List (Lua S P)) (v : Lua S P) :
    List Nat × List (Lua S P) :=
  if pre.isEmpty then ([0], v :: stack)
  else arraymap.rollover b false pre (lua_seti (key b pre) (v :: stack))

theorem step_push {b : Bounds} {pre : List Nat} (h : pre.length < b.length)
    (stack : List (Lua S P)) (v : Lua S P) :
    step b (pre, stack) v = step b (0 :: pre, .table [] :: stack) v := by
  have hmissing : b.length - pre.length = b.length - (0 :: pre).length + 1 := by
    rw [List.length_cons]
    omega
  simp only [step, hmissing, List.replicate_succ', List.append_assoc, List.singleton_append]

/-- The loop below one dimension, given the loop below its items. -/
theorem fold_fill {b rest : Bounds} {d : Nat} {lb : Int} {pre : List Nat}
    (hdrop : b.drop pre.length = (d, lb) :: rest)
    (hblock : ∀ i stack (xs : List (Lua S P)), xs.length = volume (dims rest) →
      xs.foldl (step b) (i :: pre, stack) = close b (i :: pre) stack (tree rest xs))
    {n i : Nat} (hi : i + n = d) (hn : 0 < n) (entries : List (Key × Lua S P))
    (stack xs : List (Lua S P)) (hxs : xs.length = n * volume (dims rest)) :
    xs.foldl (step b) (i :: pre, .table entries :: stack) = close b pre stack
      (.table (fill (tree rest) (volume (dims rest)) lb n i entries xs)) := by
  have hget : b.getD pre.length (0, 0) = (d, lb) := by
    have hhead := congrArg List.head? hdrop
    rw [List.head?_drop] at hhead
    rw [List.getD_eq_getElem?_getD, hhead]
    rfl
  induction n generalizing i entries xs with
  | zero => exact absurd hn (Nat.lt_irrefl 0)
  | succ n ih =>
    rw [Nat.succ_mul] at hxs
    have htake : (xs.take (volume (dims rest))).length = volume (dims rest) := by
      rw [List.length_take]
      omega
    have hfirst := hblock i (.table entries :: stack) _ htake
    have hkey : key b (i :: pre) = i + lb := by
      rw [key, List.length_cons, Nat.add_sub_cancel, hget, List.headD_cons]
    rw [← List.take_append_drop (volume (dims rest)) xs, List.foldl_append, hfirst, close,
      List.isEmpty_cons, hkey, lua_seti, arraymap.rollover, hget]
    simp only [Bool.false_eq_true, if_false, List.take_append_drop]
    rcases Nat.eq_zero_or_pos n with rfl | hpos
    · have hend : (i + 1) % d = 0 := by
        rw [show i + 1 = d from hi, Nat.mod_self]
      have hnil : xs.drop (volume (dims rest)) = [] := List.drop_eq_nil_of_le (by omega)
      simp only [hend, hnil, List.foldl_nil, ne_eq, not_true, if_false, fill, close]
    · have hnext : (i + 1) % d = i + 1 := Nat.mod_eq_of_lt (by omega)
      have hne : (i + 1) % d ≠ 0 := by omega
      rw [if_pos hne, hnext, fill]
      exact ih (by omega) hpos _ _ (by rw [List.length_drop]; omega)

/-- The loop below an index: its elements become the nested tables of the other dimensions. -/
theorem fold_block {b : Bounds} (hpos : ∀ d ∈ dims b, 0 < d) (rest : Bounds) {pre : List Nat}
    (hdrop : b.drop pre.length = rest) (hlength : pre.length + rest.length = b.length)
    (hsome : pre ≠ [] ∨ rest ≠ []) (stack : List (Lua S P)) {xs : List (Lua S P)}
    (hxs : xs.length = volume (dims rest)) :
    xs.foldl (step b) (pre, stack) = close b pre stack (tree rest xs) := by
  induction rest generalizing pre stack xs with
  | nil =>
    obtain ⟨v, rfl⟩ := List.length_eq_one_iff.mp hxs
    have hpre : pre ≠ [] := hsome.resolve_right (fun h => h rfl)
    have hmissing : b.length - pre.length = 0 := by
      rw [← hlength]
      exact Nat.add_sub_cancel_left _ _
    have hempty : pre.isEmpty = false := by
      rw [Bool.eq_false_iff]
      exact fun h => hpre (List.isEmpty_iff.mp h)
    simp [step, hmissing, close, hempty, tree]
  | cons bound rest ih =>
    obtain ⟨d, lb⟩ := bound
    have hlt : pre.length < b.length := by
      rw [← hlength, List.length_cons]
      omega
    have hd : 0 < d := by
      refine hpos d (List.mem_map.mpr ⟨(d, lb), ?_, rfl⟩)
      exact List.mem_of_mem_drop (hdrop ▸ List.mem_cons_self)
    have hrest : ∀ i : Nat, b.drop (i :: pre).length = rest := by
      intro i
      rw [List.length_cons, ← List.drop_drop, hdrop]
      rfl
    have hvolume : 0 < volume (dims ((d, lb) :: rest)) := by
      refine volume_pos fun e he => hpos e ?_
      rw [← hdrop, dims, List.map_drop] at he
      exact List.mem_of_mem_drop he
    cases xs with
    | nil =>
      rw [← hxs] at hvolume
      exact absurd hvolume (Nat.lt_irrefl 0)
    | cons x xs =>
      rw [List.foldl_cons, step_push hlt, ← List.foldl_cons, tree]
      refine fold_fill hdrop (fun i stack ys hys => ?_) (Nat.zero_add d) hd [] stack _ hxs
      refine ih (hrest i) ?_ (Or.inl (List.cons_ne_nil _ _)) stack hys
      rw [List.length_cons, ← hlength, List.length_cons]
      omega

/-- The map gives the nested tables of the elements. -/
theorem map_identity (single : Value S → Lua S P) {b : Bounds} (hpos : ∀ d ∈ dims b, 0 < d)
    (hne : b ≠ []) {elems : List (Option (Value S))} (hlength : elems.length = volume (dims b)) :
    pllua_datum_array_map (identity_map single b elems) () =
      .ok [tree b (elems.map (lua_element single))] := by
  have hb : b.length ≠ 0 := fun h => hne (List.length_eq_zero_iff.mp h)
  have hnelems : nelems b = volume (dims b) := if_neg hb
  have hvolume : ¬ nelems b < 1 := by
    rw [hnelems]
    exact Nat.not_lt.mpr (volume_pos hpos)
  obtain ⟨calls, hrun⟩ := run_identity single b elems (Nat.le_refl elems.length)
  have hxs : (elems.map (lua_element single)).length = volume (dims b) := by
    rw [List.length_map, hlength]
  have hfold : (elems.map (lua_element single)).foldl (step b) ([], []) =
      close b [] [] (tree b (elems.map (lua_element single))) :=
    fold_block hpos b rfl (Nat.zero_add _) (Or.inr hne) [] hxs
  have hall : (elems.map (lua_element single)).take elems.length =
      elems.map (lua_element single) :=
    List.take_of_length_le (Nat.le_of_eq (List.length_map _))
  rw [hall, hfold, hlength, ← hnelems] at hrun
  have hbounds : (identity_map single b elems).bounds () = b := rfl
  rw [pllua_datum_array_map, hbounds, if_neg hvolume, hrun]
  rfl

/-! ## What the nested tables hold -/

/-- `r[k1]...[kn]` of nested tables. -/
def at_path : Lua S P → List Int → Lua S P
  | v, [] => v
  | .table entries, k :: path => at_path (entry (.integer k) entries) path
  | _, _ :: _ => .nil

theorem at_path_nil (path : List Int) : at_path (.nil : Lua S P) path = .nil := by
  cases path with
  | nil => rfl
  | cons k path => rfl

theorem entry_filter {k k' : Int} (h : k ≠ k') (entries : List (Key × Lua S P)) :
    entry (.integer k) (entries.filter (·.1 ≠ .integer k')) = entry (.integer k) entries := by
  induction entries with
  | nil => rfl
  | cons e entries ih =>
    obtain ⟨key, v⟩ := e
    by_cases hkey : key = .integer k'
    · have hk : Key.integer k' ≠ .integer k := by
        rintro ⟨⟩
        exact h rfl
      simp [hkey, entry, hk, ← ih]
    · by_cases hsame : key = .integer k
      · simp [entry, hsame, h]
      · simpa [hkey, entry, hsame] using ih

/-- An entry that is not filled. -/
theorem fill_other {sub : List (Lua S P) → Lua S P} {size : Nat} {lb : Int} {n i : Nat}
    {entries : List (Key × Lua S P)} {xs : List (Lua S P)} {k : Int}
    (h : ∀ j < n, k ≠ ((i + j : Nat) : Int) + lb) :
    entry (.integer k) (fill sub size lb n i entries xs) = entry (.integer k) entries := by
  induction n generalizing i entries xs with
  | zero => rfl
  | succ n ih =>
    have hfirst : k ≠ (i : Int) + lb := h 0 (Nat.succ_pos n)
    have hk : Key.integer (i + lb) ≠ .integer k := by
      rintro ⟨⟩
      exact hfirst rfl
    rw [fill, ih, entry, if_neg hk, entry_filter hfirst]
    intro j hj
    have hnext := h (j + 1) (Nat.succ_lt_succ hj)
    rwa [show i + 1 + j = i + (j + 1) by omega]

/-- The entry for a block. -/
theorem fill_block {sub : List (Lua S P) → Lua S P} {size : Nat} {lb : Int} {n i j : Nat}
    {entries : List (Key × Lua S P)} {xs : List (Lua S P)} (hj : j < n) :
    entry (.integer (((i + j : Nat) : Int) + lb)) (fill sub size lb n i entries xs) =
      sub ((xs.drop (j * size)).take size) := by
  induction n generalizing i j entries xs with
  | zero => exact absurd hj (Nat.not_lt_zero j)
  | succ n ih =>
    rw [fill]
    cases j with
    | zero =>
      rw [fill_other, entry, Nat.add_zero, if_pos rfl, Nat.zero_mul, List.drop_zero]
      intro l _
      omega
    | succ j =>
      have hdrop : (xs.drop size).drop (j * size) = xs.drop ((j + 1) * size) := by
        rw [List.drop_drop, Nat.succ_mul, Nat.add_comm]
      rw [show i + (j + 1) = i + 1 + j by omega, ih (Nat.lt_of_succ_lt_succ hj), hdrop]

theorem fill_block_zero (sub : List (Lua S P) → Lua S P) (size : Nat) (lb : Int) {n j : Nat}
    (xs : List (Lua S P)) (hj : j < n) :
    entry (.integer (j + lb)) (fill sub size lb n 0 [] xs) =
      sub ((xs.drop (j * size)).take size) := by
  have hentry := @fill_block S P sub size lb n 0 j [] xs hj
  rwa [Nat.zero_add] at hentry

/-- A relation between the entries of two lists, block by block. -/
theorem forall₂_blocks {α β : Type} {R : α → β → Prop} {f : Nat → List α} {size d : Nat}
    {xs : List β} (hlength : xs.length = d * size)
    (h : ∀ j < d, List.Forall₂ R (f j) ((xs.drop (j * size)).take size)) :
    List.Forall₂ R ((List.range d).flatMap f) xs := by
  induction d generalizing xs with
  | zero =>
    rw [Nat.zero_mul] at hlength
    rw [List.length_eq_zero_iff.mp hlength]
    exact List.Forall₂.nil
  | succ d ih =>
    rw [Nat.succ_mul] at hlength
    have hlast : (xs.drop (d * size)).take size = xs.drop (d * size) :=
      List.take_of_length_le (by rw [List.length_drop]; omega)
    have hfirst : ∀ j < d, ((xs.take (d * size)).drop (j * size)).take size =
        (xs.drop (j * size)).take size := by
      intro j hj
      have hle : size ≤ d * size - j * size := by
        rw [← Nat.sub_mul]
        exact Nat.le_mul_of_pos_left size (Nat.sub_pos_of_lt hj)
      rw [List.drop_take, List.take_take, Nat.min_eq_left hle]
    rw [List.range_succ, List.flatMap_append, List.flatMap_singleton,
      ← List.take_append_drop (d * size) xs]
    refine List.rel_append (ih ?_ ?_) ?_
    · rw [List.length_take]
      omega
    · intro j hj
      rw [hfirst j hj]
      exact h j (Nat.lt_succ_of_lt hj)
    · rw [← hlast]
      exact h d (Nat.lt_succ_self d)

theorem block_length {α : Type} {xs : List α} {d size j : Nat} (hlength : xs.length = d * size)
    (hj : j < d) : ((xs.drop (j * size)).take size).length = size := by
  have hle : (j + 1) * size ≤ d * size := Nat.mul_le_mul_right size hj
  rw [Nat.succ_mul] at hle
  rw [List.length_take, List.length_drop]
  omega

/-- At each index vector stands its element. -/
theorem tree_at (b : Bounds) {xs : List (Lua S P)} (hlength : xs.length = volume (dims b)) :
    List.Forall₂ (fun path x => at_path (tree b xs) path = x) (row_major_subscripts b) xs := by
  induction b generalizing xs with
  | nil =>
    obtain ⟨v, rfl⟩ := List.length_eq_one_iff.mp hlength
    exact List.Forall₂.cons rfl List.Forall₂.nil
  | cons bound b ih =>
    obtain ⟨d, lb⟩ := bound
    rw [row_major_subscripts_cons]
    refine forall₂_blocks hlength fun j hj => ?_
    rw [List.forall₂_map_left_iff]
    refine (ih (block_length hlength hj)).imp ?_
    intro path x hx
    rw [tree, at_path, fill_block_zero _ _ _ _ hj]
    exact hx

/-- Elsewhere there is nothing. -/
theorem tree_other (b : Bounds) (xs : List (Lua S P)) {path : List Int}
    (hlength : path.length = b.length) (hpath : path ∉ row_major_subscripts b) :
    at_path (tree b xs) path = .nil := by
  induction b generalizing xs path with
  | nil =>
    rw [List.length_eq_zero_iff.mp hlength] at hpath
    exact absurd (List.mem_singleton.mpr rfl) hpath
  | cons bound b ih =>
    obtain ⟨d, lb⟩ := bound
    cases path with
    | nil => cases hlength
    | cons k path =>
      rw [tree, at_path]
      by_cases hk : ∃ j < d, k = (j : Int) + lb
      · obtain ⟨j, hj, rfl⟩ := hk
        rw [fill_block_zero _ _ _ _ hj]
        refine ih _ (Nat.succ.inj hlength) fun hmem => hpath ?_
        rw [row_major_subscripts_cons, List.mem_flatMap]
        exact ⟨j, List.mem_range.mpr hj, List.mem_map.mpr ⟨path, hmem, rfl⟩⟩
      · rw [fill_other, entry]
        · exact at_path_nil path
        · intro j hj hkey
          rw [Nat.zero_add] at hkey
          exact hk ⟨j, hj, hkey⟩

/-! ## The round trip -/

/-- At the path stands the conversion of what the tables hold there, or null where that is
nil. -/
def Stored (lib : Backend S P) (et : Ty) (data : Lua S P) (path : List Int)
    (x : Option (Value S)) : Prop :=
  ∃ item, lookup lib data path = .ok item ∧
    if item.isnil then x = none else constructors.construct lib et item = .ok x

/-- The array holds the conversions in row-major order, and its identity map gives nested tables
of its elements, with nil for a null. -/
def RoundTrips (lib : Backend S P) (single : Value S → Lua S P) (et : Ty) (data : Lua S P)
    (dims : List Nat) (arr : Value S) : Prop :=
  ∃ elems result, arr = .array (from_one dims) elems ∧
    List.Forall₂ (Stored lib et data) (row_major_subscripts (from_one dims)) elems ∧
    pllua_datum_array_map (identity_map single (from_one dims) elems) () = .ok [result] ∧
    List.Forall₂ (fun path x => at_path result path = lua_element single x)
      (row_major_subscripts (from_one dims)) elems ∧
    ∀ path : List Int, path.length = dims.length →
      path ∉ row_major_subscripts (from_one dims) → at_path result path = .nil

/-- What the input of PostgreSQL and of the transforms makes of nil. -/
structure NilLaws (lib : Backend S P) : Prop where
  declined : ∀ t, lib.transform_tosql t .nil = none
  null : ∀ t, lib.from_value t .nil = some (.ok none)
  length : ∀ oid typmod, lib.length_coercion oid typmod none = .ok none

/-- The base type is a row type or an array type. -/
def collects (et : Ty) : Bool := et.is_row || et.is_array

/-- The constructor of a scalar type, of nil. -/
theorem construct_nil (laws : NilLaws lib) {et : Ty} (hscalar : collects et = false) :
    constructors.construct lib et .nil = scalar_checked lib et none := by
  obtain ⟨hrow, harray⟩ := Bool.or_eq_false_iff.mp hscalar
  have helem : elemtypeinfo lib et = none := by
    rw [← Option.not_isSome_iff_eq_none, elemtypeinfo_isSome, harray]
    decide
  have hcolumns : et.columns = none := by
    rwa [← Option.not_isSome_iff_eq_none, ← Ty.is_row, Bool.not_eq_true]
  rw [constructors.construct, pllua_typeinfo_call]
  simp only [Lua.typeinfo, call_by_kind, helem, hcolumns, pllua_typeinfo_scalar_call,
    laws.declined, laws.null]
  rfl

/-- It makes null of nil, if the domain accepts it. -/
theorem scalar_nil (laws : NilLaws lib) {et : Ty} (hscalar : collects et = false)
    (haccepts : domain_accepts lib.accepts et none = true) :
    constructors.construct lib et .nil = .ok none := by
  rw [construct_nil laws hscalar]
  unfold scalar_checked
  split
  · rw [pllua_typeinfo_check_domain]
    have hcoerced : (if et.base.typmod ≠ -1 then
        lib.length_coercion et.base.oid et.base.typmod none else .ok none) = .ok none := by
      split
      · exact laws.length _ _
      · rfl
    rw [hcoerced]
    simp [bind, Except.bind, pure, Except.pure, haccepts]
  · rfl

/-- It makes nothing else of nil. -/
theorem scalar_nil_eq (laws : NilLaws lib) {et : Ty} (hscalar : collects et = false)
    {v : Option (Value S)} (h : constructors.construct lib et .nil = .ok v) : v = none := by
  rw [construct_nil laws hscalar] at h
  unfold scalar_checked at h
  split at h
  · obtain ⟨val, hval, h⟩ := bind_eq_ok h
    split at h
    · cases h
      split at hval
      · rw [laws.length] at hval
        cases hval
        rfl
      · cases hval
        rfl
    · cases h
  · cases h
    rfl

/-- The constructor of a row type makes a row of nil, and that of an array type an array. -/
theorem collection_nil {et : Ty} (hcollects : collects et = true) {x : Option (Value S)}
    (h : constructors.construct lib et .nil = .ok x) : x ≠ none := by
  rw [constructors.construct, pllua_typeinfo_call] at h
  cases helem : elemtypeinfo lib et with
  | some elem =>
    -- one element, which is made of nil
    simp only [Lua.typeinfo, call_by_kind, helem] at h
    obtain ⟨value, -, rfl⟩ := map_eq_ok h
    exact Option.some_ne_none value
  | none =>
    have harray : et.is_array = false := by
      rw [← @elemtypeinfo_isSome _ _ lib et, helem]
      rfl
    rw [collects, harray, Bool.or_false] at hcollects
    obtain ⟨columns, hcolumns⟩ := Option.isSome_iff_exists.mp hcollects
    simp only [Lua.typeinfo, call_by_kind, helem, hcolumns] at h
    obtain ⟨value, -, rfl⟩ := map_eq_ok h
    exact Option.some_ne_none value

/-- What is stored at a path, by what stands there in the tables. -/
theorem stored_of_converted (laws : NilLaws lib) {et : Ty}
    (haccepts : domain_accepts lib.accepts et none = true) {data : Lua S P} {path : List Int}
    {x : Option (Value S)} (h : Converted lib (constructors.construct lib et) data path x)
    (hitem : collects et = false ∨ ∀ item, lookup lib data path = .ok item → item.isnil = false) :
    Stored lib et data path x := by
  obtain ⟨item, hlookup, hx⟩ := h
  refine ⟨item, hlookup, ?_⟩
  by_cases hnil : item.isnil = true
  · rw [if_pos hnil]
    rcases hitem with hscalar | hitem
    · cases item with
      | nil =>
        rw [scalar_nil laws hscalar haccepts] at hx
        cases hx
        rfl
      | _ => cases hnil
    · rw [hitem item hlookup] at hnil
      cases hnil
  · rw [if_neg hnil]
    exact hx

/-- A row or an array stands where a null should. -/
theorem no_nil_of_stored {et : Ty} (hcollects : collects et = true) {data : Lua S P} {path : List Int}
    {x : Option (Value S)} (hstored : Stored lib et data path x)
    (hconverted : Converted lib (constructors.construct lib et) data path x) :
    ∀ item, lookup lib data path = .ok item → item.isnil = false := by
  intro item hlookup
  obtain ⟨other, hother, hx⟩ := hconverted
  obtain ⟨third, hthird, hnull⟩ := hstored
  rw [hlookup] at hother hthird
  cases hother
  cases hthird
  cases item with
  | nil => exact absurd hnull (collection_nil hcollects hx)
  | _ => rfl

theorem dims_from_one (ds : List Nat) : dims (from_one ds) = ds := by
  simp [dims, from_one, Function.comp_def]

theorem row_major_subscripts_length (b : Bounds) :
    (row_major_subscripts b).length = volume (dims b) := by
  rw [row_major_subscripts, List.length_map, row_major_length]

/-- An array of nested tables goes to the server and back, just if its elements are neither rows
nor arrays, or none of the tables' items is nil. -/
theorem nested_tables_round_trip_iff (laws : NilLaws lib) (single : Value S → Lua S P) (et : Ty)
    (haccepts : domain_accepts lib.accepts et none = true)
    (data : Lua S P) {dims : List Nat} (hpos : ∀ d ∈ dims, 0 < d) (hne : dims ≠ [])
    {arr : Value S}
    (h : pllua_typeinfo_array_fromtable lib (constructors.construct lib et) data dims = .ok arr) :
    RoundTrips lib single et data dims arr ↔
      collects et = false ∨ ∀ path ∈ row_major_subscripts (from_one dims),
        ∀ item, lookup lib data path = .ok item → item.isnil = false := by
  obtain ⟨elems, hnested, rfl⟩ := array_fromtable_ok hpos hne h
  have hconverted := nested_converted hnested
  have hlength : elems.length = volume (arraymap.dims (from_one dims)) := by
    rw [← hconverted.length_eq, row_major_subscripts_length]
  constructor
  · rintro ⟨other, result, hother, hstored, -⟩
    cases hother
    by_cases hcollects : collects et = true
    · have hboth := hstored.mp
        (fun path x hs hc => And.intro (no_nil_of_stored hcollects hs hc) trivial) hconverted
      exact Or.inr ((List.forall₂_and_left _ _).mp hboth).1
    · exact Or.inl (Bool.not_eq_true _ ▸ hcollects)
  · intro hitem
    have hstored : List.Forall₂ (Stored lib et data) (row_major_subscripts (from_one dims)) elems := by
      have hpaths : ∀ path ∈ row_major_subscripts (from_one dims), collects et = false ∨
          ∀ item, lookup lib data path = .ok item → item.isnil = false :=
        fun path hpath => hitem.imp_right fun hall => hall path hpath
      refine ((List.forall₂_and_left _ _).mpr ⟨hpaths, hconverted⟩).imp ?_
      rintro path x ⟨hpath, hx⟩
      exact stored_of_converted laws haccepts hx hpath
    have hpos' : ∀ d ∈ arraymap.dims (from_one dims), 0 < d := by
      rw [dims_from_one]
      exact hpos
    have hne' : from_one dims ≠ [] := fun hnil => hne (List.map_eq_nil_iff.mp hnil)
    have hxs : (elems.map (lua_element single)).length = volume (arraymap.dims (from_one dims)) := by
      rw [List.length_map, hlength]
    have htree := tree_at (from_one dims) hxs
    rw [List.forall₂_map_right_iff] at htree
    refine ⟨elems, _, rfl, hstored, map_identity single hpos' hne' hlength, htree, ?_⟩
    intro path hpath
    exact tree_other _ _ (hpath.trans (List.length_map _).symm)

end

/-! ## A hole in a table -/

theorem integers_nil : NilLaws integers where
  declined _ := rfl
  null _ := rfl
  length _ _ := rfl

/-- An integer as Lua sees it. -/
def lua_integer : Value Int → Lua Int Empty
  | .scalar k => .integer k
  | _ => .nil

/-- Two rows of two columns, the second one with a hole. -/
theorem integers_with_a_hole_round_trip :
    RoundTrips integers lua_integer (.scalar 23 (-1))
        (.table [(.integer 1, .table [(.integer 1, .integer 5), (.integer 2, .integer 6)]),
          (.integer 2, .table [(.integer 2, .integer 7)])]) [2, 2]
        (.array [(2, 1), (2, 1)] [some (.scalar 5), some (.scalar 6), none, some (.scalar 7)]) ↔
      collects (.scalar 23 (-1)) = false ∨
        ∀ path ∈ row_major_subscripts (from_one [2, 2]), ∀ item,
          lookup integers
            (.table [(.integer 1, .table [(.integer 1, .integer 5), (.integer 2, .integer 6)]),
              (.integer 2, .table [(.integer 2, .integer 7)])]) path = .ok item →
            item.isnil = false :=
  nested_tables_round_trip_iff integers_nil lua_integer _ rfl _ (by decide) (by decide) rfl

-- a hole in a table of a domain over an array type
example : pllua_typeinfo_array_fromtable integers
    (construct integers (.domain 200 (.array 1007 (-1) (.scalar 23 (-1))))) (.table []) [1] =
      .ok (.array [(1, 1)] [some (.array [(1, 1)] [none])]) := rfl

/-- An element type with one column. -/
def one_column : Ty := .row 100 (.column "a" (.scalar 23 (-1)) .nil)

/-- A hole becomes a row of nulls. -/
theorem a_hole_becomes_a_row :
    pllua_typeinfo_array_fromtable integers (construct integers one_column) (.table []) [1] =
      .ok (.array [(1, 1)] [some (.row [none])]) ∧
    ¬ RoundTrips integers lua_integer one_column (.table []) [1]
      (.array [(1, 1)] [some (.row [none])]) := by
  refine ⟨rfl, ?_⟩
  rintro ⟨elems, result, harr, hstored, -⟩
  cases harr
  obtain ⟨item, hlookup, hx⟩ := (List.forall₂_cons.mp hstored).1
  cases hlookup
  cases hx

end pllua.arraytables
