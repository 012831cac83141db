-- What pllua_jsonb_map makes of a jsonb when it keeps numerics and calls no map
-- function: the tables of the document, each marked as an array or an object.
import Pllua.JsonbToSql
import Mathlib.Algebra.Group.Nat.Defs

open pllua.documents pllua.luavalue pllua.luavalue.LuaValue

namespace pllua.jsonb

variable {N D J P : Type}

/-! ## The tables of a document -/

section
variable (nv : LuaValue N D)

/-- The Lua value of a scalar, and the next reference. -/
def scalarOf (next : Nat) : Scalar N → LuaValue N D × Nat
  | .null => (nv, next)
  | .bool b => (.boolean b, next)
  | .numeric n => (.numeric next n, next + 1)
  | .string s => (.string s, next)

mutual
/-- The Lua value of a document; the references count up from `next`. -/
def tableOf (next : Nat) : Json N → LuaValue N D × Nat
  | .scalar s => scalarOf nv next s
  | .array xs =>
    (.table next (some array_mt) (elemsOf 0 (next + 1) xs).1, (elemsOf 0 (next + 1) xs).2)
  | .object ms =>
    (.table next (some object_mt) (membersOf (next + 1) ms).1, (membersOf (next + 1) ms).2)

/-- The fields of the elements that come after the first `i`. -/
def elemsOf (i : Int) (next : Nat) : List (Json N) → List (LuaValue N D × LuaValue N D) × Nat
  | [] => ([], next)
  | x :: xs =>
    ((.integer (i + 1), (tableOf next x).1) :: (elemsOf (i + 1) (tableOf next x).2 xs).1,
      (elemsOf (i + 1) (tableOf next x).2 xs).2)

def membersOf (next : Nat) :
    List (Bytes × Json N) → List (LuaValue N D × LuaValue N D) × Nat
  | [] => ([], next)
  | m :: ms =>
    ((.string m.1, (tableOf next m.2).1) :: (membersOf (tableOf next m.2).2 ms).1,
      (membersOf (tableOf next m.2).2 ms).2)
end

variable {nv}

theorem scalarOf_not_nil (hnv : nv.isnil = false) (next : Nat) (s : Scalar N) :
    (scalarOf nv next s).1.isnil = false := by
  cases s with
  | null => exact hnv
  | bool b => rfl
  | numeric n => rfl
  | string s => rfl

theorem tableOf_not_nil (hnv : nv.isnil = false) (next : Nat) (d : Json N) :
    (tableOf nv next d).1.isnil = false := by
  cases d with
  | scalar s => exact scalarOf_not_nil hnv next s
  | array xs => rfl
  | object ms => rfl

end

/-! ## References and keys of the tables -/

theorem elemsOf_le {nv : LuaValue N D} {xs : List (Json N)}
    (ih : ∀ x ∈ xs, ∀ r, r ≤ (tableOf nv r x).2) (i : Int) (next : Nat) :
    next ≤ (elemsOf nv i next xs).2 := by
  induction xs generalizing i next with
  | nil => exact Nat.le_refl next
  | cons x xs ihxs =>
    have hx := ih x List.mem_cons_self next
    have hxs := ihxs (fun y hy => ih y (List.mem_cons_of_mem x hy)) (i + 1) (tableOf nv next x).2
    exact hx.trans hxs

theorem membersOf_le {nv : LuaValue N D} {ms : List (Bytes × Json N)}
    (ih : ∀ m ∈ ms, ∀ r, r ≤ (tableOf nv r m.2).2) (next : Nat) :
    next ≤ (membersOf nv next ms).2 := by
  induction ms generalizing next with
  | nil => exact Nat.le_refl next
  | cons m ms ihms =>
    have hm := ih m List.mem_cons_self next
    have hms := ihms (fun n hn => ih n (List.mem_cons_of_mem m hn)) (tableOf nv next m.2).2
    exact hm.trans hms

/-- The references only count up. -/
theorem tableOf_le (nv : LuaValue N D) (d : Json N) (r : Nat) : r ≤ (tableOf nv r d).2 := by
  induction d using Doc.induct generalizing r with
  | scalar s => cases s <;> simp [tableOf, scalarOf]
  | array xs ih => exact (Nat.le_succ r).trans (elemsOf_le ih 0 (r + 1))
  | object ms ih => exact (Nat.le_succ r).trans (membersOf_le ih (r + 1))

/-- The field of an element holds its value. -/
theorem elemsOf_get (nv : LuaValue N D) {xs : List (Json N)} (i : Int) (next : Nat) {n : Nat}
    {x : Json N} (h : xs[n]? = some x) :
    ∃ r ≥ next, (.integer (i + 1 + n), (tableOf nv r x).1) ∈ (elemsOf nv i next xs).1 := by
  induction xs generalizing i next n with
  | nil => cases h
  | cons y xs ih =>
    cases n with
    | zero =>
      cases h
      refine ⟨next, Nat.le_refl next, ?_⟩
      rw [Int.natCast_zero, Int.add_zero]
      exact List.mem_cons_self
    | succ n =>
      obtain ⟨r, hr, hmem⟩ := ih (i + 1) (tableOf nv next y).2 h
      refine ⟨r, (tableOf_le nv y next).trans hr, ?_⟩
      rw [Nat.cast_succ, Int.add_comm (n : Int), ← Int.add_assoc (i + 1)]
      exact List.mem_cons_of_mem _ hmem

/-- The field of a member holds its value. -/
theorem membersOf_get (nv : LuaValue N D) {ms : List (Bytes × Json N)} (next : Nat)
    {m : Bytes × Json N} (h : m ∈ ms) :
    ∃ r ≥ next, (.string m.1, (tableOf nv r m.2).1) ∈ (membersOf nv next ms).1 := by
  induction ms generalizing next with
  | nil => cases h
  | cons n ms ih =>
    rcases List.mem_cons.mp h with rfl | h
    · exact ⟨next, Nat.le_refl next, List.mem_cons_self⟩
    · obtain ⟨r, hr, hmem⟩ := ih (tableOf nv next n.2).2 h
      exact ⟨r, (tableOf_le nv n.2 next).trans hr, List.mem_cons_of_mem _ hmem⟩

theorem elemsOf_key {nv : LuaValue N D} {xs : List (Json N)} {i : Int} {next : Nat}
    {f : LuaValue N D × LuaValue N D} (hf : f ∈ (elemsOf nv i next xs).1) :
    ∃ j, i < j ∧ f.1 = .integer j := by
  induction xs generalizing i next with
  | nil => cases hf
  | cons x xs ih =>
    rcases List.mem_cons.mp hf with rfl | hf
    · exact ⟨i + 1, by omega, rfl⟩
    · obtain ⟨j, hj, hk⟩ := ih hf
      exact ⟨j, by omega, hk⟩

theorem elemsOf_distinct (nv : LuaValue N D) (xs : List (Json N)) (i : Int) (next : Nat) :
    (elemsOf nv i next xs).1.Pairwise fun f g => rawequal f.1 g.1 = false := by
  induction xs generalizing i next with
  | nil => exact List.Pairwise.nil
  | cons x xs ih =>
    refine List.pairwise_cons.mpr ⟨?_, ih _ _⟩
    intro f hf
    obtain ⟨j, hj, hk⟩ := elemsOf_key hf
    rw [hk, rawequal_integer]
    exact beq_eq_false_iff_ne.mpr (by omega)

theorem membersOf_keys (nv : LuaValue N D) (ms : List (Bytes × Json N)) (next : Nat) :
    (membersOf nv next ms).1.map Prod.fst = ms.map fun m => .string m.1 := by
  induction ms generalizing next with
  | nil => rfl
  | cons m ms ih => rw [membersOf, List.map_cons, ih, List.map_cons]

theorem membersOf_distinct {nv : LuaValue N D} {ms : List (Bytes × Json N)}
    (h : (ms.map Prod.fst).Nodup) (next : Nat) :
    (membersOf nv next ms).1.Pairwise fun f g => rawequal f.1 g.1 = false := by
  have hk : ((membersOf nv next ms).1.map Prod.fst).Pairwise
      fun a b => rawequal a b = false := by
    rw [membersOf_keys, List.pairwise_map]
    refine (List.pairwise_map.mp h).imp ?_
    intro m n hmn
    exact beq_eq_false_iff_ne.mpr hmn
  exact List.pairwise_map.mp hk

/-! ## The run over the tokens -/

/-- The config table of the round trip: a null value, and numerics kept. -/
def keeping (nv : LuaValue N D) : MapConfig N D := ⟨none, false, false, true, nv⟩

@[simp] theorem keeping_map (nv : LuaValue N D) : (keeping nv).map = none := rfl

@[simp] theorem keeping_discard (nv : LuaValue N D) : (keeping nv).discard = false := rfl

@[simp] theorem keeping_norecurse (nv : LuaValue N D) : (keeping nv).norecurse = false := rfl

/-- A value on top of a slot of its parent goes into the parent. The slot of an
array holds the count of its elements, that of an object the key. -/
inductive Attaches (x : LuaValue N D) :
    (Scalar N → Token Bytes (Scalar N)) → List (LuaValue N D) → List (LuaValue N D) → Prop
  | elem {i : Int} {t t' : LuaValue N D} {rest : List (LuaValue N D)} :
    0 ≤ i → i + 1 < 2 ^ 31 → t.settable (.integer (i + 1)) x = .ok t' →
    Attaches x .elem (.integer i :: t :: rest) (.integer (i + 1) :: t' :: rest)
  | value {k : Bytes} {t t' : LuaValue N D} {rest : List (LuaValue N D)} :
    t.settable (.string k) x = .ok t' → Attaches x .value (.string k :: t :: rest) (t' :: rest)

section
variable (lib : LuaLib N D) (b : Backend N D J P) {nv : LuaValue N D}

/-- The machine over a list of tokens. -/
def maprun (nv : LuaValue N D) (st : MapState N D) (ts : List (Token Bytes (Scalar N))) :
    Except String (MapState N D) :=
  (ts.map event).foldlM (maptoken lib b (keeping nv) false) st

variable {lib b}

theorem maprun_cons (st : MapState N D) (t : Token Bytes (Scalar N))
    (ts : List (Token Bytes (Scalar N))) :
    maprun lib b nv st (t :: ts) =
      (maptoken lib b (keeping nv) false st (event t)).bind fun st => maprun lib b nv st ts := rfl

theorem maprun_append {st st' : MapState N D} {ts us : List (Token Bytes (Scalar N))}
    (h : maprun lib b nv st ts = .ok st') :
    maprun lib b nv st (ts ++ us) = maprun lib b nv st' us := by
  rw [maprun, List.map_append, List.foldlM_append]
  rw [maprun] at h
  rw [h]
  rfl

theorem toint_succ {i : Int} (h0 : 0 ≤ i) (h : i + 1 < 2 ^ 31) :
    (toint i + 1).toInt = i + 1 := by
  have hadd : toint i + 1 = BitVec.ofInt 32 (i + 1) := by
    rw [BitVec.ofInt_add]
    rfl
  rw [hadd, BitVec.toInt_ofInt]
  exact Int.bmod_eq_of_le (by omega) (by omega)

theorem pushvalue_scalar (st : MapState N D) (s : Scalar N) :
    pushvalue b (keeping nv) st s.toJsonbValue =
      { st with
        stack := (scalarOf nv st.next s).1 :: st.stack
        next := (scalarOf nv st.next s).2 } := by
  cases s <;> rfl

/-- A scalar goes where it stands. -/
theorem maptoken_scalar {st : MapState N D} {w : Scalar N → Token Bytes (Scalar N)} {s : Scalar N}
    {stack : List (LuaValue N D)} (h : Attaches (scalarOf nv st.next s).1 w st.stack stack) :
    maptoken lib b (keeping nv) false st (event (w s)) =
      .ok { st with stack := stack, next := (scalarOf nv st.next s).2 } := by
  generalize hs : st.stack = stk at h
  cases h with
  | elem h0 h1 ht =>
    rw [event, maptoken, pushvalue_scalar]
    simp only [MapState.below, hs, List.getElem?_cons_succ, List.getElem?_cons_zero,
      Option.getD_some, lua_tointeger, lua_tointegerx, toint_succ h0 h1]
    rw [keeping_map, MapState.callmap_none, ok_bind, MapState.seti_ok _ rfl ht]
    rfl
  | value ht =>
    have hset := MapState.settable_ok (pushvalue b (keeping nv) st s.toJsonbValue)
      (by rw [pushvalue_scalar, hs]) ht
    rw [pushvalue_scalar] at hset
    simp only [event, maptoken, pushvalue_scalar, keeping_map, keeping_discard,
      MapState.callmap_none, ok_bind, Bool.false_eq_true, if_false]
    exact hset

/-- The end of a container inside another. -/
theorem endcontainer_nested {st : MapState N D} {x : LuaValue N D}
    {w : Scalar N → Token Bytes (Scalar N)} {stack stack' : List (LuaValue N D)}
    (hs : st.stack = x :: stack) (h : Attaches x w stack stack') :
    endcontainer lib (keeping nv) st =
      .ok { st with stack := stack', patht_len := st.patht_len - 1 } := by
  cases h with
  | elem h0 h1 ht =>
    have hset := MapState.seti_ok { st with patht_len := st.patht_len - 1 } hs ht
    simp only [endcontainer, MapState.below, hs, List.getElem?_cons_succ,
      List.getElem?_cons_zero, Option.getD_some, isnil, keeping_map, keeping_discard, Bool.false_eq_true, if_false,
      MapState.callmap_none, ok_bind, isinteger, if_true, lua_tointeger, lua_tointegerx,
      toint_succ h0 h1] at hset ⊢
    rw [hset]
    rfl
  | value ht =>
    have hset := MapState.settable_ok { st with patht_len := st.patht_len - 1 } hs ht
    simp only [endcontainer, MapState.below, hs, List.getElem?_cons_succ,
      List.getElem?_cons_zero, Option.getD_some, isnil, keeping_map, keeping_discard, Bool.false_eq_true, if_false,
      MapState.callmap_none, ok_bind, isinteger] at hset ⊢
    exact hset

/-- The end of the outermost container. -/
theorem endcontainer_toplevel {st : MapState N D} (h : st.below = .nil) :
    endcontainer lib (keeping nv) st = .ok st := by
  rw [endcontainer]
  simp [h, isnil]

/-- A member that has no key in the table yet goes to its end. -/
theorem settable_fresh {ref : Nat} {mt : Option (Metatable (LuaValue N D))}
    {fs : List (LuaValue N D × LuaValue N D)} {key val : LuaValue N D}
    (hkey : key.isnil = false) (hval : val.isnil = false)
    (h : ∀ f ∈ fs, rawequal f.1 key = false) :
    (LuaValue.table ref mt fs).settable key val = .ok (.table ref mt (fs ++ [(key, val)])) := by
  rw [LuaValue.settable, if_neg (by simp [hkey]), setfield_fresh hval h]

/-- The tokens of a document put its value where it stands. -/
def Attached (lib : LuaLib N D) (b : Backend N D J P) (nv : LuaValue N D) (d : Json N) : Prop :=
  ∀ (st : MapState N D) (w : Scalar N → Token Bytes (Scalar N)) (stack : List (LuaValue N D)),
    Attaches (tableOf nv st.next d).1 w st.stack stack →
    ∃ patht, maprun lib b nv st (d.listed w) =
      .ok { st with stack := stack, patht := patht, next := (tableOf nv st.next d).2 }

theorem maprun_elems (hnv : nv.isnil = false) {xs : List (Json N)}
    (ih : ∀ x ∈ xs, Attached lib b nv x) (st : MapState N D) {i : Int} {ref : Nat}
    {mt : Option (Metatable (LuaValue N D))} {fs : List (LuaValue N D × LuaValue N D)}
    {rest : List (LuaValue N D)} (hs : st.stack = .integer i :: .table ref mt fs :: rest)
    (hi : 0 ≤ i) (hlen : i + xs.length < 2 ^ 31)
    (hfs : ∀ f ∈ fs, ∃ j ≤ i, f.1 = .integer j) :
    ∃ patht, maprun lib b nv st (listedElems xs) =
      .ok { st with
        stack := .integer (i + xs.length) ::
          .table ref mt (fs ++ (elemsOf nv i st.next xs).1) :: rest
        patht := patht
        next := (elemsOf nv i st.next xs).2 } := by
  induction xs generalizing st i fs with
  | nil =>
    refine ⟨st.patht, ?_⟩
    simp [maprun, listedElems, elemsOf, ← hs]
    rfl
  | cons x xs ihxs =>
    have hfresh : ∀ f ∈ fs, rawequal f.1 (.integer (i + 1)) = false := by
      intro f hf
      obtain ⟨j, hj, hk⟩ := hfs f hf
      rw [hk, rawequal_integer]
      exact beq_eq_false_iff_ne.mpr (by omega)
    have hset : (LuaValue.table ref mt fs).settable (.integer (i + 1)) (tableOf nv st.next x).1 =
        .ok (.table ref mt (fs ++ [(.integer (i + 1), (tableOf nv st.next x).1)])) :=
      settable_fresh rfl (tableOf_not_nil hnv st.next x) hfresh
    have hlen' : i + 1 + (xs.length : Int) = i + ((x :: xs).length : Nat) := by
      rw [List.length_cons]
      omega
    obtain ⟨patht, hx⟩ := ih x List.mem_cons_self st .elem _
      (hs ▸ Attaches.elem hi (by omega) hset)
    have hfs' : ∀ f ∈ fs ++ [(.integer (i + 1), (tableOf nv st.next x).1)],
        ∃ j ≤ i + 1, f.1 = .integer j := by
      intro f hf
      rcases List.mem_append.mp hf with hf | hf
      · obtain ⟨j, hj, hk⟩ := hfs f hf
        exact ⟨j, by omega, hk⟩
      · rw [List.mem_singleton.mp hf]
        exact ⟨i + 1, by omega, rfl⟩
    obtain ⟨patht', hxs⟩ := ihxs (fun y hy => ih y (List.mem_cons_of_mem x hy))
      { st with
        stack := .integer (i + 1) ::
          .table ref mt (fs ++ [(.integer (i + 1), (tableOf nv st.next x).1)]) :: rest
        patht := patht
        next := (tableOf nv st.next x).2 } rfl (by omega) (by omega) hfs'
    refine ⟨patht', ?_⟩
    rw [listedElems, maprun_append hx, hxs, hlen', elemsOf, List.append_assoc]
    rfl

theorem maprun_members (hnv : nv.isnil = false) {ms : List (Bytes × Json N)}
    (hnd : (ms.map Prod.fst).Nodup) (ih : ∀ m ∈ ms, Attached lib b nv m.2) (st : MapState N D)
    {ref : Nat} {mt : Option (Metatable (LuaValue N D))}
    {fs : List (LuaValue N D × LuaValue N D)} {rest : List (LuaValue N D)}
    (hs : st.stack = .table ref mt fs :: rest)
    (hfs : ∀ f ∈ fs, ∃ k, k ∉ ms.map Prod.fst ∧ f.1 = .string k) :
    ∃ patht, maprun lib b nv st (listedMembers ms) =
      .ok { st with
        stack := .table ref mt (fs ++ (membersOf nv st.next ms).1) :: rest
        patht := patht
        next := (membersOf nv st.next ms).2 } := by
  induction ms generalizing st fs with
  | nil =>
    refine ⟨st.patht, ?_⟩
    simp [maprun, listedMembers, membersOf, ← hs]
    rfl
  | cons m ms ihms =>
    obtain ⟨hm, hms⟩ := List.nodup_cons.mp hnd
    have hfresh : ∀ f ∈ fs, rawequal f.1 (.string m.1) = false := by
      intro f hf
      obtain ⟨k, hk, hf1⟩ := hfs f hf
      rw [hf1, rawequal_string]
      exact beq_eq_false_iff_ne.mpr fun h => hk (h ▸ List.mem_cons_self)
    have hset : (LuaValue.table ref mt fs).settable (.string m.1) (tableOf nv st.next m.2).1 =
        .ok (.table ref mt (fs ++ [(.string m.1, (tableOf nv st.next m.2).1)])) :=
      settable_fresh rfl (tableOf_not_nil hnv st.next m.2) hfresh
    obtain ⟨patht, hx⟩ := ih m List.mem_cons_self (st.push (.string m.1)) .value _
      (by rw [MapState.push, hs]; exact Attaches.value hset)
    have hfs' : ∀ f ∈ fs ++ [(.string m.1, (tableOf nv st.next m.2).1)],
        ∃ k, k ∉ ms.map Prod.fst ∧ f.1 = .string k := by
      intro f hf
      rcases List.mem_append.mp hf with hf | hf
      · obtain ⟨k, hk, hf1⟩ := hfs f hf
        exact ⟨k, fun h => hk (List.mem_cons_of_mem _ h), hf1⟩
      · rw [List.mem_singleton.mp hf]
        exact ⟨m.1, hm, rfl⟩
    obtain ⟨patht', hxs⟩ := ihms hms (fun n hn => ih n (List.mem_cons_of_mem m hn))
      { st with
        stack := .table ref mt (fs ++ [(.string m.1, (tableOf nv st.next m.2).1)]) :: rest
        patht := patht
        next := (tableOf nv st.next m.2).2 } rfl hfs'
    refine ⟨patht', ?_⟩
    have hkey : maptoken lib b (keeping nv) false st (event (.key m.1)) =
        .ok (st.push (.string m.1)) := rfl
    rw [listedMembers, maprun_cons, hkey, Except.bind, maprun_append hx]
    refine Eq.trans hxs ?_
    rw [membersOf, List.append_assoc]
    rfl

variable (lib b)

/-- An array up to its end, on whatever lies below. -/
theorem maprun_array (hnv : nv.isnil = false) {xs : List (Json N)}
    (ih : ∀ x ∈ xs, Attached lib b nv x) (hlen : xs.length < 2 ^ 31) (st : MapState N D) :
    ∃ patht, maprun lib b nv st (.beginArray :: listedElems xs) =
      .ok { st with
        stack := .integer xs.length :: (tableOf nv st.next (.array xs)).1 :: st.stack
        patht := patht
        patht_len := st.pushpath.patht_len
        next := (tableOf nv st.next (.array xs)).2 } := by
  obtain ⟨patht, h⟩ := maprun_elems hnv ih ((st.pushpath.newtable array_mt).push (.integer 0))
    rfl (le_refl 0) (by omega) (by simp)
  refine ⟨patht, ?_⟩
  rw [maprun_cons]
  refine Eq.trans h ?_
  simp [MapState.push, MapState.newtable, tableOf]

/-- An object up to its end. -/
theorem maprun_object (hnv : nv.isnil = false) {ms : List (Bytes × Json N)}
    (hnd : (ms.map Prod.fst).Nodup) (ih : ∀ m ∈ ms, Attached lib b nv m.2) (st : MapState N D) :
    ∃ patht, maprun lib b nv st (.beginObject :: listedMembers ms) =
      .ok { st with
        stack := (tableOf nv st.next (.object ms)).1 :: st.stack
        patht := patht
        patht_len := st.pushpath.patht_len
        next := (tableOf nv st.next (.object ms)).2 } := by
  obtain ⟨patht, h⟩ := maprun_members hnv hnd ih (st.pushpath.newtable object_mt) rfl (by simp)
  refine ⟨patht, ?_⟩
  rw [maprun_cons]
  refine Eq.trans h ?_
  simp [MapState.newtable, tableOf]

variable {lib b}

/-- The slot of a parent is not nil, so a container in it goes on the path. -/
theorem attaches_head {x : LuaValue N D} {w : Scalar N → Token Bytes (Scalar N)}
    {stack stack' : List (LuaValue N D)} (h : Attaches x w stack stack') :
    (stack.head?.getD .nil).isnil = false := by
  cases h <;> rfl

/-- The token at the end of a container. -/
theorem maptoken_end (st : MapState N D) :
    maptoken lib b (keeping nv) false st (event .endObject) =
      endcontainer lib (keeping nv) st ∧
    maptoken lib b (keeping nv) false st (event .endArray) =
      endcontainer lib (keeping nv) st.pop := ⟨rfl, rfl⟩

/-- The last token of a container takes its value to the slot of the parent, and
its key off the path. -/
theorem maprun_end {st : MapState N D} {x : LuaValue N D} {patht : Int → LuaValue N D} {next : Nat}
    {w : Scalar N → Token Bytes (Scalar N)} {stack : List (LuaValue N D)}
    (h : Attaches x w st.stack stack) :
    endcontainer lib (keeping nv)
        { st with
          stack := x :: st.stack
          patht := patht
          patht_len := st.pushpath.patht_len
          next := next } =
      .ok { st with stack := stack, patht := patht, next := next } := by
  rw [endcontainer_nested rfl h, st.pushpath_len (attaches_head h), Int.add_sub_cancel]

theorem length_of_counts {xs : List (Json N)} (h : counts_fit (.array xs)) :
    xs.length < 2 ^ 31 := by
  have := of_decide_eq_true h
  rw [JB_CMASK] at this
  omega

/-- The step of the machine at any depth: a document goes where it stands. -/
theorem maprun_doc {keylt : Bytes → Bytes → Bool} (ho : StrictOrder keylt)
    (hnv : nv.isnil = false) {d : Json N} (hc : d.Canonical keylt) (hcount : d.all counts_fit) :
    Attached lib b nv d := by
  induction d using Doc.induct with
  | scalar s =>
    intro st w stack h
    refine ⟨st.patht, ?_⟩
    rw [Doc.listed, maprun_cons, maptoken_scalar h]
    rfl
  | array xs ih =>
    intro st w stack h
    obtain ⟨-, hxs⟩ := (all_array _ xs).mp hc
    obtain ⟨hlen, hcs⟩ := (all_array _ xs).mp hcount
    obtain ⟨patht, hrun⟩ := maprun_array lib b hnv
      (fun x hx => ih x hx (hxs x hx) (hcs x hx)) (length_of_counts hlen) st
    refine ⟨patht, ?_⟩
    rw [Doc.listed, ← List.cons_append, maprun_append hrun, maprun_cons, (maptoken_end _).2,
      MapState.pop]
    simp only [List.drop_succ_cons, List.drop_zero]
    rw [maprun_end h]
    rfl
  | object ms ih =>
    intro st w stack h
    obtain ⟨hinc, hms⟩ := (all_object _ ms).mp hc
    obtain ⟨-, hcs⟩ := (all_object _ ms).mp hcount
    obtain ⟨patht, hrun⟩ := maprun_object lib b hnv
      (keys_nodup_of_increase ho (of_decide_eq_true hinc))
      (fun m hm => ih m hm (hms m hm) (hcs m hm)) st
    refine ⟨patht, ?_⟩
    rw [Doc.listed, ← List.cons_append, maprun_append hrun]
    rw [maprun_cons, (maptoken_end _).1, maprun_end h]
    rfl

end

/-! ## The result of the map -/

/-- The Lua value of a whole jsonb. A container without members is a table
without a metatable. -/
def mappedTo (nv : LuaValue N D) (next : Nat) (d : Json N) : LuaValue N D :=
  if root_count d = 0 then .table next none [] else (tableOf nv (next + 1) d).1

section
variable (lib : LuaLib N D) {b : Backend N D J P} {keylt : Bytes → Bytes → Bool}
  {value : J → Json N}

/-- The state before the first token: the table of the path lies under the nil. -/
def mapstart (next : Nat) : MapState N D :=
  ⟨[.nil, .table next none []], fun _ => .nil, 0, next + 1, []⟩

/-- The machine on a whole container. -/
theorem maprun_toplevel (b : Backend N D J P) (ho : StrictOrder keylt) {nv : LuaValue N D} (hnv : nv.isnil = false)
    (next : Nat) {d : Json N} (hd : root_is_scalar d = false) (hc : d.Canonical keylt)
    (hcount : d.all counts_fit) :
    ∃ st, maprun lib b nv (mapstart next) (d.listed .elem) = .ok st ∧
      st.stack.head? = some (tableOf nv (next + 1) d).1 ∧ st.calls = [] := by
  cases d with
  | scalar s => cases hd
  | array xs =>
    obtain ⟨-, hxs⟩ := (all_array _ xs).mp hc
    obtain ⟨hlen, hcs⟩ := (all_array _ xs).mp hcount
    obtain ⟨patht, hrun⟩ := maprun_array lib b hnv
      (fun x hx => maprun_doc ho hnv (hxs x hx) (hcs x hx)) (length_of_counts hlen)
      (mapstart next)
    rw [Doc.listed, ← List.cons_append, maprun_append hrun, maprun_cons, (maptoken_end _).2,
      MapState.pop, endcontainer_toplevel rfl]
    exact ⟨_, rfl, rfl, rfl⟩
  | object ms =>
    obtain ⟨hinc, hms⟩ := (all_object _ ms).mp hc
    obtain ⟨-, hcs⟩ := (all_object _ ms).mp hcount
    obtain ⟨patht, hrun⟩ := maprun_object lib b hnv
      (keys_nodup_of_increase ho (of_decide_eq_true hinc))
      (fun m hm => maprun_doc ho hnv (hms m hm) (hcs m hm)) (mapstart next)
    rw [Doc.listed, ← List.cons_append, maprun_append hrun, maprun_cons, (maptoken_end _).1,
      endcontainer_toplevel rfl]
    exact ⟨_, rfl, rfl, rfl⟩

/-- The whole map. The table of the path takes a reference before the others. -/
theorem map_eq (h : Documented b keylt value) {nv : LuaValue N D} (hnv : nv.isnil = false)
    (next : Nat) (j : J) :
    pllua_jsonb_map lib b next j (.table (keeping nv)) =
      .ok (some (mappedTo nv next (value j)), []) := by
  rw [pllua_jsonb_map, h.count, mappedTo]
  split
  · rfl
  · have hit := h.iterator j
    simp only [MapArg.config, h.is_scalar, keeping_discard, keeping_norecurse, hit]
    cases hs : root_is_scalar (value j) with
    | true =>
      cases hd : value j with
      | scalar s => simp [iterated, event, maptoken, pushvalue_scalar, tableOf]
      | array xs => simp [hd, root_is_scalar] at hs
      | object ms => simp [hd, root_is_scalar] at hs
    | false =>
      have hlisted : iterated (value j) = (value j).listed .elem := by
        cases hd : value j with
        | scalar s => simp [hd, root_is_scalar] at hs
        | array xs => rfl
        | object ms => rfl
      obtain ⟨st, hrun, hstack, hcalls⟩ := maprun_toplevel lib b h.order hnv next hs
        (h.canonical j) (h.counts j)
      rw [maprun, mapstart] at hrun
      rw [hlisted, hrun, ok_bind, hstack, hcalls]
      rfl

end

end pllua.jsonb
