-- The round trip of a jsonb: mapped to Lua with a null value of its own and
-- numerics kept, and back through pllua_jsonb_tosql with the same null value.
-- Only the empty object at the top does not come back.
import Pllua.JsonbTables
import Pllua.JsonbReference

open pllua.documents pllua.luavalue pllua.luavalue.LuaValue

namespace pllua.jsonb

variable {N D J P : Type}

/-! ## The null value -/

/-- The null value differs from a boolean or a string of the document. -/
def differs (nv : LuaValue N D) : Json N → Bool
  | .scalar (.bool x) => !rawequal (.boolean x) nv
  | .scalar (.string s) => !rawequal (.string s) nv
  | _ => true

/-- A unique null value: not nil, an object made before the map, if it is one,
and not raw-equal to what the document maps to elsewhere. -/
structure UniqueNull (nv : LuaValue N D) (next : Nat) (d : Json N) : Prop where
  not_nil : nv.isnil = false
  older : ∀ r, nv.ref? = some r → r < next
  distinct : d.all (differs nv)

/-- The config table of the way back: the same null value. -/
def nullparams (nv : LuaValue N D) : TosqlParams N D := ⟨none, false, 1000, 1000, nv⟩

theorem mapped_null {nv : LuaValue N D} : mapped (nullparams nv) nv = .nil := by
  simp [mapped, nullparams]

theorem mapped_other {nv v : LuaValue N D} (h : rawequal v nv = false) :
    mapped (nullparams nv) v = v := by
  simp [mapped, nullparams, h]

theorem mapped_ref {nv v : LuaValue N D} {r : Nat} (hv : v.ref? = some r)
    (hnv : ∀ r', nv.ref? = some r' → r' < r) : mapped (nullparams nv) v = v := by
  apply mapped_other
  apply rawequal_of_ref_ne hv
  intro heq
  exact Nat.lt_irrefl r (hnv r heq)

/-! ## Sorted keys -/

/-- The integers after `i`. -/
def intkeys (i : Int) : Nat → List (LuaValue N D)
  | 0 => []
  | n + 1 => .integer (i + 1) :: intkeys (i + 1) n

theorem elemsOf_keys (nv : LuaValue N D) (xs : List (Json N)) (i : Int) (next : Nat) :
    (elemsOf nv i next xs).1.map Prod.fst = intkeys i xs.length := by
  induction xs generalizing i next with
  | nil => rfl
  | cons x xs ih => rw [elemsOf, List.map_cons, ih, List.length_cons, intkeys]

theorem mem_intkeys {k : LuaValue N D} {i : Int} {n : Nat} (h : k ∈ intkeys i n) :
    ∃ j, i < j ∧ k = .integer j := by
  induction n generalizing i with
  | zero => cases h
  | succ n ih =>
    rcases List.mem_cons.mp h with rfl | h
    · exact ⟨i + 1, by omega, rfl⟩
    · obtain ⟨j, hj, hk⟩ := ih h
      exact ⟨j, by omega, hk⟩

theorem intkeys_sorted (i : Int) (n : Nat) :
    (intkeys i n : List (LuaValue N D)).Pairwise numle := by
  induction n generalizing i with
  | zero => exact List.Pairwise.nil
  | succ n ih =>
    refine List.pairwise_cons.mpr ⟨?_, ih (i + 1)⟩
    intro k hk
    obtain ⟨j, hj, rfl⟩ := mem_intkeys hk
    simp only [numle, tonumber, Option.getD_some]
    exact_mod_cast hj.le

/-- The keys of an array come out of the sort in order, from 1. -/
theorem sort_intkeys (lib : LuaLib N D) {ks : List (LuaValue N D)} {n : Nat}
    (hp : ks.Perm (intkeys 0 n)) : table_sort lib ks = .ok (intkeys 0 n) := by
  apply table_sort_numbers hp
  · intro k hk
    obtain ⟨j, -, rfl⟩ := mem_intkeys hk
    rfl
  · exact intkeys_sorted 0 n
  · intro a ha c hc hac hca
    obtain ⟨i, -, rfl⟩ := mem_intkeys ha
    obtain ⟨j, -, rfl⟩ := mem_intkeys hc
    simp only [numle, tonumber, Option.getD_some] at hac hca
    have : i = j := le_antisymm (by exact_mod_cast hac) (by exact_mod_cast hca)
    rw [this]

/-! ## Members -/

section
variable (lib : LuaLib N D) (b : Backend N D J P) (nv : LuaValue N D)

/-- The loop lists the document when it comes to its value as a member, whatever
the references of the value, from `next` on. -/
def Emitted (next : Nat) (d : Json N) : Prop :=
  ∀ (r : Nat) (w : Scalar N → Token Bytes (Scalar N)) (f f' : Frame N D) (fs : List (Frame N D))
    (key : LuaValue N D) (es : List (Event N J)) (tok : JsonbIteratorToken),
    next ≤ r → f.keylist[f.index - 1]? = some key →
    f.container.gettable key = (tableOf nv r d).1 →
    Keyed lib b { f with index := f.index + 1 } key es tok f' →
    (∀ s : Scalar N, (event (w s) : Event N J) = (tok, some s.toJsonbValue)) →
    ∃ ts, Listing w d ts ∧
      Emits lib b (nullparams nv) (f :: fs) (es ++ ts.map event) (f' :: fs)

variable {lib b nv}

theorem drop_index {α : Type} {l : List α} {i : Nat} {x : α} {xs : List α} (hi : 1 ≤ i)
    (h : l.drop (i - 1) = x :: xs) : l[i - 1]? = some x ∧ l.drop (i + 1 - 1) = xs := by
  constructor
  · rw [← List.head?_drop, h]
    rfl
  · have hi' : i + 1 - 1 = i - 1 + 1 := by omega
    rw [hi', ← List.drop_drop, h]
    rfl

/-- The elements of an array, from the one after the first `i`. -/
theorem emits_elems {next : Nat} {xs : List (Json N)}
    (ih : ∀ x ∈ xs, Emitted lib b nv next x) (f : Frame N D) {i : Int} (fs : List (Frame N D))
    (hi : 1 ≤ f.index) (hkeys : f.keylist.drop (f.index - 1) = intkeys i xs.length)
    (hprev : f.prevkey = some (toint i))
    (hval : ∀ (n : Nat) x, xs[n]? = some x →
      ∃ r ≥ next, f.container.gettable (.integer (i + 1 + n)) = (tableOf nv r x).1) :
    ∃ ts, ListedElems xs ts ∧
      Emits lib b (nullparams nv) (f :: fs) ((ts ++ [Token.endArray]).map event) fs := by
  induction xs generalizing f i with
  | nil =>
    have hend : f.keylist[f.index - 1]? = none := by
      rw [← List.head?_drop, hkeys]
      rfl
    have h : Emits lib b (nullparams nv) (f :: fs) _ fs := emits_end fs hend
    rw [hprev] at h
    exact ⟨[], ListedElems.nil, h⟩
  | cons x xs ihxs =>
    obtain ⟨hk, hrest⟩ := drop_index hi hkeys
    obtain ⟨r, hr, hget⟩ := hval 0 x rfl
    rw [Int.natCast_zero, Int.add_zero] at hget
    have hnext : toint i + 1 = toint (lua_tointeger lib (.integer (i + 1))) := by
      rw [lua_tointeger, lua_tointegerx, Option.getD_some, toint, toint, BitVec.ofInt_add]
      rfl
    obtain ⟨ts, hts, hemit⟩ := ih x List.mem_cons_self r .elem f _ fs _ _ _ hr hk hget
      (keyed_next hprev hnext) (fun _ => rfl)
    have hval' : ∀ (n : Nat) y, xs[n]? = some y →
        ∃ r ≥ next, f.container.gettable (.integer (i + 1 + 1 + n)) = (tableOf nv r y).1 := by
      intro n y hy
      obtain ⟨r', hr', hget'⟩ := hval (n + 1) y hy
      refine ⟨r', hr', ?_⟩
      rw [← hget', Nat.cast_succ, Int.add_assoc (i + 1), Int.add_comm (n : Int)]
    obtain ⟨us, hus, hemits⟩ := ihxs (fun y hy => ih y (List.mem_cons_of_mem x hy))
      { f with index := f.index + 1, prevkey := some (toint (i + 1)) }
      (Nat.le_add_left 1 f.index) hrest rfl hval'
    refine ⟨ts ++ us, ListedElems.cons hts hus, ?_⟩
    rw [List.append_assoc, List.map_append]
    exact emits_trans hemit hemits

/-- The members of an object, in the order of its keys in the list. -/
theorem emits_members {next : Nat} {ms : List (Bytes × Json N)}
    (ih : ∀ m ∈ ms, Emitted lib b nv next m.2) (f : Frame N D) (fs : List (Frame N D))
    (hi : 1 ≤ f.index) (hkeys : f.keylist.drop (f.index - 1) = ms.map fun m => .string m.1)
    (hprev : f.prevkey = none) (hv : ∀ m ∈ ms, b.pg_verifymbstr m.1)
    (hval : ∀ m ∈ ms, ∃ r ≥ next, f.container.gettable (.string m.1) = (tableOf nv r m.2).1) :
    ∃ ts, ListedMembers ms ts ∧
      Emits lib b (nullparams nv) (f :: fs) ((ts ++ [Token.endObject]).map event) fs := by
  induction ms generalizing f with
  | nil =>
    have hend : f.keylist[f.index - 1]? = none := by
      rw [← List.head?_drop, hkeys]
      rfl
    have h : Emits lib b (nullparams nv) (f :: fs) _ fs := emits_end fs hend
    rw [hprev] at h
    exact ⟨[], ListedMembers.nil, h⟩
  | cons m ms ihms =>
    obtain ⟨hk, hrest⟩ := drop_index hi hkeys
    obtain ⟨r, hr, hget⟩ := hval m List.mem_cons_self
    have hkeyed : Keyed lib b { f with index := f.index + 1 } (.string m.1)
        [(.WJB_KEY, some (.jbvString m.1))] .WJB_VALUE { f with index := f.index + 1 } :=
      keyed_string hprev (hv m List.mem_cons_self)
    obtain ⟨ts, hts, hemit⟩ := ih m List.mem_cons_self r .value f _ fs _ _ _ hr hk hget hkeyed
      (fun _ => rfl)
    obtain ⟨us, hus, hemits⟩ := ihms (fun n hn => ih n (List.mem_cons_of_mem m hn))
      { f with index := f.index + 1 } (Nat.le_add_left 1 f.index) hrest hprev
      (fun n hn => hv n (List.mem_cons_of_mem m hn))
      (fun n hn => hval n (List.mem_cons_of_mem m hn))
    refine ⟨.key m.1 :: (ts ++ us), ListedMembers.cons hts hus, ?_⟩
    have h := emits_trans hemit hemits
    simpa [event] using h

/-- The value of a container becomes an open collection, whose turns list the rest
of the document. -/
def Opened (lib : LuaLib N D) (b : Backend N D J P) (nv : LuaValue N D) (fs : List (Frame N D))
    (r : Nat) (d : Json N) : Prop :=
  ∃ tok g t ts, pllua_jsonb_pushkeys lib b false 1000 1000 (tableOf nv r d).1 = .ok (tok, g) ∧
    (event t : Event N J) = (tok, none) ∧ (∀ w, Listing w d (t :: ts)) ∧
    Emits lib b (nullparams nv) (g :: fs) (ts.map event) fs

/-- A table marked as an array, with the keys from 1 to `n`. -/
theorem pushkeys_array {r n : Nat} {fs : List (LuaValue N D × LuaValue N D)}
    (hperm : (lib.lua_next (.table r (some array_mt) fs)).Perm (intkeys 0 n)) :
    pllua_jsonb_pushkeys lib b false 1000 1000 (.table r (some array_mt) fs) =
      .ok (.WJB_BEGIN_ARRAY, ⟨.table r (some array_mt) fs, intkeys 0 n, some 0, 1⟩) := by
  have hint : ∀ k ∈ lib.lua_next (.table r (some array_mt) fs), ∃ j, k = .integer j := by
    intro k hk
    obtain ⟨j, -, hj⟩ := mem_intkeys (hperm.subset hk)
    exact ⟨j, hj⟩
  have hser : ∀ k ∈ lib.lua_next (.table r (some array_mt) fs),
      serialized_key b true k = .ok (id k) := by
    intro k hk
    obtain ⟨j, rfl⟩ := hint k hk
    rfl
  obtain ⟨sc, hscan, -, hnum⟩ := scankeys_ok lib hser ⟨LUA_MAXINTEGER, 0, 0, 0, [], []⟩
  have hall : (lib.lua_next (.table r (some array_mt) fs)).filter (intkey lib) =
      lib.lua_next (.table r (some array_mt) fs) := by
    rw [List.filter_eq_self]
    intro k hk
    obtain ⟨j, rfl⟩ := hint k hk
    rfl
  have hsort : table_sort lib sc.numkeytab = .ok (intkeys 0 n) := by
    rw [hnum, hall, List.nil_append]
    exact sort_intkeys lib hperm
  have hmark : (LuaValue.table r (some array_mt) fs).metatable.bind Metatable.jsonb_object =
      some false := rfl
  rw [pushkeys_ok hmark hscan, if_neg (by simp [is_object]), hsort]
  rfl

/-- A table marked as an object, whose keys are strings. -/
theorem pushkeys_object {r : Nat} {fs : List (LuaValue N D × LuaValue N D)}
    (hstr : ∀ k ∈ lib.lua_next (.table r (some object_mt) fs), ∃ s, k = .string s) :
    pllua_jsonb_pushkeys lib b false 1000 1000 (.table r (some object_mt) fs) =
      .ok (.WJB_BEGIN_OBJECT, ⟨.table r (some object_mt) fs,
        lib.lua_next (.table r (some object_mt) fs), none, 1⟩) := by
  have hser : ∀ k ∈ lib.lua_next (.table r (some object_mt) fs),
      serialized_key b false k = .ok (id k) := by
    intro k hk
    obtain ⟨s, rfl⟩ := hstr k hk
    rfl
  obtain ⟨sc, hscan, hkeys, -⟩ := scankeys_ok lib hser ⟨LUA_MAXINTEGER, 0, 0, 0, [], []⟩
  rw [List.map_id, List.nil_append] at hkeys
  have hmark : (LuaValue.table r (some object_mt) fs).metatable.bind Metatable.jsonb_object =
      some true := rfl
  rw [pushkeys_ok hmark hscan, if_pos (by simp [is_object]), hkeys]

theorem opened_array (hlib : Traverses lib) {next r : Nat} (hr : next ≤ r) {xs : List (Json N)}
    (ih : ∀ x ∈ xs, Emitted lib b nv next x) (fs : List (Frame N D)) :
    Opened lib b nv fs r (.array xs) := by
  have hperm := hlib r (some array_mt) (elemsOf nv 0 (r + 1) xs).1
  rw [elemsOf_keys] at hperm
  have hval : ∀ (n : Nat) x, xs[n]? = some x → ∃ r' ≥ next,
      (tableOf nv r (.array xs)).1.gettable (.integer (0 + 1 + n)) = (tableOf nv r' x).1 := by
    intro n x hx
    obtain ⟨r', hr', hmem⟩ := elemsOf_get nv 0 (r + 1) hx
    have hget := gettable_of_mem (t := (tableOf nv r (.array xs)).1)
      (elemsOf_distinct nv xs 0 (r + 1)) hmem
    exact ⟨r', by omega, hget⟩
  obtain ⟨ts, hts, hemit⟩ := emits_elems ih
    ⟨(tableOf nv r (.array xs)).1, intkeys 0 xs.length, some 0, 1⟩ fs (Nat.le_refl 1) rfl rfl hval
  exact ⟨_, ⟨(tableOf nv r (.array xs)).1, intkeys 0 xs.length, some 0, 1⟩, .beginArray,
    ts ++ [.endArray], pushkeys_array hperm, rfl, fun w => Listing.array w hts, hemit⟩

theorem opened_object (hlib : Traverses lib) {next r : Nat} (hr : next ≤ r)
    {ms : List (Bytes × Json N)} (hnd : (ms.map Prod.fst).Nodup)
    (hv : ∀ m ∈ ms, b.pg_verifymbstr m.1) (ih : ∀ m ∈ ms, Emitted lib b nv next m.2)
    (fs : List (Frame N D)) : Opened lib b nv fs r (.object ms) := by
  have hperm := hlib r (some object_mt) (membersOf nv (r + 1) ms).1
  rw [membersOf_keys] at hperm
  -- the keys come in the order of some arrangement of the members
  obtain ⟨ms', hkeys, hms⟩ : ∃ ms' : List (Bytes × Json N), lib.lua_next (tableOf nv r (.object ms)).1 =
      ms'.map (fun m => .string m.1) ∧ ms'.Perm ms := by
    have h := congrFun (congrFun (List.eq_map_comp_perm fun m : Bytes × Json N =>
      (LuaValue.string m.1 : LuaValue N D)) (lib.lua_next (tableOf nv r (.object ms)).1)) ms
    exact h.mpr hperm
  have hstr : ∀ k ∈ lib.lua_next (tableOf nv r (.object ms)).1, ∃ s, k = .string s := by
    intro k hk
    rw [hkeys] at hk
    obtain ⟨m, -, rfl⟩ := List.mem_map.mp hk
    exact ⟨m.1, rfl⟩
  have hval : ∀ m ∈ ms', ∃ r' ≥ next,
      (tableOf nv r (.object ms)).1.gettable (.string m.1) = (tableOf nv r' m.2).1 := by
    intro m hm
    obtain ⟨r', hr', hmem⟩ := membersOf_get nv (r + 1) (hms.subset hm)
    have hget := gettable_of_mem (t := (tableOf nv r (.object ms)).1)
      (membersOf_distinct hnd (r + 1)) hmem
    exact ⟨r', by omega, hget⟩
  obtain ⟨ts, hts, hemit⟩ := emits_members (fun m hm => ih m (hms.subset hm))
    ⟨(tableOf nv r (.object ms)).1, lib.lua_next (tableOf nv r (.object ms)).1, none, 1⟩ fs
    (Nat.le_refl 1) hkeys rfl (fun m hm => hv m (hms.subset hm)) hval
  exact ⟨_, ⟨(tableOf nv r (.object ms)).1, lib.lua_next (tableOf nv r (.object ms)).1, none, 1⟩,
    .beginObject, ts ++ [.endObject], pushkeys_object hstr, rfl,
    fun w => Listing.object w hms hts, hemit⟩

/-- What the loop asks of a document: keys in order, strings in the encoding, and
a null value of its own. -/
structure Emittable (b : Backend N D J P) (keylt : Bytes → Bytes → Bool) (nv : LuaValue N D)
    (d : Json N) : Prop where
  canonical : d.Canonical keylt
  encoding : d.all (verified b.pg_verifymbstr)
  distinct : d.all (differs nv)

theorem toscalar_scalar {keylt : Bytes → Bytes → Bool} {next r : Nat} {s : Scalar N}
    (h : Emittable b keylt nv (.scalar s)) (hnv : ∀ r', nv.ref? = some r' → r' < next)
    (hr : next ≤ r) :
    pllua_jsonb_toscalar b (mapped (nullparams nv) (scalarOf nv r s).1) =
      .ok (some s.toJsonbValue) := by
  cases s with
  | null =>
    rw [scalarOf, mapped_null]
    rfl
  | bool x =>
    have hd := h.distinct
    rw [all_scalar, differs, Bool.not_eq_true'] at hd
    rw [scalarOf, mapped_other hd]
    rfl
  | numeric n =>
    rw [scalarOf, mapped_ref rfl fun r' hr' => (hnv r' hr').trans_le hr]
    rfl
  | string s =>
    have hd := h.distinct
    have hv := h.encoding
    rw [all_scalar, differs, Bool.not_eq_true'] at hd
    rw [all_scalar, verified] at hv
    rw [scalarOf, mapped_other hd, pllua_jsonb_toscalar, stringvalue, if_pos hv]
    rfl

/-- A container becomes an open collection. -/
theorem emitted_container {next : Nat} {d : Json N} (hd : root_is_scalar d = false)
    (hnv : ∀ r', nv.ref? = some r' → r' < next)
    (ho : ∀ r ≥ next, ∀ fs, Opened lib b nv fs r d) : Emitted lib b nv next d := by
  intro r w f f' fs key es tok hr hk hget hkey _
  obtain ⟨tok', g, t, ts, hpush, hev, hlist, hemit⟩ := ho r hr (f' :: fs)
  have href : (tableOf nv r d).1.ref? = some r := by
    cases d with
    | scalar s => cases hd
    | array xs => rfl
    | object ms => rfl
  have hmapped : mapped (nullparams nv) (f.container.gettable key) = (tableOf nv r d).1 := by
    rw [hget]
    exact mapped_ref href fun r' hr' => (hnv r' hr').trans_le hr
  have hscalar : pllua_jsonb_toscalar b (tableOf nv r d).1 = .ok none := by
    cases d with
    | scalar s => cases hd
    | array xs => rfl
    | object ms => rfl
  have hturn := emits_collection (c := nullparams nv) fs hk hkey (by rw [hmapped]; exact hscalar)
    (by rw [hmapped]; exact hpush)
  refine ⟨t :: ts, hlist w, ?_⟩
  have h := emits_trans hturn hemit
  rw [List.append_assoc, List.singleton_append] at h
  rw [List.map_cons, hev]
  exact h

/-- The loop lists every document. -/
theorem emits_doc {keylt : Bytes → Bytes → Bool} (hord : StrictOrder keylt)
    (hlib : Traverses lib) {next : Nat} (hnv : ∀ r', nv.ref? = some r' → r' < next) {d : Json N}
    (h : Emittable b keylt nv d) : Emitted lib b nv next d := by
  induction d using Doc.induct with
  | scalar s =>
    intro r w f f' fs key es tok hr hk hget hkey htok
    refine ⟨[w s], Listing.scalar w s, ?_⟩
    have hv : pllua_jsonb_toscalar b (mapped (nullparams nv) (f.container.gettable key)) =
        .ok (some s.toJsonbValue) := by
      rw [hget]
      exact toscalar_scalar h hnv hr
    have hturn := emits_scalar (c := nullparams nv) fs hk hkey hv
    rw [← htok s] at hturn
    exact hturn
  | array xs ih =>
    obtain ⟨-, hc⟩ := (all_array _ xs).mp h.canonical
    obtain ⟨-, he⟩ := (all_array _ xs).mp h.encoding
    obtain ⟨-, hd⟩ := (all_array _ xs).mp h.distinct
    exact emitted_container rfl hnv fun r hr fs =>
      opened_array hlib hr (fun x hx => ih x hx ⟨hc x hx, he x hx, hd x hx⟩) fs
  | object ms ih =>
    obtain ⟨hinc, hc⟩ := (all_object _ ms).mp h.canonical
    obtain ⟨hv, he⟩ := (all_object _ ms).mp h.encoding
    obtain ⟨-, hd⟩ := (all_object _ ms).mp h.distinct
    exact emitted_container rfl hnv fun r hr fs =>
      opened_object hlib hr (keys_nodup_of_increase hord (of_decide_eq_true hinc))
        (List.all_eq_true.mp hv) (fun m hm => ih m hm ⟨hc m hm, he m hm, hd m hm⟩) fs

/-- A whole container becomes an open collection. -/
theorem opened_doc {keylt : Bytes → Bytes → Bool} (hord : StrictOrder keylt)
    (hlib : Traverses lib) {next r : Nat} (hnv : ∀ r', nv.ref? = some r' → r' < next)
    (hr : next ≤ r) {d : Json N} (hd : root_is_scalar d = false) (h : Emittable b keylt nv d) :
    Opened lib b nv [] r d := by
  cases d with
  | scalar s => cases hd
  | array xs =>
    obtain ⟨-, hc⟩ := (all_array _ xs).mp h.canonical
    obtain ⟨-, he⟩ := (all_array _ xs).mp h.encoding
    obtain ⟨-, hd⟩ := (all_array _ xs).mp h.distinct
    exact opened_array hlib hr
      (fun x hx => emits_doc hord hlib hnv ⟨hc x hx, he x hx, hd x hx⟩) []
  | object ms =>
    obtain ⟨hinc, hc⟩ := (all_object _ ms).mp h.canonical
    obtain ⟨hv, he⟩ := (all_object _ ms).mp h.encoding
    obtain ⟨-, hd⟩ := (all_object _ ms).mp h.distinct
    exact opened_object hlib hr (keys_nodup_of_increase hord (of_decide_eq_true hinc))
      (List.all_eq_true.mp hv)
      (fun m hm => emits_doc hord hlib hnv ⟨hc m hm, he m hm, hd m hm⟩) []

/-! ## The round trip -/

/-- The config table of the way back. -/
def nullconfig (nv : LuaValue N D) : TosqlConfig N D := ⟨none, false, none, none, nv⟩

/-- A table without fields and without a metatable becomes an array. -/
theorem pushkeys_empty (hlib : Traverses lib) (r : Nat) :
    pllua_jsonb_pushkeys lib b false 1000 1000 (.table r none []) =
      .ok (.WJB_BEGIN_ARRAY, ⟨.table r none [], [], some 0, 1⟩) := by
  have hnext : lib.lua_next (.table r none []) = [] := List.perm_nil.mp (hlib r none [])
  have hscan : scankeys lib b (none == some false) (.table r none []) =
      .ok ⟨LUA_MAXINTEGER, 0, 0, 0, [], []⟩ := by
    simp [scankeys, pairs_of, metatable, hnext]
    rfl
  have hmark : (LuaValue.table r none [] : LuaValue N D).metatable.bind Metatable.jsonb_object =
      none := rfl
  rw [pushkeys_ok hmark hscan, if_neg (by simp [is_object, LUA_MAXINTEGER])]
  rfl

/-- A table whose turns push the rest of the events becomes a jsonb. -/
theorem tosql_collection {v : LuaValue N D} {tok : JsonbIteratorToken} {g : Frame N D}
    {es : List (Event N J)} {p : P} {j : J} (hm : mapped (nullparams nv) v = v)
    (hv : pllua_jsonb_toscalar b v = .ok none)
    (hg : pllua_jsonb_pushkeys lib b false 1000 1000 v = .ok (tok, g))
    (hemit : Emits lib b (nullparams nv) [g] es [])
    (hpush : ((tok, none) :: es).foldlM b.pushJsonbValue b.pstate = .ok p)
    (hj : b.resultToJsonb p = .ok j) :
    ∃ turns, pllua_jsonb_tosql lib b 2 v (some (nullconfig nv)) turns = some (.ok (some j)) := by
  have hpush' : ([(tok, none)] ++ es).foldlM b.pushJsonbValue b.pstate = .ok p := hpush
  obtain ⟨q, hq, hrest⟩ := foldlM_append_ok hpush'
  obtain ⟨turns, hturns⟩ := hemit q p hrest
  refine ⟨turns + 1, ?_⟩
  have hparams : tosqlparams (some (nullconfig nv)) = nullparams nv := rfl
  have hg' : pllua_jsonb_pushkeys lib b (nullparams nv).empty_object (nullparams nv).array_thresh
      (nullparams nv).array_frac v = .ok (tok, g) := hg
  rw [pllua_jsonb_tosql, if_neg (by simp [declined]), hparams]
  simp only [hm, hv, hg', foldlM_singleton_ok hq, hturns 1]
  simp [tosqlloop, hj]
  rfl

variable {keylt : Bytes → Bytes → Bool} {value : J → Json N}

/-- Every document but an empty object comes back. -/
theorem tosql_mapped (hlib : Traverses lib) (h : Documented b keylt value) {next : Nat} {j : J}
    (hnv : UniqueNull nv next (value j)) (hj : value j ≠ .object []) :
    ∃ turns j', pllua_jsonb_tosql lib b 2 (mappedTo nv next (value j)) (some (nullconfig nv))
      turns = some (.ok (some j')) ∧ value j' = value j := by
  have hemittable : Emittable b keylt nv (value j) :=
    ⟨h.canonical j, h.encoding j, hnv.distinct⟩
  have hparams : tosqlparams (some (nullconfig nv)) = nullparams nv := rfl
  cases hs : root_is_scalar (value j) with
  | true =>
    obtain ⟨s, hd⟩ : ∃ s, value j = .scalar s := by
      cases hd : value j with
      | scalar s => exact ⟨s, rfl⟩
      | array xs => simp [hd, root_is_scalar] at hs
      | object ms => simp [hd, root_is_scalar] at hs
    obtain ⟨j', hj', hval⟩ := h.scalar j s hd
    refine ⟨0, j', ?_, hval⟩
    rw [hd] at hemittable
    have hscalar : pllua_jsonb_toscalar b (mapped (nullparams nv) (scalarOf nv (next + 1) s).1) =
        .ok (some s.toJsonbValue) := toscalar_scalar hemittable hnv.older (Nat.le_succ next)
    rw [hd, mappedTo, if_neg (by simp [root_count]), tableOf, pllua_jsonb_tosql,
      if_neg (by simp [declined]), hparams]
    simp only [hscalar, hj', Except.map]
  | false =>
    by_cases hcount : root_count (value j) = 0
    · -- an empty array
      have hd : value j = .array [] := by
        cases hd : value j with
        | scalar s => simp [hd, root_count] at hcount
        | array xs => simp_all [root_count]
        | object ms => simp_all [root_count]
      have hlist : Listing (.elem : Scalar N → Token Bytes (Scalar N)) (value j)
          [.beginArray, .endArray] := by
        rw [hd]
        exact Listing.array _ ListedElems.nil
      obtain ⟨p, j', hp, hres⟩ := h.push j _ _ hs hlist
      have hemit : Emits lib b (nullparams nv) [⟨.table next none [], [], some 0, 1⟩]
          [(.WJB_END_ARRAY, none)] [] := emits_end [] rfl
      obtain ⟨turns, ht⟩ := tosql_collection
        (mapped_ref rfl hnv.older) rfl (pushkeys_empty hlib next) hemit hp hres
      refine ⟨turns, j', ?_, h.pushed _ _ _ _ _ (h.canonical j) hs hlist hp hres⟩
      rw [mappedTo, if_pos hcount, ht]
    · obtain ⟨tok, g, t, ts, hpush, hev, hlist, hemit⟩ := opened_doc h.order hlib hnv.older
        (Nat.le_succ next) hs hemittable
      obtain ⟨p, j', hp, hres⟩ := h.push j .elem _ hs (hlist .elem)
      have hp' : ((tok, none) :: ts.map event).foldlM b.pushJsonbValue b.pstate = .ok p := by
        rw [List.map_cons, hev] at hp
        exact hp
      have href : (tableOf nv (next + 1) (value j)).1.ref? = some (next + 1) := by
        cases hd : value j with
        | scalar s => simp [hd, root_is_scalar] at hs
        | array xs => rfl
        | object ms => rfl
      have hscalar : pllua_jsonb_toscalar b (tableOf nv (next + 1) (value j)).1 = .ok none := by
        cases hd : value j with
        | scalar s => simp [hd, root_is_scalar] at hs
        | array xs => rfl
        | object ms => rfl
      obtain ⟨turns, ht⟩ := tosql_collection
        (mapped_ref href fun r hr => (hnv.older r hr).trans (Nat.lt_succ_self next)) hscalar hpush
        hemit hp' hres
      refine ⟨turns, j', ?_, h.pushed _ _ _ _ _ (h.canonical j) hs (hlist .elem) hp hres⟩
      rw [mappedTo, if_neg hcount, ht]

/-- What comes back from a table without fields is an array. -/
theorem tosql_empty (hlib : Traverses lib) (h : Documented b keylt value) {next : Nat}
    (hnv : ∀ r, nv.ref? = some r → r < next) {turns : Nat} {j' : J}
    (ht : pllua_jsonb_tosql lib b 2 (.table next none []) (some (nullconfig nv)) turns =
      some (.ok (some j'))) : value j' = .array [] := by
  have hlist : Listing (.elem : Scalar N → Token Bytes (Scalar N)) (.array [])
      [.beginArray, .endArray] := Listing.array _ ListedElems.nil
  have hparams : tosqlparams (some (nullconfig nv)) = nullparams nv := rfl
  have hm : mapped (nullparams nv) (.table next none []) = .table next none [] :=
    mapped_ref rfl hnv
  have hg : pllua_jsonb_pushkeys lib b (nullparams nv).empty_object (nullparams nv).array_thresh
      (nullparams nv).array_frac (.table next none []) =
        .ok (.WJB_BEGIN_ARRAY, ⟨.table next none [], [], some 0, 1⟩) := pushkeys_empty hlib next
  have hv : pllua_jsonb_toscalar b (.table next none [] : LuaValue N D) = .ok none := rfl
  rw [pllua_jsonb_tosql, if_neg (by simp [declined]), hparams] at ht
  simp only [hm, hv, hg] at ht
  cases hp : b.pushJsonbValue b.pstate (.WJB_BEGIN_ARRAY, none) with
  | error e =>
    rw [hp] at ht
    cases ht
  | ok p =>
    rw [hp] at ht
    obtain ⟨r, hloop, hr⟩ := Option.map_eq_some_iff.mp ht
    cases r with
    | error e => cases hr
    | ok q =>
      obtain ⟨turns', st, hstep, hrest⟩ := tosqlloop_turn hloop
      cases hp' : b.pushJsonbValue p (.WJB_END_ARRAY, none) with
      | error e =>
        simp only [tosqlstep, List.getElem?_nil, Option.isNone_some, Bool.false_eq_true,
          if_false, hp'] at hstep
        cases hstep
      | ok p' =>
        simp only [tosqlstep, List.getElem?_nil, Option.isNone_some, Bool.false_eq_true,
          if_false, hp', ok_bind] at hstep
        cases hstep
        have hq := tosqlloop_done hrest
        subst hq
        cases hres : b.resultToJsonb p' with
        | error e =>
          rw [ok_bind, hres] at hr
          cases hr
        | ok j'' =>
          rw [ok_bind, hres] at hr
          cases hr
          refine h.pushed (.array []) _ _ p' j' rfl rfl hlist ?_ hres
          simp [event, hp, hp']

/-- One jsonb: mapped to Lua with the null value and numerics
kept, and back with the same null value, it says the same. -/
def RoundTrips (lib : LuaLib N D) (b : Backend N D J P) (value : J → Json N) (nv : LuaValue N D)
    (next : Nat) (j : J) : Prop :=
  ∃ x turns j',
    pllua_jsonb_map lib b next j (.table (keeping nv)) = .ok (some x, []) ∧
    pllua_jsonb_tosql lib b 2 x (some (nullconfig nv)) turns = some (.ok (some j')) ∧
    value j' = value j

theorem not_round_trips_of_empty (hlib : Traverses lib) (h : Documented b keylt value)
    {next : Nat} {j : J} (hnv : UniqueNull nv next (value j)) (hj : value j = .object []) :
    ¬ RoundTrips lib b value nv next j := by
  rintro ⟨x, turns, j', hx, ht, hval⟩
  have hcount : root_count (value j) = 0 := by
    rw [hj]
    rfl
  rw [map_eq lib h hnv.not_nil next j, mappedTo, if_pos hcount] at hx
  cases hx
  rw [tosql_empty hlib h hnv.older ht, hj] at hval
  cases hval

/-- Every jsonb comes back, but for the empty object at the top, which the map
makes a table without a mark. -/
theorem jsonb_round_trips_unless_an_empty_object (hlib : Traverses lib)
    (h : Documented b keylt value) {next : Nat} {j : J} (hnv : UniqueNull nv next (value j)) :
    RoundTrips lib b value nv next j ↔ value j ≠ .object [] := by
  constructor
  · intro hrt hj
    exact not_round_trips_of_empty hlib h hnv hj hrt
  · intro hj
    obtain ⟨turns, j', ht, hval⟩ := tosql_mapped hlib h hnv hj
    exact ⟨_, turns, j', map_eq lib h hnv.not_nil next j, ht, hval⟩

end

/-- The jsonb `{"a": [null]}`. -/
def nested_null : StoredJsonb := ⟨.object [([97], .array [.scalar .null])], by decide⟩

theorem unique_table (d : Json Int) (hd : d.all (differs (.table 0 none [] : LuaValue Int StoredJsonb))) :
    UniqueNull (.table 0 none [] : LuaValue Int StoredJsonb) 1 d :=
  ⟨rfl, fun _ h => Option.some.inj h ▸ Nat.one_pos, hd⟩

theorem nested_null_round_trips :
    RoundTrips insertionorder reference Subtype.val (.table 0 none []) 1 nested_null :=
  (jsonb_round_trips_unless_an_empty_object insertionorder_traverses reference_documented
    (unique_table nested_null.1 rfl)).mpr (by intro h; cases h)

/-- The jsonb `{}`. -/
def empty_object : StoredJsonb := ⟨.object [], by decide⟩

/-- The jsonb `{}` comes back as `[]`. -/
theorem empty_object_does_not_round_trip :
    ¬ RoundTrips insertionorder reference Subtype.val (.table 0 none []) 1 empty_object :=
  not_round_trips_of_empty insertionorder_traverses reference_documented
    (unique_table empty_object.1 rfl) rfl

end pllua.jsonb
