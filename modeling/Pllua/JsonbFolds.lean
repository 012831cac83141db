-- pllua_jsonb_map with a map function: the fold that its keys and values make, and the
-- machine on the Lua stack, which tells the kind of a parent from the key that comes back.
import Pllua.JsonbTables
import Pllua.JsonbReference

open pllua.documents pllua.luavalue pllua.luavalue.LuaValue

namespace pllua.jsonb

variable {N D J P : Type}

/-! ## The fold of a document -/

/-- The config table with a map function that recurses. -/
def mapping (f : MapFunc N D) (discard pg_numeric : Bool) (null : LuaValue N D) : MapConfig N D :=
  ⟨some f, discard, false, pg_numeric, null⟩

section
variable (f : MapFunc N D) (discard pg_numeric : Bool) (null : LuaValue N D)

@[simp] theorem mapping_map : (mapping f discard pg_numeric null).map = some f := rfl

@[simp] theorem mapping_discard : (mapping f discard pg_numeric null).discard = discard := rfl

@[simp] theorem mapping_norecurse : (mapping f discard pg_numeric null).norecurse = false := rfl

end

/-- A call of the map function, and whether its value is a scalar. -/
structure Visit (N D : Type) where
  call : Call N D
  scalar : Bool

section
variable (b : Backend N D J P) (c : MapConfig N D) (f : MapFunc N D)

/-- The value of a scalar before the call, and the next reference. -/
def scalarIn (next : Nat) : Scalar N → LuaValue N D × Nat
  | .null => (c.null, next)
  | .bool v => (.boolean v, next)
  | .numeric n => (if c.pg_numeric then .numeric next n else b.tonumber n, next + 1)
  | .string s => (.string s, next)

/-- The same for the value of a token; a jsonb is a new datum. -/
def valueIn (next : Nat) : JsonbValue N J → LuaValue N D × Nat
  | .jbvNull => (c.null, next)
  | .jbvBool v => (.boolean v, next)
  | .jbvNumeric n => (if c.pg_numeric then .numeric next n else b.tonumber n, next + 1)
  | .jbvString s => (.string s, next)
  | .jbvBinary j => (.datum next (b.jsonb_datum j), next + 1)

theorem valueIn_scalar (next : Nat) (s : Scalar N) :
    valueIn b c next s.toJsonbValue = scalarIn b c next s := by
  cases s <;> rfl

mutual
/-- The value of a document before the call for it; the references count up from `next`. The
members of the document lie at `path`. -/
def foldDoc (path : List (LuaValue N D)) (next : Nat) : Json N → LuaValue N D × Nat
  | .scalar s => scalarIn b c next s
  | .array xs =>
    (.table next (some array_mt) (foldElems path 0 (next + 1) [] xs).1,
      (foldElems path 0 (next + 1) [] xs).2)
  | .object ms =>
    (.table next (some object_mt) (foldMembers path (next + 1) [] ms).1,
      (foldMembers path (next + 1) [] ms).2)

/-- The value that comes back for the element at an index goes to the position after it. -/
def foldElems (path : List (LuaValue N D)) (i : Int) (next : Nat)
    (fs : List (LuaValue N D × LuaValue N D)) :
    List (Json N) → List (LuaValue N D × LuaValue N D) × Nat
  | [] => (fs, next)
  | x :: xs =>
    foldElems path (i + 1) (foldDoc (path ++ [.integer i]) next x).2
      (setfield fs (.integer (i + 1))
        (f (.integer i) (foldDoc (path ++ [.integer i]) next x).1 path).2) xs

/-- The value that comes back for a member goes to the key that comes back. -/
def foldMembers (path : List (LuaValue N D)) (next : Nat)
    (fs : List (LuaValue N D × LuaValue N D)) :
    List (Bytes × Json N) → List (LuaValue N D × LuaValue N D) × Nat
  | [] => (fs, next)
  | m :: ms =>
    foldMembers path (foldDoc (path ++ [.string m.1]) next m.2).2
      (setfield fs (f (.string m.1) (foldDoc (path ++ [.string m.1]) next m.2).1 path).1
        (f (.string m.1) (foldDoc (path ++ [.string m.1]) next m.2).1 path).2) ms
end

mutual
/-- The calls for the members of a document, from the inside out. -/
def visits (path : List (LuaValue N D)) (next : Nat) : Json N → List (Visit N D)
  | .scalar _ => []
  | .array xs => visitsElems path 0 (next + 1) xs
  | .object ms => visitsMembers path (next + 1) ms

def visitsElems (path : List (LuaValue N D)) (i : Int) (next : Nat) :
    List (Json N) → List (Visit N D)
  | [] => []
  | x :: xs =>
    visits (path ++ [.integer i]) next x ++
      ⟨⟨.integer i, (foldDoc b c f (path ++ [.integer i]) next x).1, path⟩, root_is_scalar x⟩ ::
        visitsElems path (i + 1) (foldDoc b c f (path ++ [.integer i]) next x).2 xs

def visitsMembers (path : List (LuaValue N D)) (next : Nat) :
    List (Bytes × Json N) → List (Visit N D)
  | [] => []
  | m :: ms =>
    visits (path ++ [.string m.1]) next m.2 ++
      ⟨⟨.string m.1, (foldDoc b c f (path ++ [.string m.1]) next m.2).1, path⟩,
        root_is_scalar m.2⟩ ::
        visitsMembers path (foldDoc b c f (path ++ [.string m.1]) next m.2).2 ms
end

/-- The key that comes back for a member, if the member is a container, is no integer. -/
def KeyTold (path : List (LuaValue N D)) (next : Nat) (m : Bytes × Json N) : Prop :=
  root_is_scalar m.2 = false →
    (f (.string m.1) (foldDoc b c f (path ++ [.string m.1]) next m.2).1 path).1.isinteger = false

mutual
/-- No container that is a member of an object gets an integer key. -/
def Told (path : List (LuaValue N D)) (next : Nat) : Json N → Prop
  | .scalar _ => True
  | .array xs => ToldElems path 0 (next + 1) xs
  | .object ms => ToldMembers path (next + 1) ms

def ToldElems (path : List (LuaValue N D)) (i : Int) (next : Nat) : List (Json N) → Prop
  | [] => True
  | x :: xs =>
    Told (path ++ [.integer i]) next x ∧
      ToldElems path (i + 1) (foldDoc b c f (path ++ [.integer i]) next x).2 xs

def ToldMembers (path : List (LuaValue N D)) (next : Nat) : List (Bytes × Json N) → Prop
  | [] => True
  | m :: ms =>
    Told (path ++ [.string m.1]) next m.2 ∧ KeyTold b c f path next m ∧
      ToldMembers path (foldDoc b c f (path ++ [.string m.1]) next m.2).2 ms
end

/-- What the map is to give: the value that the function returns for the whole. -/
def jsonb_fold (next : Nat) (d : Json N) : LuaValue N D :=
  (f .nil (foldDoc b c f [] (next + 1) d).1 []).2

end

/-! ## The machine, one operation at a time -/

/-- What a state holds, apart from what lies in the table of the path above its length. -/
structure MapState.Is (st : MapState N D) (stack path : List (LuaValue N D)) (next : Nat)
    (calls : List (Call N D)) : Prop where
  stack : st.stack = stack
  len : st.patht_len = path.length
  path : st.path = path
  next : st.next = next
  calls : st.calls = calls

theorem MapState.path_eq (st : MapState N D) :
    st.path = (List.range st.patht_len.toNat).map fun i : Nat => st.patht (i + 1) := by
  simp [MapState.path, ← List.map_eq_flatMap]

namespace MapState.Is

variable {st : MapState N D} {stack path : List (LuaValue N D)} {next : Nat}
  {calls : List (Call N D)}

/-- The path only depends on the table of the path and its length. -/
theorem of_stack (h : st.Is stack path next calls) (stack' : List (LuaValue N D)) :
    { st with stack := stack' }.Is stack' path next calls :=
  ⟨rfl, h.len, h.path, h.next, h.calls⟩

theorem push (h : st.Is stack path next calls) (v : LuaValue N D) :
    (st.push v).Is (v :: stack) path next calls :=
  ⟨by rw [MapState.push, h.stack], h.len, h.path, h.next, h.calls⟩

theorem pop {v : LuaValue N D} (h : st.Is (v :: stack) path next calls) :
    st.pop.Is stack path next calls :=
  ⟨by rw [MapState.pop, h.stack, List.drop_one, List.tail_cons], h.len, h.path, h.next, h.calls⟩

theorem newtable (h : st.Is stack path next calls) (mt : Metatable (LuaValue N D)) :
    (st.newtable mt).Is (.table next (some mt) [] :: stack) path (next + 1) calls :=
  ⟨by rw [MapState.newtable, h.stack, h.next], h.len, h.path, by rw [MapState.newtable, h.next],
    h.calls⟩

/-- The key below the value on top. -/
theorem below {x k : LuaValue N D} (h : st.Is (x :: k :: stack) path next calls) :
    st.below = k := by
  rw [MapState.below, h.stack]
  rfl

/-- The key of a container goes on the path. -/
theorem pushpath {k : LuaValue N D} (hk : k.isnil = false)
    (h : st.Is (k :: stack) path next calls) :
    st.pushpath.Is (k :: stack) (path ++ [k]) next calls := by
  have hhead : st.stack.head?.getD .nil = k := by rw [h.stack]; rfl
  have hlen : st.pushpath.patht_len = (path ++ [k]).length := by
    rw [st.pushpath_len (hhead ▸ hk), h.len, List.length_append]
    rfl
  refine ⟨by rw [st.pushpath_stack, h.stack], hlen, ?_, by rw [st.pushpath_next, h.next],
    by rw [st.pushpath_calls, h.calls]⟩
  have hpath := h.path
  rw [st.path_eq, h.len, Int.toNat_natCast] at hpath
  rw [MapState.path_eq, hlen, Int.toNat_natCast, List.length_append, List.length_singleton, List.range_succ,
    List.map_append, List.map_singleton]
  rw [MapState.pushpath, if_neg (by simp [hhead, hk]), h.len, hhead]
  congr 1
  · refine (List.map_congr_left ?_).trans hpath
    intro i hi
    have hlt := List.mem_range.mp hi
    exact Function.update_of_ne (by omega) _ _
  · simp

/-- The end of a container takes its key off the path. -/
theorem shorten {k : LuaValue N D} (h : st.Is stack (path ++ [k]) next calls) :
    { st with patht_len := st.patht_len - 1 }.Is stack path next calls := by
  have hlen : st.patht_len - 1 = path.length := by
    rw [h.len, List.length_append, List.length_singleton]
    omega
  refine ⟨h.stack, hlen, ?_, h.next, h.calls⟩
  have hpath := h.path
  rw [MapState.path_eq]
  simp only [hlen, Int.toNat_natCast]
  rw [st.path_eq, h.len, Int.toNat_natCast, List.length_append, List.length_singleton, List.range_succ,
    List.map_append, List.map_singleton] at hpath
  exact (List.append_inj' hpath rfl).1

/-- A call of the map function. -/
theorem callmap {val key : LuaValue N D} (h : st.Is (val :: key :: stack) path next calls)
    (f : MapFunc N D) :
    ∃ st', st.callmap (some f) = .ok st' ∧
      st'.Is ((f key val path).2 :: (f key val path).1 :: stack) path next
        (calls ++ [⟨key, val, path⟩]) := by
  refine ⟨{ st with
    stack := (f key val path).2 :: (f key val path).1 :: stack
    calls := st.calls ++ [⟨key, val, path⟩] }, ?_, rfl, h.len, h.path, h.next, by rw [h.calls]⟩
  simp [MapState.callmap, h.stack, h.path]

end MapState.Is

/-- A Lua table. -/
def istable : LuaValue N D → Bool
  | .table .. => true
  | _ => false

/-- Only a table is taken as one. -/
theorem settable_of_not_table {t : LuaValue N D} (h : istable t = false) (key val : LuaValue N D) :
    ∃ e, t.settable key val = .error e := by
  cases t with
  | table r mt fs => cases h
  | _ => exact ⟨_, rfl⟩

/-! ## The tokens of a scalar and of an end -/

section
variable (lib : LuaLib N D) (b : Backend N D J P) (c : MapConfig N D)

/-- The machine over a list of tokens, where the root is a container. -/
def runtokens (st : MapState N D) (ts : List (Token Bytes (Scalar N))) :
    Except String (MapState N D) :=
  (ts.map event).foldlM (maptoken lib b c false) st

@[simp] theorem runtokens_nil (st : MapState N D) : runtokens lib b c st [] = .ok st := rfl

theorem runtokens_cons (st : MapState N D) (t : Token Bytes (Scalar N))
    (ts : List (Token Bytes (Scalar N))) :
    runtokens lib b c st (t :: ts) =
      maptoken lib b c false st (event t) >>= fun st => runtokens lib b c st ts := rfl

theorem runtokens_append (st : MapState N D) (ts us : List (Token Bytes (Scalar N))) :
    runtokens lib b c st (ts ++ us) =
      runtokens lib b c st ts >>= fun st => runtokens lib b c st us := by
  simp [runtokens, List.foldlM_append]

theorem runtokens_one (st : MapState N D) (t : Token Bytes (Scalar N)) :
    runtokens lib b c st [t] = maptoken lib b c false st (event t) := by
  rw [runtokens_cons]
  cases maptoken lib b c false st (event t) <;> rfl

/-- The config table has a map function and does not discard the result. -/
structure Keeps (f : MapFunc N D) : Prop where
  map : c.map = some f
  discard : c.discard = false

variable {lib b c} {f : MapFunc N D} {st : MapState N D} {stack path rest : List (LuaValue N D)}
  {next : Nat} {calls : List (Call N D)}

/-- The value of a token goes on the stack. -/
theorem pushvalue_is (h : st.Is stack path next calls) (v : JsonbValue N J) :
    (pushvalue b c st v).Is ((valueIn b c next v).1 :: stack) path (valueIn b c next v).2
      calls := by
  cases v with
  | jbvNull => exact h.push _
  | jbvBool v => exact h.push _
  | jbvString s => exact h.push _
  | jbvNumeric n =>
    refine ⟨?_, h.len, h.path, ?_, h.calls⟩
    · simp [pushvalue, MapState.push, valueIn, h.next, h.stack]
    · simp [pushvalue, MapState.push, valueIn, h.next]
  | jbvBinary j =>
    refine ⟨?_, h.len, h.path, ?_, h.calls⟩
    · simp [pushvalue, MapState.push, valueIn, h.next, h.stack]
    · simp [pushvalue, MapState.push, valueIn, h.next]

theorem pushvalue_in (h : st.Is stack path next calls) (s : Scalar N) :
    (pushvalue b c st s.toJsonbValue).Is ((scalarIn b c next s).1 :: stack) path
      (scalarIn b c next s).2 calls := by
  rw [← valueIn_scalar]
  exact pushvalue_is h s.toJsonbValue

/-- The value on top goes into the table, at the position after the index. -/
theorem seti_in {st : MapState N D} {val key : LuaValue N D} {ref : Nat}
    {mt : Option (Metatable (LuaValue N D))} {fs : List (LuaValue N D × LuaValue N D)}
    (h : st.Is (val :: key :: .table ref mt fs :: rest) path next calls) (i : Int) :
    ∃ st', st.seti i = .ok st' ∧
      st'.Is (key :: .table ref mt (setfield fs (.integer i) val) :: rest) path next calls :=
  ⟨_, st.seti_ok h.stack rfl, h.of_stack _⟩

/-- The value on top goes into the table, under the key below it. -/
theorem settable_in {st : MapState N D} {val key : LuaValue N D} {ref : Nat}
    {mt : Option (Metatable (LuaValue N D))} {fs : List (LuaValue N D × LuaValue N D)}
    (h : st.Is (val :: key :: .table ref mt fs :: rest) path next calls)
    (hkey : key.isnil = false) :
    ∃ st', st.settable = .ok st' ∧
      st'.Is (.table ref mt (setfield fs key val) :: rest) path next calls := by
  refine ⟨_, st.settable_ok h.stack ?_, h.of_stack _⟩
  rw [LuaValue.settable, if_neg (by simp [hkey])]

theorem settable_fails {st : MapState N D} {val key t : LuaValue N D}
    (h : st.stack = val :: key :: t :: rest) (ht : istable t = false) :
    ∃ e, st.settable = .error e := by
  obtain ⟨e, he⟩ := settable_of_not_table ht key val
  exact ⟨e, by simp [MapState.settable, h, he, bind, Except.bind]⟩

theorem seti_fails {st : MapState N D} {val key t : LuaValue N D}
    (h : st.stack = val :: key :: t :: rest) (ht : istable t = false) (i : Int) :
    ∃ e, st.seti i = .error e := by
  obtain ⟨e, he⟩ := settable_of_not_table ht (.integer i) val
  exact ⟨e, by simp [MapState.seti, h, he, bind, Except.bind]⟩

variable (lib)

/-- An element that is no container to go into. -/
theorem elem_value (hc : Keeps c f) {i : Int} {ref : Nat} {mt : Option (Metatable (LuaValue N D))}
    {fs : List (LuaValue N D × LuaValue N D)}
    (h : st.Is (.integer i :: .table ref mt fs :: rest) path next calls) (h0 : 0 ≤ i)
    (h1 : i + 1 < 2 ^ 31) (v : JsonbValue N J) :
    ∃ st', maptoken lib b c false st (.WJB_ELEM, some v) = .ok st' ∧
      st'.Is
        (.integer (i + 1) :: .table ref mt (setfield fs (.integer (i + 1))
          (f (.integer i) (valueIn b c next v).1 path).2) :: rest)
        path (valueIn b c next v).2 (calls ++ [⟨.integer i, (valueIn b c next v).1, path⟩]) := by
  have hpush := pushvalue_is (b := b) (c := c) h v
  obtain ⟨st₁, hcall, h₁⟩ := hpush.callmap f
  obtain ⟨st₂, hset, h₂⟩ := seti_in h₁ (i + 1)
  refine ⟨_, ?_, h₂.pop.push _⟩
  simp only [maptoken, hpush.below, lua_tointeger, lua_tointegerx, Option.getD_some, hc.map,
    hcall, ok_bind, Bool.false_eq_true, if_false, hc.discard, toint_succ h0 h1, hset]

/-- A member that is no container to go into. -/
theorem value_value (hc : Keeps c f) {k : Bytes} {ref : Nat}
    {mt : Option (Metatable (LuaValue N D))} {fs : List (LuaValue N D × LuaValue N D)}
    (h : st.Is (.string k :: .table ref mt fs :: rest) path next calls) (v : JsonbValue N J)
    (hkey : (f (.string k) (valueIn b c next v).1 path).1.isnil = false) :
    ∃ st', maptoken lib b c false st (.WJB_VALUE, some v) = .ok st' ∧
      st'.Is
        (.table ref mt (setfield fs (f (.string k) (valueIn b c next v).1 path).1
          (f (.string k) (valueIn b c next v).1 path).2) :: rest)
        path (valueIn b c next v).2 (calls ++ [⟨.string k, (valueIn b c next v).1, path⟩]) := by
  obtain ⟨st₁, hcall, h₁⟩ := (pushvalue_is (b := b) (c := c) h v).callmap f
  obtain ⟨st₂, hset, h₂⟩ := settable_in h₁ hkey
  refine ⟨st₂, ?_, h₂⟩
  simp only [maptoken, hc.map, hcall, ok_bind, hc.discard, Bool.false_eq_true, if_false, hset]

/-- A member that is a scalar, where no table lies below its key. -/
theorem value_fails (hc : Keeps c f) {k t : LuaValue N D}
    (h : st.Is (k :: t :: rest) path next calls) (ht : istable t = false) (s : Scalar N) :
    ∃ e, maptoken lib b c false st (event (.value s)) = .error e := by
  obtain ⟨st₁, hcall, h₁⟩ := (pushvalue_in (b := b) (c := c) h s).callmap f
  obtain ⟨e, he⟩ := settable_fails h₁.stack ht
  refine ⟨e, ?_⟩
  simp only [event, maptoken, hc.map, hcall, ok_bind, hc.discard, Bool.false_eq_true, if_false, he]

/-- The end of a container that is an element, whose key comes back unchanged. -/
theorem end_elem (hc : Keeps c f) {x k : LuaValue N D} {i : Int} {ref : Nat}
    {mt : Option (Metatable (LuaValue N D))} {fs : List (LuaValue N D × LuaValue N D)}
    (h : st.Is (x :: .integer i :: .table ref mt fs :: rest) (path ++ [k]) next calls) (h0 : 0 ≤ i)
    (h1 : i + 1 < 2 ^ 31) (hkey : (f (.integer i) x path).1 = .integer i) :
    ∃ st', endcontainer lib c st = .ok st' ∧
      st'.Is
        (.integer (i + 1) :: .table ref mt
          (setfield fs (.integer (i + 1)) (f (.integer i) x path).2) :: rest)
        path next (calls ++ [⟨.integer i, x, path⟩]) := by
  obtain ⟨st₁, hcall, h₁⟩ := h.shorten.callmap f
  obtain ⟨st₂, hset, h₂⟩ := seti_in h₁ (i + 1)
  refine ⟨_, ?_, h₂.pop.push _⟩
  have hback : st₁.below = .integer i := h₁.below.trans hkey
  simp only [endcontainer, h.below, isnil, Bool.false_eq_true, if_false, hc.discard, hc.map, hcall,
    ok_bind, hback, isinteger, if_true, lua_tointeger, lua_tointegerx, Option.getD_some,
    toint_succ h0 h1, hset]

/-- The end of a container that is a member: its value goes to the key that comes back. -/
theorem end_value (hc : Keeps c f) {x k key : LuaValue N D} {ref : Nat}
    {mt : Option (Metatable (LuaValue N D))} {fs : List (LuaValue N D × LuaValue N D)}
    (h : st.Is (x :: key :: .table ref mt fs :: rest) (path ++ [k]) next calls)
    (hslot : key.isnil = false) (hnil : (f key x path).1.isnil = false)
    (hint : (f key x path).1.isinteger = false) :
    ∃ st', endcontainer lib c st = .ok st' ∧
      st'.Is (.table ref mt (setfield fs (f key x path).1 (f key x path).2) :: rest) path next
        (calls ++ [⟨key, x, path⟩]) := by
  obtain ⟨st₁, hcall, h₁⟩ := h.shorten.callmap f
  obtain ⟨st₂, hset, h₂⟩ := settable_in h₁ hnil
  refine ⟨st₂, ?_, h₂⟩
  simp only [endcontainer, h.below, hslot, Bool.false_eq_true, if_false, hc.discard, hc.map, hcall,
    ok_bind, h₁.below, hint, hset]

/-- The end of a container that is a member and gets an integer key: it is taken for an
element, and the next index is left on the table. -/
theorem end_value_integer (hc : Keeps c f) {x k key : LuaValue N D} {ref : Nat}
    {mt : Option (Metatable (LuaValue N D))} {fs : List (LuaValue N D × LuaValue N D)}
    (h : st.Is (x :: key :: .table ref mt fs :: rest) (path ++ [k]) next calls)
    (hslot : key.isnil = false) (hint : (f key x path).1.isinteger) :
    ∃ st' i fs' calls', endcontainer lib c st = .ok st' ∧
      st'.Is (.integer i :: .table ref mt fs' :: rest) path next calls' := by
  obtain ⟨st₁, hcall, h₁⟩ := h.shorten.callmap f
  obtain ⟨st₂, hset, h₂⟩ := seti_in h₁ (toint (lua_tointeger lib (f key x path).1) + 1).toInt
  refine ⟨_, (toint (lua_tointeger lib (f key x path).1) + 1).toInt, _, _, ?_, h₂.pop.push _⟩
  simp only [endcontainer, h.below, hslot, Bool.false_eq_true, if_false, hc.discard, hc.map, hcall,
    ok_bind, h₁.below, hint, if_true, hset]

/-- The end of a container where no table lies below its key. -/
theorem end_fails (hc : Keeps c f) {x key t : LuaValue N D} (h : st.stack = x :: key :: t :: rest)
    (hslot : key.isnil = false) (ht : istable t = false) :
    ∃ e, endcontainer lib c st = .error e := by
  have hbelow : st.below = key := by rw [MapState.below, h]; rfl
  obtain ⟨st₁, hcall, hstack⟩ : ∃ st₁, MapState.callmap { st with patht_len := st.patht_len - 1 }
      (some f) = .ok st₁ ∧ ∃ x' key', st₁.stack = x' :: key' :: t :: rest := by
    simp only [MapState.callmap, h]
    exact ⟨_, rfl, _, _, rfl⟩
  obtain ⟨x', key', hstack⟩ := hstack
  obtain ⟨e, he⟩ := settable_fails hstack ht
  obtain ⟨e', he'⟩ := seti_fails hstack ht (toint (lua_tointeger lib st₁.below) + 1).toInt
  cases hint : st₁.below.isinteger with
  | true =>
    refine ⟨e', ?_⟩
    simp only [endcontainer, hbelow, hslot, Bool.false_eq_true, if_false, hc.discard, hc.map,
      hcall, ok_bind, hint, if_true, he']
    rfl
  | false =>
    refine ⟨e, ?_⟩
    simp only [endcontainer, hbelow, hslot, Bool.false_eq_true, if_false, hc.discard, hc.map,
      hcall, ok_bind, hint, he]

/-- The end of the outermost container. -/
theorem end_toplevel (hc : Keeps c f) {x : LuaValue N D}
    (h : st.Is (x :: .nil :: rest) path next calls) :
    ∃ st', endcontainer lib c st = .ok st' ∧
      st'.Is ((f .nil x path).2 :: (f .nil x path).1 :: rest) path next
        (calls ++ [⟨.nil, x, path⟩]) := by
  obtain ⟨st₁, hcall, h₁⟩ := h.callmap f
  refine ⟨st₁, ?_, h₁⟩
  simp only [endcontainer, h.below, isnil, if_true, hc.discard, Bool.false_eq_true, if_false, hc.map,
    hcall, ok_bind]

/-! ## The run over the members -/

variable {lib}

/-- The tokens of a container come to its end with its value on whatever lay below, if no key
misleads, and fail otherwise. -/
def Inside (lib : LuaLib N D) (b : Backend N D J P) (c : MapConfig N D) (f : MapFunc N D)
    (d : Json N) : Prop :=
  ∀ (st : MapState N D) (k : LuaValue N D) (rest path : List (LuaValue N D)) (next : Nat)
    (calls : List (Call N D)) (w : Scalar N → Token Bytes (Scalar N)),
    st.pushpath.Is (k :: rest) path next calls → istable k = false →
    (Told b c f path next d →
      ∃ st', runtokens lib b c st (d.listed w) = endcontainer lib c st' ∧
        st'.Is ((foldDoc b c f path next d).1 :: k :: rest) path (foldDoc b c f path next d).2
          (calls ++ (visits b c f path next d).map Visit.call)) ∧
    (¬ Told b c f path next d → ∃ e, runtokens lib b c st (d.listed w) = .error e)

/-- An element of an array. -/
theorem elem_doc (hc : Keeps c f) (harr : ∀ i v p, (f (.integer i) v p).1 = .integer i) {x : Json N}
    (hx : root_is_scalar x = false → Inside lib b c f x) {i : Int} {ref : Nat}
    {mt : Option (Metatable (LuaValue N D))} {fs : List (LuaValue N D × LuaValue N D)}
    (h : st.Is (.integer i :: .table ref mt fs :: rest) path next calls) (h0 : 0 ≤ i)
    (h1 : i + 1 < 2 ^ 31) :
    (Told b c f (path ++ [.integer i]) next x →
      ∃ st', runtokens lib b c st (x.listed .elem) = .ok st' ∧
        st'.Is
          (.integer (i + 1) :: .table ref mt (setfield fs (.integer (i + 1))
            (f (.integer i) (foldDoc b c f (path ++ [.integer i]) next x).1 path).2) :: rest)
          path (foldDoc b c f (path ++ [.integer i]) next x).2
          (calls ++ (visits b c f (path ++ [.integer i]) next x).map Visit.call ++
            [⟨.integer i, (foldDoc b c f (path ++ [.integer i]) next x).1, path⟩])) ∧
    (¬ Told b c f (path ++ [.integer i]) next x →
      ∃ e, runtokens lib b c st (x.listed .elem) = .error e) := by
  cases hs : root_is_scalar x with
  | true =>
    cases x with
    | scalar s =>
      obtain ⟨st', hrun, h'⟩ := elem_value (b := b) lib hc h h0 h1 s.toJsonbValue
      refine ⟨fun _ => ⟨st', ?_, ?_⟩, fun hno => absurd trivial hno⟩
      · rw [Doc.listed, runtokens_one]
        exact hrun
      · simpa [foldDoc, visits, valueIn_scalar] using h'
    | array xs => cases hs
    | object ms => cases hs
  | false =>
    obtain ⟨hok, hfail⟩ := hx hs st _ _ _ next calls .elem (h.pushpath rfl) rfl
    refine ⟨fun htold => ?_, hfail⟩
    obtain ⟨st₁, hrun, h₁⟩ := hok htold
    obtain ⟨st₂, hend, h₂⟩ := end_elem lib hc h₁ h0 h1 (harr _ _ _)
    exact ⟨st₂, hrun.trans hend, h₂⟩

/-- The elements that come after the first `i`. -/
theorem elems_in (hc : Keeps c f) (harr : ∀ i v p, (f (.integer i) v p).1 = .integer i)
    {xs : List (Json N)} (ih : ∀ x ∈ xs, root_is_scalar x = false → Inside lib b c f x)
    {st : MapState N D} {next : Nat} {calls : List (Call N D)} {i : Int} {ref : Nat}
    {mt : Option (Metatable (LuaValue N D))} {fs : List (LuaValue N D × LuaValue N D)}
    (h : st.Is (.integer i :: .table ref mt fs :: rest) path next calls) (h0 : 0 ≤ i)
    (h1 : i + xs.length < 2 ^ 31) :
    (ToldElems b c f path i next xs →
      ∃ st', runtokens lib b c st (listedElems xs) = .ok st' ∧
        st'.Is
          (.integer (i + xs.length) ::
            .table ref mt (foldElems b c f path i next fs xs).1 :: rest)
          path (foldElems b c f path i next fs xs).2
          (calls ++ (visitsElems b c f path i next xs).map Visit.call)) ∧
    (¬ ToldElems b c f path i next xs →
      ∃ e, runtokens lib b c st (listedElems xs) = .error e) := by
  induction xs generalizing st i fs next calls with
  | nil =>
    refine ⟨fun _ => ⟨st, rfl, ?_⟩, fun hno => absurd trivial hno⟩
    simpa [foldElems, visitsElems] using h
  | cons x xs ihxs =>
    rw [List.length_cons] at h1
    obtain ⟨hok, hfail⟩ := elem_doc hc harr (ih x List.mem_cons_self) h h0 (by omega)
    rw [listedElems, runtokens_append]
    by_cases hx : Told b c f (path ++ [.integer i]) next x
    · obtain ⟨st₁, hrun, h₁⟩ := hok hx
      obtain ⟨hok', hfail'⟩ := ihxs (fun y hy => ih y (List.mem_cons_of_mem x hy)) h₁
        (by omega) (by omega)
      rw [hrun, ok_bind]
      constructor
      · rintro ⟨-, hxs⟩
        obtain ⟨st₂, hrun', h₂⟩ := hok' hxs
        have hlen : i + 1 + (xs.length : Int) = i + ((x :: xs).length : Nat) := by
          rw [List.length_cons]
          omega
        refine ⟨st₂, hrun', ?_⟩
        simpa [foldElems, visitsElems, hlen] using h₂
      · exact fun hno => hfail' fun hxs => hno ⟨hx, hxs⟩
    · obtain ⟨e, he⟩ := hfail hx
      refine ⟨fun hall => absurd hall.1 hx, fun _ => ⟨e, ?_⟩⟩
      rw [he]
      rfl

/-- The rest of an object, where an index was left on its table: it fails at the next scalar
or at the end of the next container, which can be the object itself. -/
theorem members_fail (hc : Keeps c f) {ms : List (Bytes × Json N)}
    (ih : ∀ m ∈ ms, root_is_scalar m.2 = false → Inside lib b c f m.2) {i : Int} {t k : LuaValue N D}
    (ht : t.isnil = false) (hk : istable k = false)
    (h : st.Is (.integer i :: t :: k :: rest) path next calls) :
    ∃ e, runtokens lib b c st (listedMembers ms ++ [.endObject]) = .error e := by
  cases ms with
  | nil =>
    obtain ⟨e, he⟩ := end_fails lib hc h.stack ht hk
    exact ⟨e, (runtokens_one lib b c st .endObject).trans he⟩
  | cons m ms =>
    have hkey : maptoken lib b c false st (event (.key m.1)) = .ok (st.push (.string m.1)) := rfl
    have hpush := h.push (.string m.1)
    suffices hval : ∃ e, runtokens lib b c (st.push (.string m.1)) (m.2.listed .value) = .error e by
      obtain ⟨e, he⟩ := hval
      refine ⟨e, ?_⟩
      rw [listedMembers, List.cons_append, runtokens_cons, hkey, ok_bind, List.append_assoc,
        runtokens_append, he]
      rfl
    cases hs : root_is_scalar m.2 with
    | true =>
      obtain ⟨k', d⟩ := m
      cases d with
      | scalar s =>
        obtain ⟨e, he⟩ := value_fails (b := b) lib hc hpush rfl s
        exact ⟨e, (runtokens_one lib b c _ _).trans he⟩
      | array xs => cases hs
      | object ms => cases hs
    | false =>
      obtain ⟨hok, hfail⟩ := ih m List.mem_cons_self hs _ _ _ _ _ _ .value (hpush.pushpath rfl) rfl
      by_cases htold : Told b c f (path ++ [.string m.1]) next m.2
      · obtain ⟨st', hrun, h'⟩ := hok htold
        obtain ⟨e, he⟩ := end_fails lib hc h'.stack rfl rfl
        exact ⟨e, hrun.trans he⟩
      · exact hfail htold

/-- A member of an object, up to the key that comes back for it. -/
theorem member_doc (hc : Keeps c f) (hobj : ∀ k v p, (f (.string k) v p).1.isnil = false)
    {m : Bytes × Json N} (hm : root_is_scalar m.2 = false → Inside lib b c f m.2) {ref : Nat}
    {mt : Option (Metatable (LuaValue N D))} {fs : List (LuaValue N D × LuaValue N D)}
    (h : st.Is (.table ref mt fs :: rest) path next calls) :
    (Told b c f (path ++ [.string m.1]) next m.2 → KeyTold b c f path next m →
      ∃ st', runtokens lib b c st (.key m.1 :: m.2.listed .value) = .ok st' ∧
        st'.Is
          (.table ref mt (setfield fs
            (f (.string m.1) (foldDoc b c f (path ++ [.string m.1]) next m.2).1 path).1
            (f (.string m.1) (foldDoc b c f (path ++ [.string m.1]) next m.2).1 path).2) :: rest)
          path (foldDoc b c f (path ++ [.string m.1]) next m.2).2
          (calls ++ (visits b c f (path ++ [.string m.1]) next m.2).map Visit.call ++
            [⟨.string m.1, (foldDoc b c f (path ++ [.string m.1]) next m.2).1, path⟩])) ∧
    (Told b c f (path ++ [.string m.1]) next m.2 → ¬ KeyTold b c f path next m →
      ∃ st' i fs' next' calls', runtokens lib b c st (.key m.1 :: m.2.listed .value) = .ok st' ∧
        st'.Is (.integer i :: .table ref mt fs' :: rest) path next' calls') ∧
    (¬ Told b c f (path ++ [.string m.1]) next m.2 →
      ∃ e, runtokens lib b c st (.key m.1 :: m.2.listed .value) = .error e) := by
  have hkey : maptoken lib b c false st (event (.key m.1)) = .ok (st.push (.string m.1)) := rfl
  have hpush := h.push (.string m.1)
  rw [runtokens_cons, hkey, ok_bind]
  cases hs : root_is_scalar m.2 with
  | true =>
    obtain ⟨k, d⟩ := m
    cases d with
    | scalar s =>
      obtain ⟨st', hrun, h'⟩ := value_value (b := b) lib hc hpush s.toJsonbValue (hobj _ _ _)
      refine ⟨fun _ _ => ⟨st', ?_, ?_⟩, fun _ hno => absurd hs ?_, fun hno => absurd trivial hno⟩
      · rw [Doc.listed, runtokens_one]
        exact hrun
      · simpa [foldDoc, visits, valueIn_scalar] using h'
      · intro hs'
        exact hno fun hs'' => absurd (hs'.symm.trans hs'') (by decide)
    | array xs => cases hs
    | object ms => cases hs
  | false =>
    obtain ⟨hok, hfail⟩ := hm hs _ _ _ _ _ _ .value (hpush.pushpath rfl) rfl
    refine ⟨fun htold hint => ?_, fun htold hno => ?_, hfail⟩
    · obtain ⟨st₁, hrun, h₁⟩ := hok htold
      obtain ⟨st₂, hend, h₂⟩ := end_value lib hc h₁ rfl (hobj _ _ _) (hint hs)
      exact ⟨st₂, hrun.trans hend, h₂⟩
    · obtain ⟨st₁, hrun, h₁⟩ := hok htold
      have hint : (f (.string m.1) (foldDoc b c f (path ++ [.string m.1]) next m.2).1
          path).1.isinteger = true := by
        by_contra hfalse
        exact hno fun _ => eq_false_of_ne_true hfalse
      obtain ⟨st₂, i, fs', calls', hend, h₂⟩ := end_value_integer lib hc h₁ rfl hint
      exact ⟨st₂, i, fs', _, calls', hrun.trans hend, h₂⟩

/-- The members of an object, and its end where a key misleads. -/
theorem members_in (hc : Keeps c f) (hobj : ∀ k v p, (f (.string k) v p).1.isnil = false)
    {ms : List (Bytes × Json N)} (ih : ∀ m ∈ ms, root_is_scalar m.2 = false → Inside lib b c f m.2)
    {st : MapState N D} {next : Nat} {calls : List (Call N D)} {ref : Nat} {k : LuaValue N D}
    {mt : Option (Metatable (LuaValue N D))} {fs : List (LuaValue N D × LuaValue N D)}
    (hk : istable k = false) (h : st.Is (.table ref mt fs :: k :: rest) path next calls) :
    (ToldMembers b c f path next ms →
      ∃ st', runtokens lib b c st (listedMembers ms) = .ok st' ∧
        st'.Is (.table ref mt (foldMembers b c f path next fs ms).1 :: k :: rest)
          path (foldMembers b c f path next fs ms).2
          (calls ++ (visitsMembers b c f path next ms).map Visit.call)) ∧
    (¬ ToldMembers b c f path next ms →
      ∃ e, runtokens lib b c st (listedMembers ms ++ [.endObject]) = .error e) := by
  induction ms generalizing st fs next calls with
  | nil =>
    refine ⟨fun _ => ⟨st, rfl, ?_⟩, fun hno => absurd trivial hno⟩
    simpa [foldMembers, visitsMembers] using h
  | cons m ms ihms =>
    obtain ⟨hok, hint, hfail⟩ := member_doc hc hobj (ih m List.mem_cons_self) h
    have hih : ∀ n ∈ ms, root_is_scalar n.2 = false → Inside lib b c f n.2 :=
      fun n hn => ih n (List.mem_cons_of_mem m hn)
    rw [listedMembers, ← List.cons_append, runtokens_append, List.append_assoc, runtokens_append]
    by_cases hm : Told b c f (path ++ [.string m.1]) next m.2
    · by_cases htold : KeyTold b c f path next m
      · obtain ⟨st₁, hrun, h₁⟩ := hok hm htold
        obtain ⟨hok', hfail'⟩ := ihms hih h₁
        rw [hrun, ok_bind, ok_bind]
        constructor
        · rintro ⟨-, -, hms⟩
          obtain ⟨st₂, hrun', h₂⟩ := hok' hms
          refine ⟨st₂, hrun', ?_⟩
          simpa [foldMembers, visitsMembers] using h₂
        · exact fun hno => hfail' fun hms => hno ⟨hm, htold, hms⟩
      · obtain ⟨st₁, i, fs', next', calls', hrun, h₁⟩ := hint hm htold
        refine ⟨fun hall => absurd hall.2.1 htold, fun _ => ?_⟩
        rw [hrun, ok_bind]
        exact members_fail hc hih rfl hk h₁
    · obtain ⟨e, he⟩ := hfail hm
      refine ⟨fun hall => absurd hall.1 hm, fun _ => ⟨e, ?_⟩⟩
      rw [he]
      rfl

/-- A container, by induction on the document. -/
theorem inside_doc (hc : Keeps c f) (harr : ∀ i v p, (f (.integer i) v p).1 = .integer i)
    (hobj : ∀ k v p, (f (.string k) v p).1.isnil = false) {d : Json N} (hcount : d.all counts_fit) :
    root_is_scalar d = false → Inside lib b c f d := by
  induction d using Doc.induct with
  | scalar s => exact nofun
  | array xs ih =>
    intro _ st k rest path next calls w h _
    obtain ⟨hlen, hcs⟩ := (all_array _ xs).mp hcount
    have hbegin : maptoken lib b c false st (event .beginArray) =
        .ok ((st.pushpath.newtable array_mt).push (.integer 0)) := by
      simp [event, maptoken, hc.discard]
    have hinit := (h.newtable array_mt).push (.integer 0)
    obtain ⟨hok, hfail⟩ := elems_in hc harr (fun x hx => ih x hx (hcs x hx)) hinit
      (le_refl 0) (by have := length_of_counts hlen; omega)
    rw [Doc.listed, runtokens_cons, hbegin, ok_bind, runtokens_append]
    constructor
    · intro htold
      obtain ⟨st₁, hrun, h₁⟩ := hok htold
      refine ⟨st₁.pop, ?_, ?_⟩
      · rw [hrun, ok_bind, runtokens_one]
        rfl
      · exact h₁.pop
    · intro hno
      obtain ⟨e, he⟩ := hfail hno
      exact ⟨e, by rw [he]; rfl⟩
  | object ms ih =>
    intro _ st k rest path next calls w h hk
    obtain ⟨-, hcs⟩ := (all_object _ ms).mp hcount
    have hbegin : maptoken lib b c false st (event .beginObject) =
        .ok (st.pushpath.newtable object_mt) := by
      simp [event, maptoken, hc.discard]
    rw [Doc.listed, runtokens_cons, hbegin, ok_bind]
    obtain ⟨hok, hfail⟩ := members_in hc hobj (fun m hm => ih m hm (hcs m hm)) hk
      (h.newtable object_mt)
    refine ⟨fun htold => ?_, hfail⟩
    obtain ⟨st₁, hrun, h₁⟩ := hok htold
    refine ⟨st₁, ?_, h₁⟩
    rw [runtokens_append, hrun, ok_bind, runtokens_one]
    rfl

/-! ## The result of the map -/

variable (lib)

/-- The tokens of a whole jsonb, from the state before the first token. -/
theorem runtokens_toplevel (hc : Keeps c f) (harr : ∀ i v p, (f (.integer i) v p).1 = .integer i)
    (hobj : ∀ k v p, (f (.string k) v p).1.isnil = false) {d : Json N}
    (hd : root_is_scalar d = false) (hcount : d.all counts_fit) (next : Nat) :
    (Told b c f [] (next + 1) d →
      ∃ st', runtokens lib b c (mapstart next) (d.listed .elem) = .ok st' ∧
        st'.stack.head? = some (jsonb_fold b c f next d) ∧
        st'.calls = (visits b c f [] (next + 1) d).map Visit.call ++
          [⟨.nil, (foldDoc b c f [] (next + 1) d).1, []⟩]) ∧
    (¬ Told b c f [] (next + 1) d →
      ∃ e, runtokens lib b c (mapstart next) (d.listed .elem) = .error e) := by
  have hstart : (mapstart next : MapState N D).pushpath.Is [.nil, .table next none []] []
      (next + 1) [] := by
    rw [MapState.pushpath_of_nil _ rfl]
    exact ⟨rfl, rfl, rfl, rfl, rfl⟩
  obtain ⟨hok, hfail⟩ := inside_doc hc harr hobj hcount hd _ _ _ _ _ _ .elem hstart rfl
  refine ⟨fun htold => ?_, hfail⟩
  obtain ⟨st₁, hrun, h₁⟩ := hok htold
  obtain ⟨st₂, hend, h₂⟩ := end_toplevel lib hc h₁
  refine ⟨st₂, hrun.trans hend, ?_, ?_⟩
  · rw [h₂.stack]
    rfl
  · rw [h₂.calls]
    rfl

variable {lib}

/-- A document that is no scalar is listed as the iterator gives it. -/
theorem iterated_container {d : Json N} (h : root_is_scalar d = false) :
    iterated d = d.listed .elem := by
  cases d with
  | scalar s => cases h
  | array xs => rfl
  | object ms => rfl

/-- The map of a jsonb gives the fold exactly if no container that is a member of an object
gets an integer key and, for a container without members, for which the function is not
called, the function would return a plain empty table. -/
theorem the_map_is_the_fold_iff_no_key_misleads {keylt : Bytes → Bytes → Bool} {value : J → Json N}
    (h : Documented b keylt value) (pg_numeric : Bool) (null : LuaValue N D)
    (harr : ∀ i v p, (f (.integer i) v p).1 = .integer i)
    (hobj : ∀ k v p, (f (.string k) v p).1.isnil = false) (next : Nat) (j : J) :
    (pllua_jsonb_map lib b next j (.table (mapping f false pg_numeric null))).map Prod.fst =
        .ok (some (jsonb_fold b (mapping f false pg_numeric null) f next (value j))) ↔
      (root_count (value j) = 0 →
        jsonb_fold b (mapping f false pg_numeric null) f next (value j) = .table next none []) ∧
      Told b (mapping f false pg_numeric null) f [] (next + 1) (value j) := by
  have hc : Keeps (mapping f false pg_numeric null) f := ⟨rfl, rfl⟩
  rw [pllua_jsonb_map, h.count]
  by_cases hzero : root_count (value j) = 0
  · have htold : Told b (mapping f false pg_numeric null) f [] (next + 1) (value j) := by
      cases hd : value j with
      | scalar s => exact trivial
      | array xs =>
        rw [hd] at hzero
        rw [List.eq_nil_of_length_eq_zero hzero]
        exact trivial
      | object ms =>
        rw [hd] at hzero
        rw [List.eq_nil_of_length_eq_zero hzero]
        exact trivial
    simp [hzero, htold, MapArg.config, Except.map, eq_comm]
  · simp only [hzero, if_false, MapArg.config, h.is_scalar, mapping_discard, mapping_norecurse,
      h.iterator, Bool.false_eq_true, false_implies, true_and]
    cases hs : root_is_scalar (value j) with
    | true =>
      cases hd : value j with
      | scalar s =>
        have hstart : (mapstart next : MapState N D).Is [.nil, .table next none []] []
            (next + 1) [] := ⟨rfl, rfl, rfl, rfl, rfl⟩
        obtain ⟨st₁, hcall, h₁⟩ := (pushvalue_in (b := b) (c := mapping f false pg_numeric null)
          hstart s).callmap f
        rw [mapstart] at hcall
        refine iff_of_true ?_ trivial
        simp [iterated, event, maptoken, hcall, h₁.stack, jsonb_fold, foldDoc, Except.map]
      | array xs => simp [hd, root_is_scalar] at hs
      | object ms => simp [hd, root_is_scalar] at hs
    | false =>
      rw [iterated_container hs]
      obtain ⟨hok, hfail⟩ := runtokens_toplevel (b := b) lib hc harr hobj hs (h.counts j)
        next
      by_cases htold : Told b (mapping f false pg_numeric null) f [] (next + 1) (value j)
      · obtain ⟨st', hrun, hstack, -⟩ := hok htold
        rw [runtokens, mapstart] at hrun
        refine iff_of_true ?_ htold
        rw [hrun, ok_bind, hstack]
        rfl
      · obtain ⟨e, he⟩ := hfail htold
        rw [runtokens, mapstart] at he
        refine iff_of_false ?_ htold
        rw [he]
        intro heq
        cases heq

end

/-- A map function that renames the members called `a`. -/
def rename_a (key : LuaValue Int StoredJsonb) : MapFunc Int StoredJsonb := fun k v _ =>
  (match k with
    | .string [97] => key
    | k => k, v)

theorem rename_a_elem (key : LuaValue Int StoredJsonb) (i : Int) (v : LuaValue Int StoredJsonb)
    (p : List (LuaValue Int StoredJsonb)) : (rename_a key (.integer i) v p).1 = .integer i := rfl

theorem rename_a_member {key : LuaValue Int StoredJsonb} (hkey : key.isnil = false) (k : Bytes)
    (v : LuaValue Int StoredJsonb) (p : List (LuaValue Int StoredJsonb)) :
    (rename_a key (.string k) v p).1.isnil = false := by
  unfold rename_a
  split
  · exact hkey
  · rfl

/-- The jsonb `{"b": {"a": 1}}`. -/
def member_inside : StoredJsonb :=
  ⟨.object [([98], .object [([97], .scalar (.numeric 1))])], by decide⟩

/-- A scalar member may get an integer key. -/
theorem a_scalar_gets_an_integer_key :
    (pllua_jsonb_map insertionorder reference 0 member_inside
      (.table (mapping (rename_a (.integer 7)) false false .nil))).map Prod.fst =
    .ok (some (jsonb_fold reference (mapping (rename_a (.integer 7)) false false .nil)
      (rename_a (.integer 7)) 0 member_inside.1)) :=
  (the_map_is_the_fold_iff_no_key_misleads reference_documented false .nil
    (rename_a_elem (.integer 7)) (rename_a_member rfl) 0 member_inside).mpr
    ⟨nofun, ⟨trivial, nofun, trivial⟩, fun _ => rfl, trivial⟩

/-- The jsonb `{"a": {}, "b": 1}`. -/
def member_before : StoredJsonb :=
  ⟨.object [([97], .object []), ([98], .scalar (.numeric 1))], by decide⟩

/-- A container that gets an integer key is taken for an element, and the map fails at the
member after it. -/
theorem a_container_gets_an_integer_key :
    (∀ i v p, (rename_a (.integer 7) (.integer i) v p).1 = .integer i) ∧
    (∀ k v p, (rename_a (.integer 7) (.string k) v p).1.isnil = false) ∧
    pllua_jsonb_map insertionorder reference 0 member_before
      (.table (mapping (rename_a (.integer 7)) false false .nil)) =
        .error "attempt to index a number value" ∧
    ¬ ((pllua_jsonb_map insertionorder reference 0 member_before
      (.table (mapping (rename_a (.integer 7)) false false .nil))).map Prod.fst =
        .ok (some (jsonb_fold reference (mapping (rename_a (.integer 7)) false false .nil)
          (rename_a (.integer 7)) 0 member_before.1))) := by
  have hrun : pllua_jsonb_map insertionorder reference 0 member_before
      (.table (mapping (rename_a (.integer 7)) false false .nil)) =
        .error "attempt to index a number value" := rfl
  refine ⟨rename_a_elem _, rename_a_member rfl, hrun, ?_⟩
  rw [hrun]
  exact nofun

end pllua.jsonb
