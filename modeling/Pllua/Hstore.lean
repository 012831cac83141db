-- The transform between hstore values and Lua tables (hstore_pllua.c): null is false in a table, and
-- a table or an object with `__pairs` is read into an array of pairs with the string forms of its
-- keys and values.
import Pllua.Entries
import Pllua.HstoreFormat

open entries

namespace pllua.hstore

/-! ## Lua and the extension hstore -/

/-- A Lua value, where `V` are those that are neither nil, booleans nor strings. -/
inductive Val (V : Type)
  | nil
  | boolean (b : Bool)
  | string (s : Bytes)
  | other (v : V)
deriving DecidableEq

/-- `lua_isnil(L, -1) || (lua_isboolean(L, -1) && !lua_toboolean(L, -1))` -/
def Val.isnull {V : Type} : Val V → Bool
  | .nil | .boolean false => true
  | _ => false

def Val.isnil {V : Type} : Val V → Bool
  | .nil => true
  | _ => false

inductive Err
  /-- raised by Lua code -/
  | lua (message : Bytes)
  /-- `string too long for hstore key` -/
  | too_long
  /-- `invalid byte sequence for encoding` -/
  | encoding

/-- What Lua does: `luaL_tolstring`, and a call of an iterator function with a key, where `I` are the
functions with what they keep. -/
structure Lua (V I : Type) where
  tolstring : Val V → Except Err Bytes
  iterate : I → Val V → Except Err (Val V × Val V × I)

/-- The functions of the extension hstore and of the server that are called. `hstoreUniquePairs` gives
the pairs that it leaves and the length of their strings. -/
structure Lib where
  hstoreCheckKeyLen : Nat → Except Err Nat
  pg_verifymbstr : Bytes → Except Err Unit
  hstoreUniquePairs : List Pairs → List Pairs × Nat
  hstorePairs : List Pairs → Nat → HStore

variable {V I : Type}

/-! ## From hstore -/

def hstore_to_pllua_real [DecidableEq V] (hs : HStore) : List (Val V × Val V) :=
  (List.range hs.count).foldl (fun t i => set_entry (.string (hs.key i))
    (if hs.valisnull i then .boolean false else .string (hs.val i)) t) []

/-! ## To hstore -/

/-- The argument: what a call of its metamethod `__pairs` gives, if it has one, and its entries in the
order of `lua_next`, if it is a table. -/
structure Arg (V I : Type) where
  pairs : Option (Except Err (I × Val V))
  entries : Option (List (Val V × Val V))

/-- Where the loop is: before the rest of the entries, or at a key. -/
inductive Loop (V I : Type)
  | table (rest : List (Val V × Val V))
  | object (i : I) (key : Val V)

/-- `pllua_pairs_next`, or `lua_next`. -/
def Loop.next (lua : Lua V I) : Loop V I → Except Err (Option ((Val V × Val V) × Loop V I))
  | .table [] => .ok none
  | .table (e :: rest) => .ok (some (e, .table rest))
  | .object i key => do
    let (key, val, i) ← lua.iterate i key
    if key.isnil then return none else return some ((key, val), .object i key)

/-- The running index and the two tables. -/
structure Collected where
  idx : Nat
  keys : Nat → Option Bytes
  vals : Nat → Option Bytes

/-- One turn of the loop. The table of values has a hole for a null. -/
def Collected.add (lua : Lua V I) (c : Collected) (e : Val V × Val V) : Except Err Collected := do
  let vals ← if e.2.isnull then pure c.vals else do
    let s ← lua.tolstring e.2
    pure (Function.update c.vals (c.idx + 1) (some s))
  let s ← lua.tolstring e.1
  return ⟨c.idx + 1, Function.update c.keys (c.idx + 1) (some s), vals⟩

/-- The loop, with a bound on its turns. -/
def collect (lua : Lua V I) : Nat → Loop V I → Collected → Option (Except Err Collected)
  | 0, _, _ => none
  | turns + 1, loop, c =>
    match loop.next lua with
    | .error e => some (.error e)
    | .ok none => some (.ok c)
    | .ok (some (e, loop)) =>
      match c.add lua e with
      | .error e => some (.error e)
      | .ok c => collect lua turns loop c

/-- The element of the array for an index, from the two tables. -/
def Collected.pair (c : Collected) (idx : Nat) : Pairs :=
  { key := (c.keys (idx + 1)).getD []
    val := (c.vals (idx + 1)).getD []
    isnull := (c.vals (idx + 1)).isNone
    needfree := false }

def Collected.array (c : Collected) : List Pairs := (List.range c.idx).map c.pair

/-- `pllua_pairs_start`; an argument that is neither a table nor has the metamethod is declined. -/
def Arg.start (arg : Arg V I) : Except Err (Option (Loop V I)) :=
  match arg.pairs with
  | some started => started.map fun i => some (.object i.1 i.2)
  | none => .ok (arg.entries.map .table)

def pllua_to_hstore_real (lua : Lua V I) (turns : Nat) (args : List (Arg V I)) :
    Option (Except Err (Option (List Pairs))) :=
  match args with
  | [arg] =>
    match arg.start with
    | .error e => some (.error e)
    | .ok none => some (.ok none)
    | .ok (some loop) =>
      (collect lua turns loop ⟨0, fun _ => none, fun _ => none⟩).map
        fun r => r.map fun c => some c.array
  | _ => some (.ok none)

/-- The lengths and the encoding of a pair are checked. -/
def check_pair (lib : Lib) (p : Pairs) : Except Err Pairs := do
  let keylen ← lib.hstoreCheckKeyLen p.key.length
  let vallen ← lib.hstoreCheckKeyLen p.val.length
  lib.pg_verifymbstr (p.key.take keylen)
  lib.pg_verifymbstr (p.val.take vallen)
  return { p with key := p.key.take keylen, val := p.val.take vallen }

def Lib.build (lib : Lib) (ps : List Pairs) : HStore :=
  lib.hstorePairs (lib.hstoreUniquePairs ps).1 (lib.hstoreUniquePairs ps).2

def pllua_to_hstore (lib : Lib) (lua : Lua V I) (turns : Nat) (args : List (Arg V I)) :
    Option (Except Err (Option HStore)) :=
  (pllua_to_hstore_real lua turns args).map fun r => do
    match ← r with
    | none => return none
    | some pairs => return some (lib.build (← pairs.mapM (check_pair lib)))

/-! ## What the library promises -/

/-- An array of pairs with distinct keys is made into a value with these pairs, the same one for the
same pairs in any order. A length that passes the check is returned, and nothing is wrong with no
bytes at all. -/
structure Lib.Canonical (lib : Lib) : Prop where
  pairs : ∀ ps, (ps.map Pairs.key).Nodup → (lib.build ps).pairs.Perm (ps.map Pairs.pair)
  same : ∀ ps qs, (ps.map Pairs.key).Nodup → (ps.map Pairs.pair).Perm (qs.map Pairs.pair) →
    lib.build ps = lib.build qs
  checked : ∀ n m, lib.hstoreCheckKeyLen n = .ok m → m = n
  empty : lib.hstoreCheckKeyLen 0 = .ok 0 ∧ lib.pg_verifymbstr [] = .ok ()

/-- A string that may stand in a value. -/
def Lib.Accepts (lib : Lib) (s : Bytes) : Prop :=
  lib.hstoreCheckKeyLen s.length = .ok s.length ∧ lib.pg_verifymbstr s = .ok ()

def Lib.AcceptsPair (lib : Lib) (p : Bytes × Option Bytes) : Prop :=
  lib.Accepts p.1 ∧ ∀ s, p.2 = some s → lib.Accepts s

/-- A value of the type: it has been made of some pairs with distinct keys and accepted strings. -/
def Lib.IsHstore (lib : Lib) (hs : HStore) : Prop :=
  ∃ ps, (ps.map Pairs.key).Nodup ∧ (∀ p ∈ ps, lib.AcceptsPair p.pair) ∧ hs = lib.build ps

/-! ## The table of a value -/

/-- The entry of a table for a pair. -/
def entry_of (p : Bytes × Option Bytes) : Val V × Val V :=
  (.string p.1, match p.2 with
    | none => .boolean false
    | some s => .string s)

section
variable [DecidableEq V]

/-- A value with distinct keys has one entry for each pair. -/
theorem hstore_to_pllua_entries {hs : HStore} (hnodup : (hs.pairs.map Prod.fst).Nodup) :
    hstore_to_pllua_real hs = hs.pairs.map (entry_of (V := V)) := by
  have fold : hstore_to_pllua_real hs =
      (hs.pairs.map (entry_of (V := V))).foldl (fun t e => set_entry e.1 e.2 t) [] := by
    unfold hstore_to_pllua_real HStore.pairs
    rw [List.map_map, List.foldl_map]
    congr 1
    funext t i
    dsimp only [Function.comp, entry_of]
    cases hs.valisnull i <;> rfl
  have keys : ((hs.pairs.map (entry_of (V := V))).map Prod.fst).Nodup := by
    have : (hs.pairs.map (entry_of (V := V))).map Prod.fst =
        (hs.pairs.map Prod.fst).map Val.string := by
      rw [List.map_map, List.map_map]
      rfl
    rw [this]
    exact hnodup.map fun _ _ h => Val.string.inj h
  rw [fold, foldl_set_entry (by rwa [List.nil_append]), List.nil_append]

end

/-! ## The array of a table or an object -/

/-- What the loop visits until there is no further key. -/
inductive Visits (lua : Lua V I) : Loop V I → List (Val V × Val V) → Prop
  | done {loop : Loop V I} (hnext : loop.next lua = .ok none) : Visits lua loop []
  | turn {loop loop' : Loop V I} {e : Val V × Val V} {es : List (Val V × Val V)}
      (hnext : loop.next lua = .ok (some (e, loop'))) (hrest : Visits lua loop' es) :
      Visits lua loop (e :: es)

/-- The keys and values of a table or of an object with `__pairs`. -/
def Arg.Gives (lua : Lua V I) (arg : Arg V I) (es : List (Val V × Val V)) : Prop :=
  ∃ loop, arg.start = .ok (some loop) ∧ Visits lua loop es

/-- The string form of a key, and that of the value unless it is false or nil. -/
def form (lua : Lua V I) (e : Val V × Val V) : Except Err (Bytes × Option Bytes) := do
  let v ← if e.2.isnull then pure none else (lua.tolstring e.2).map some
  let k ← lua.tolstring e.1
  return (k, v)

/-- The two tables hold the strings of these pairs and nothing else. -/
structure Holds (c : Collected) (ps : List (Bytes × Option Bytes)) : Prop where
  idx : c.idx = ps.length
  keys : ∀ i, c.keys (i + 1) = ps[i]?.map Prod.fst
  vals : ∀ i, c.vals (i + 1) = ps[i]?.bind Prod.snd

section
variable {lua : Lua V I}

theorem visits_table (lua : Lua V I) (es : List (Val V × Val V)) : Visits lua (.table es) es := by
  induction es with
  | nil => exact .done rfl
  | cons e es ih => exact .turn rfl ih

/-- With enough turns the loop takes up what it visits. -/
theorem collect_visits {loop : Loop V I} {es : List (Val V × Val V)} (hv : Visits lua loop es)
    {turns : Nat} (hturns : es.length < turns) (c : Collected) :
    collect lua turns loop c = some (es.foldlM (Collected.add lua) c) := by
  induction hv generalizing turns c with
  | done hnext =>
    cases turns with
    | zero => exact absurd hturns (Nat.not_lt_zero _)
    | succ turns =>
      rw [collect, hnext]
      rfl
  | turn hnext _ ih =>
    rename_i e es _
    cases turns with
    | zero => exact absurd hturns (Nat.not_lt_zero _)
    | succ turns =>
      rw [List.foldlM_cons]
      cases hadd : c.add lua e with
      | error x =>
        simp only [collect, hnext, hadd]
        rfl
      | ok c' =>
        simp only [collect, hnext, hadd]
        exact ih (Nat.lt_of_succ_lt_succ hturns) c'

theorem holds_nil : Holds ⟨0, fun _ => none, fun _ => none⟩ [] := ⟨rfl, fun _ => rfl, fun _ => rfl⟩

/-- The strings of one more pair, with a hole for a null. -/
def Collected.push (c : Collected) (p : Bytes × Option Bytes) : Collected where
  idx := c.idx + 1
  keys := Function.update c.keys (c.idx + 1) (some p.1)
  vals := match p.2 with
    | none => c.vals
    | some s => Function.update c.vals (c.idx + 1) (some s)

theorem Holds.push {c : Collected} {ps : List (Bytes × Option Bytes)} (hc : Holds c ps)
    (p : Bytes × Option Bytes) : Holds (c.push p) (ps ++ [p]) := by
  obtain ⟨hidx, hkeys, hvals⟩ := hc
  have new : (ps ++ [p])[ps.length]? = some p := List.getElem?_concat_length
  have old (i : Nat) (hi : i ≠ ps.length) : (ps ++ [p])[i]? = ps[i]? := by
    rcases Nat.lt_or_gt_of_ne hi with hlt | hgt
    · exact List.getElem?_append_left hlt
    · rw [List.getElem?_eq_none (by simp; omega), List.getElem?_eq_none (by omega)]
  have absent : ps[ps.length]? = none := List.getElem?_eq_none (Nat.le_refl _)
  refine ⟨by simp [Collected.push, hidx], fun i => ?_, fun i => ?_⟩
  · by_cases hi : i = ps.length
    · subst hi
      rw [new, Collected.push, hidx]
      exact Function.update_self ..
    · rw [old i hi, ← hkeys i]
      exact Function.update_of_ne (by omega) ..
  · obtain ⟨k, v⟩ := p
    by_cases hi : i = ps.length
    · subst hi
      rw [new]
      cases v with
      | none => rw [Collected.push, hvals, absent]; rfl
      | some s =>
        rw [Collected.push, hidx]
        exact Function.update_self ..
    · rw [old i hi, ← hvals i]
      cases v with
      | none => rfl
      | some s => exact Function.update_of_ne (by omega) ..

/-- One turn adds the string forms of the key and the value. -/
theorem add_form (c : Collected) (e : Val V × Val V) :
    c.add lua e = (form lua e).map c.push := by
  unfold Collected.add form
  cases e.2.isnull with
  | true =>
    cases lua.tolstring e.1 with
    | error x => rfl
    | ok k => rfl
  | false =>
    cases lua.tolstring e.2 with
    | error x => rfl
    | ok v =>
      cases lua.tolstring e.1 with
      | error x => rfl
      | ok k => rfl

/-- The loop is through when all have string forms. -/
theorem foldlM_add (es : List (Val V × Val V)) (c : Collected) :
    es.foldlM (Collected.add lua) c =
      (es.mapM (form lua)).map fun ps => ps.foldl Collected.push c := by
  induction es generalizing c with
  | nil => rfl
  | cons e es ih =>
    rw [List.foldlM_cons, add_form, List.mapM_cons]
    cases form lua e with
    | error x => rfl
    | ok p =>
      show es.foldlM (Collected.add lua) (c.push p) = _
      rw [ih]
      cases es.mapM (form lua) with
      | error x => rfl
      | ok ps => rfl

theorem Holds.foldl {c : Collected} {ps : List (Bytes × Option Bytes)} (hc : Holds c ps)
    (qs : List (Bytes × Option Bytes)) : Holds (qs.foldl Collected.push c) (ps ++ qs) := by
  induction qs generalizing c ps with
  | nil => rwa [List.append_nil]
  | cons q qs ih =>
    have := ih (hc.push q)
    rwa [List.append_assoc, List.singleton_append] at this

/-- The array that is read from the two tables. -/
theorem Holds.array {c : Collected} {ps : List (Bytes × Option Bytes)} (hc : Holds c ps) :
    c.array = ps.map Pairs.of := by
  apply List.ext_getElem
  · simp [Collected.array, hc.idx]
  · intro i hi hi'
    rw [List.length_map] at hi'
    have key : c.keys (i + 1) = some ps[i].1 := by
      rw [hc.keys, List.getElem?_eq_getElem hi']
      rfl
    have val : c.vals (i + 1) = ps[i].2 := by
      rw [hc.vals, List.getElem?_eq_getElem hi']
      rfl
    simp only [Collected.array, List.getElem_map, List.getElem_range, Collected.pair, key, val]
    rfl

/-- The array of a table or an object is that of the string forms. -/
theorem to_hstore_real_gives {arg : Arg V I} {es : List (Val V × Val V)}
    (hgives : arg.Gives lua es) {turns : Nat} (hturns : es.length < turns) :
    pllua_to_hstore_real lua turns [arg] =
      some ((es.mapM (form lua)).map fun ps => some (ps.map Pairs.of)) := by
  obtain ⟨loop, hstart, hvisits⟩ := hgives
  simp only [pllua_to_hstore_real, hstart]
  rw [collect_visits hvisits hturns, foldlM_add]
  cases es.mapM (form lua) with
  | error x => rfl
  | ok ps =>
    have := (holds_nil.foldl ps).array
    rw [List.nil_append] at this
    simp only [Option.map_some, Except.map, this]

end

/-! ## The value that is made -/

section
variable {lib : Lib} {lua : Lua V I}

theorem check_pair_of {p : Bytes × Option Bytes} (hlib : lib.Canonical) (hp : lib.AcceptsPair p) :
    check_pair lib (.of p) = .ok (.of p) := by
  obtain ⟨k, v⟩ := p
  obtain ⟨⟨hlen, hkey⟩, hval⟩ := hp
  have accepted : lib.Accepts (v.getD []) := by
    cases v with
    | none => exact hlib.empty
    | some s => exact hval s rfl
  obtain ⟨hlen', hval'⟩ := accepted
  dsimp only at hlen hkey
  simp only [check_pair, Pairs.of, hlen, hlen', bind, Except.bind, List.take_length, hkey, hval']
  rfl

/-- What passes the checks is as it was. -/
theorem check_pair_same {p q : Pairs} (hlib : lib.Canonical) (h : check_pair lib p = .ok q) :
    q = p := by
  unfold check_pair at h
  cases hkey : lib.hstoreCheckKeyLen p.key.length with
  | error x =>
    rw [hkey] at h
    cases h
  | ok n =>
    cases hval : lib.hstoreCheckKeyLen p.val.length with
    | error x =>
      rw [hkey, hval] at h
      cases h
    | ok m =>
      obtain rfl := hlib.checked _ _ hkey
      obtain rfl := hlib.checked _ _ hval
      rw [hkey, hval] at h
      simp only [bind, Except.bind, List.take_length] at h
      split at h
      · cases h
      · split at h
        · cases h
        · exact (Except.ok.inj h).symm

theorem mapM_ok {α β : Type} {f : α → Except Err β} {g : α → β} {xs : List α}
    (h : ∀ x ∈ xs, f x = .ok (g x)) : xs.mapM f = .ok (xs.map g) := by
  induction xs with
  | nil => rfl
  | cons x xs ih =>
    rw [List.mapM_cons, h x (List.mem_cons_self ..), ih fun y hy => h y (List.mem_cons_of_mem _ hy)]
    rfl

theorem mapM_cons_ok {α β : Type} {f : α → Except Err β} {x : α} {xs : List α} {ys : List β}
    (h : (x :: xs).mapM f = .ok ys) :
    ∃ y zs, f x = .ok y ∧ xs.mapM f = .ok zs ∧ ys = y :: zs := by
  rw [List.mapM_cons] at h
  cases hx : f x with
  | error e =>
    rw [hx] at h
    cases h
  | ok y =>
    cases hxs : xs.mapM f with
    | error e =>
      rw [hx, hxs] at h
      cases h
    | ok zs =>
      rw [hx, hxs] at h
      exact ⟨y, zs, rfl, rfl, (Except.ok.inj h).symm⟩

theorem mapM_same {α : Type} {f : α → Except Err α} (hf : ∀ x y, f x = .ok y → y = x)
    {xs ys : List α} (h : xs.mapM f = .ok ys) : ys = xs := by
  induction xs generalizing ys with
  | nil => exact (Except.ok.inj h).symm
  | cons x xs ih =>
    obtain ⟨y, zs, hx, hxs, rfl⟩ := mapM_cons_ok h
    rw [hf x y hx, ih hxs]

theorem mapM_length {α β : Type} {f : α → Except Err β} {xs : List α} {ys : List β}
    (h : xs.mapM f = .ok ys) : ys.length = xs.length := by
  induction xs generalizing ys with
  | nil =>
    rw [← Except.ok.inj h]
    rfl
  | cons x xs ih =>
    obtain ⟨y, zs, -, hxs, rfl⟩ := mapM_cons_ok h
    rw [List.length_cons, List.length_cons, ih hxs]

theorem to_hstore_gives {arg : Arg V I} {es : List (Val V × Val V)} (hgives : arg.Gives lua es)
    {ps : List (Bytes × Option Bytes)} (hforms : es.mapM (form lua) = .ok ps) {turns : Nat}
    (hturns : es.length < turns) : pllua_to_hstore lib lua turns [arg] =
      some (((ps.map Pairs.of).mapM (check_pair lib)).map fun qs => some (lib.build qs)) := by
  rw [pllua_to_hstore, to_hstore_real_gives hgives hturns, hforms]
  rfl

theorem of_keys (ps : List (Bytes × Option Bytes)) :
    (ps.map Pairs.of).map Pairs.key = ps.map Prod.fst := by
  rw [List.map_map]
  rfl

/-- A value that comes out has the pairs of the string forms. -/
theorem to_hstore_pairs (hlib : lib.Canonical) {arg : Arg V I} {es : List (Val V × Val V)}
    (hgives : arg.Gives lua es) {ps : List (Bytes × Option Bytes)}
    (hforms : es.mapM (form lua) = .ok ps) (hnodup : (ps.map Prod.fst).Nodup) {turns : Nat}
    (hturns : es.length < turns) {hs : HStore}
    (h : pllua_to_hstore lib lua turns [arg] = some (.ok (some hs))) :
    hs.count = es.length ∧ hs.pairs.Perm ps := by
  rw [to_hstore_gives hgives hforms hturns] at h
  cases hcheck : (ps.map Pairs.of).mapM (check_pair lib) with
  | error x =>
    rw [hcheck] at h
    cases h
  | ok qs =>
    rw [hcheck] at h
    obtain rfl := mapM_same (fun _ _ => check_pair_same hlib) hcheck
    obtain rfl : lib.build (ps.map Pairs.of) = hs :=
      Option.some.inj (Except.ok.inj (Option.some.inj h))
    have hperm := hlib.pairs (ps.map Pairs.of) (by rwa [of_keys])
    rw [map_of_pair] at hperm
    refine ⟨?_, hperm⟩
    have hlen := hperm.length_eq
    rwa [HStore.pairs, List.length_map, List.length_range, mapM_length hforms] at hlen

/-- Where all strings are accepted a value comes out. -/
theorem to_hstore_builds (hlib : lib.Canonical) {arg : Arg V I} {es : List (Val V × Val V)}
    (hgives : arg.Gives lua es) {ps : List (Bytes × Option Bytes)}
    (hforms : es.mapM (form lua) = .ok ps) (haccepts : ∀ p ∈ ps, lib.AcceptsPair p) {turns : Nat}
    (hturns : es.length < turns) : pllua_to_hstore lib lua turns [arg] =
      some (.ok (some (lib.build (ps.map Pairs.of)))) := by
  have hcheck : (ps.map Pairs.of).mapM (check_pair lib) = .ok ((ps.map Pairs.of).map id) := by
    apply mapM_ok
    intro q hq
    obtain ⟨p, hp, rfl⟩ := List.mem_map.mp hq
    exact check_pair_of hlib (haccepts p hp)
  rw [to_hstore_gives hgives hforms hturns, hcheck, List.map_id]
  rfl

/-- The pair of an entry with a string as its key. -/
def pair_of : Val V × Val V → Bytes × Option Bytes
  | (.string k, .string s) => (k, some s)
  | (.string k, _) => (k, none)
  | _ => ([], none)

theorem pair_of_entry (p : Bytes × Option Bytes) : pair_of (entry_of p : Val V × Val V) = p := by
  obtain ⟨k, v⟩ := p
  cases v <;> rfl

theorem form_entry (hlua : ∀ s, lua.tolstring (.string s) = .ok s) (p : Bytes × Option Bytes) :
    form lua (entry_of p) = .ok p := by
  obtain ⟨k, v⟩ := p
  cases v with
  | none =>
    simp only [form, entry_of, Val.isnull, hlua]
    rfl
  | some s =>
    simp only [form, entry_of, Val.isnull, hlua]
    rfl

end

/-- A value becomes a table and, in whatever order this is traversed, the table the value again. And
the value of a table or an object whose keys have distinct string forms has one pair for each key. -/
theorem hstore_round_trip [DecidableEq V] (lib : Lib) (lua : Lua V I) (hlib : lib.Canonical)
    (hlua : ∀ s, lua.tolstring (.string s) = .ok s) :
    (∀ hs, lib.IsHstore hs → ∀ order : List (Val V × Val V),
      order.Perm (hstore_to_pllua_real hs) → ∀ turns, order.length < turns →
        pllua_to_hstore lib lua turns [⟨none, some order⟩] = some (.ok (some hs))) ∧
    ∀ (arg : Arg V I) (es : List (Val V × Val V)) (ps : List (Bytes × Option Bytes)),
      arg.Gives lua es → es.mapM (form lua) = .ok ps → (ps.map Prod.fst).Nodup →
        ∀ turns, es.length < turns →
          (∀ hs, pllua_to_hstore lib lua turns [arg] = some (.ok (some hs)) →
            hs.count = es.length ∧ hs.pairs.Perm ps) ∧
          ((∀ p ∈ ps, lib.AcceptsPair p) →
            ∃ hs, pllua_to_hstore lib lua turns [arg] = some (.ok (some hs))) := by
  refine ⟨?_, fun arg es ps hgives hforms hnodup turns hturns =>
    ⟨fun hs h => to_hstore_pairs hlib hgives hforms hnodup hturns h,
      fun haccepts => ⟨_, to_hstore_builds hlib hgives hforms haccepts hturns⟩⟩⟩
  rintro hs ⟨qs, hnodup, haccepts, rfl⟩ order horder turns hturns
  have hpairs := hlib.pairs qs hnodup
  have keys : ((lib.build qs).pairs.map Prod.fst).Nodup := by
    rw [(hpairs.map Prod.fst).nodup_iff, List.map_map]
    exact hnodup
  rw [hstore_to_pllua_entries keys] at horder
  -- the pairs of the entries, in the order of the traversal
  have hperm : (order.map pair_of).Perm (lib.build qs).pairs := by
    have := horder.map pair_of
    rwa [List.map_map, show pair_of ∘ entry_of (V := V) = id from funext pair_of_entry,
      List.map_id] at this
  have hforms : order.mapM (form lua) = .ok (order.map pair_of) := by
    apply mapM_ok
    intro e he
    obtain ⟨p, -, rfl⟩ := List.mem_map.mp (horder.mem_iff.mp he)
    rw [form_entry hlua, pair_of_entry]
  have hgives : (⟨none, some order⟩ : Arg V I).Gives lua order :=
    ⟨.table order, rfl, visits_table lua order⟩
  have hall : ∀ p ∈ order.map pair_of, lib.AcceptsPair p := by
    intro p hp
    obtain ⟨q, hq, rfl⟩ := List.mem_map.mp ((hperm.trans hpairs).mem_iff.mp hp)
    exact haccepts q hq
  rw [to_hstore_builds hlib hgives hforms hall hturns]
  have hsame : lib.build qs = lib.build ((order.map pair_of).map Pairs.of) := by
    apply hlib.same qs _ hnodup
    rw [map_of_pair]
    exact (hperm.trans hpairs).symm
  rw [hsame]

/-! ## A library and an interpreter -/

/-- An extension that sorts the pairs and lays them out, in a server that takes all bytes but zero. -/
def sorting : Lib where
  hstoreCheckKeyLen n := if n > 0x3FFFFFFF then .error .too_long else .ok n
  pg_verifymbstr s := if s.contains 0 then .error .encoding else .ok ()
  hstoreUniquePairs ps := (sorted ps, ps.foldl (fun buflen p => buflen + p.key.length + p.val.length) 0)
  hstorePairs ps _ := lay_out ps

theorem sorting_canonical : sorting.Canonical where
  pairs := fun ps _ => sorted_pairs ps
  same := fun _ _ hnodup hperm => congrArg lay_out (sorted_same hnodup hperm)
  checked := fun n m h => by
    rw [sorting] at h
    dsimp only at h
    split at h
    · cases h
    · exact (Except.ok.inj h).symm
  empty := ⟨rfl, rfl⟩

/-- An interpreter without metamethods but for iterators over lists. Other values are told by their
string forms. -/
def plain_lua : Lua Bytes (List (Val Bytes × Val Bytes)) where
  tolstring
    | .nil => .ok [110, 105, 108]
    | .boolean true => .ok [116, 114, 117, 101]
    | .boolean false => .ok [102, 97, 108, 115, 101]
    | .string s => .ok s
    | .other s => .ok s
  iterate
    | [], _ => .ok (.nil, .nil, [])
    | e :: es, _ => .ok (e.1, e.2, es)

/-- The value with null for the empty key and the empty string for another one. -/
def sample : HStore := sorting.build [⟨[97], [], false, false⟩, ⟨[], [], true, false⟩]

theorem sample_is_hstore : sorting.IsHstore sample := by
  refine ⟨_, by decide, ?_, rfl⟩
  have accepted : sorting.Accepts [] ∧ sorting.Accepts [97] := ⟨⟨rfl, rfl⟩, ⟨rfl, rfl⟩⟩
  intro p hp
  simp only [List.mem_cons, List.not_mem_nil, or_false] at hp
  obtain rfl | rfl := hp
  · refine ⟨accepted.2, fun s hs => ?_⟩
    obtain rfl := Option.some.inj hs
    exact accepted.1
  · refine ⟨accepted.1, fun s hs => ?_⟩
    cases hs

/-- An object whose iterator gives a string for a key and nothing for another one. -/
def listed : Arg Bytes (List (Val Bytes × Val Bytes)) :=
  ⟨some (.ok ([(.string [97], .boolean true), (.string [98], .boolean false)], .nil)), none⟩

theorem listed_gives :
    listed.Gives plain_lua [(.string [97], .boolean true), (.string [98], .boolean false)] :=
  ⟨_, rfl, .turn rfl (.turn rfl (.done rfl))⟩

theorem listed_accepted :
    ∀ p ∈ [([97], some [116, 114, 117, 101]), ([98], (none : Option Bytes))],
      sorting.AcceptsPair p := by
  intro p hp
  simp only [List.mem_cons, List.not_mem_nil, or_false] at hp
  rcases hp with rfl | rfl
  · refine ⟨⟨rfl, rfl⟩, fun s hs => ?_⟩
    obtain rfl := Option.some.inj hs
    exact ⟨rfl, rfl⟩
  · exact ⟨⟨rfl, rfl⟩, fun s hs => by cases hs⟩

/-- The value comes back from its table, and the object becomes one with its pairs. -/
theorem sample_round_trip :
    pllua_to_hstore sorting plain_lua
      ((hstore_to_pllua_real sample : List (Val Bytes × Val Bytes)).length + 1)
      [⟨none, some (hstore_to_pllua_real sample)⟩] = some (.ok (some sample)) ∧
    ∃ hs, pllua_to_hstore sorting plain_lua 3 [listed] = some (.ok (some hs)) ∧
      hs.count = 2 ∧ hs.pairs.Perm [([97], some [116, 114, 117, 101]), ([98], none)] := by
  obtain ⟨htables, hpairs⟩ := hstore_round_trip sorting plain_lua sorting_canonical fun _ => rfl
  refine ⟨htables sample sample_is_hstore _ (.refl _) _ (Nat.lt_succ_self _), ?_⟩
  obtain ⟨hholds, hmakes⟩ := hpairs listed _
    [([97], some [116, 114, 117, 101]), ([98], none)] listed_gives rfl (by decide) 3 (by decide)
  obtain ⟨hs, hmade⟩ := hmakes listed_accepted
  exact ⟨hs, hmade, hholds hs hmade⟩

end pllua.hstore
