-- jsonb.pairs and jsonb.ipairs: an iterator function that walks the top level of a jsonb. Its
-- state lies in a memory context that the end of the walk resets.
import Pllua.JsonbDiscard
import Pllua.JsonbRoundTrip

open pllua.documents pllua.luavalue pllua.luavalue.LuaValue

namespace pllua.jsonb

variable {N D J P : Type}

/-! ## The iterator function -/

/-- What the iterator function calls in PostgreSQL besides. -/
structure PairsBackend (N D J P : Type) extends Backend N D J P where
  /-- the dummy array around a scalar counts too -/
  JB_ROOT_IS_ARRAY : J → Bool

/-- `jsonb_pairs_state`. -/
structure PairsState (N J : Type) where
  /-- what the iterator has yet to give, once there is one -/
  it : Option (List (Event N J))
  jb : J
  index : Int
  is_ipairs : Bool

/-- The iteration: `statep` is none once the memory it points to was freed. `next` is the
first reference not in use. -/
structure PairsLoop (N J : Type) where
  statep : Option (PairsState N J)
  next : Nat

/-- What a call of the iterator function does. -/
inductive PairsResult (N D : Type)
  | pair (key value : LuaValue N D)
  /-- no value: the end of the loop -/
  | done
  | error (msg : String)
  /-- it reads the state after it was freed -/
  | freed

section
variable (b : PairsBackend N D J P)

/-- The value of a token: numbers stay numerics, and a container is a jsonb. -/
def pairs_value (next : Nat) : JsonbValue N J → LuaValue N D × Nat
  | .jbvNull => (.nil, next)
  | .jbvBool v => (.boolean v, next)
  | .jbvNumeric n => (.numeric next n, next + 1)
  | .jbvString s => (.string s, next)
  | .jbvBinary j => (.datum next (b.jsonb_datum j), next + 1)

/-- The member that comes next: its key, its value, the index after it and the tokens that are
left. -/
def pairs_member (root_scalar : Bool) (index : Int) :
    List (Event N J) →
      Except String (Option (LuaValue N D × JsonbValue N J × Int × List (Event N J)))
  | [] => .ok none
  | (.WJB_BEGIN_ARRAY, _) :: ts => pairs_member root_scalar index ts
  | (.WJB_BEGIN_OBJECT, _) :: ts => pairs_member root_scalar index ts
  | (.WJB_END_ARRAY, _) :: ts => pairs_member root_scalar index ts
  | (.WJB_END_OBJECT, _) :: ts => pairs_member root_scalar index ts
  | (.WJB_VALUE, _) :: _ => .ok none
  | (.WJB_KEY, some (.jbvString k)) :: (.WJB_VALUE, some v) :: ts =>
    .ok (some (.string k, v, index, ts))
  | (.WJB_KEY, some (.jbvString _)) :: _ => .error "unexpected return from jsonb iterator"
  | (.WJB_KEY, _) :: _ => .error "unexpected type for jsonb key"
  | (.WJB_ELEM, some v) :: ts =>
    if root_scalar then .ok (some (.boolean true, v, index, ts))
    else .ok (some (.integer index, v, index + 1, ts))
  | (.WJB_ELEM, none) :: _ => .error "unexpected return from jsonb iterator"

/-- The member that comes next is returned, or the end, which resets the memory context. -/
def pairs_return (root_scalar : Bool) (p : PairsState N J) (next : Nat) (ts : List (Event N J)) :
    PairsResult N D × PairsLoop N J :=
  match pairs_member (D := D) root_scalar p.index ts with
  | .ok (some (key, v, index, ts)) =>
    (.pair key (pairs_value b next v).1,
      ⟨some { p with it := some ts, index := index }, (pairs_value b next v).2⟩)
  | .ok none => (.done, ⟨none, next⟩)
  | .error msg => (.error msg, ⟨some { p with it := some ts }, next⟩)

/-- `pllua_jsonb_pairs_next`. -/
def pllua_jsonb_pairs_next (st : PairsLoop N J) : PairsResult N D × PairsLoop N J :=
  match st.statep with
  | none => (.freed, st)
  | some p =>
    match p.it with
    | none =>
      if b.JB_ROOT_COUNT p.jb = 0 then (.done, ⟨none, st.next⟩)
      else if p.is_ipairs && (!b.JB_ROOT_IS_ARRAY p.jb || b.JB_ROOT_IS_SCALAR p.jb) then
        (.error "argument of jsonb ipairs must be a jsonb array", st)
      else pairs_return b (b.JB_ROOT_IS_SCALAR p.jb) p st.next (b.JsonbIteratorNext true p.jb)
    | some ts => pairs_return b false p st.next ts

/-- `pllua_jsonb_pairs_common`. -/
def pllua_jsonb_pairs_common (is_ipairs : Bool) (jb : J) (next : Nat) : PairsLoop N J :=
  ⟨some ⟨none, jb, 0, is_ipairs⟩, next⟩

/-- What can happen to an iteration. -/
inductive PairsAction
  /-- the iterator function is called -/
  | next
  /-- the object of the loop's memory context is closed or collected -/
  | close
  deriving DecidableEq

/-- The results of the calls. -/
def pairs_run (st : PairsLoop N J) : List PairsAction → List (PairsResult N D)
  | [] => []
  | .next :: acts =>
    (pllua_jsonb_pairs_next b st).1 :: pairs_run (pllua_jsonb_pairs_next b st).2 acts
  | .close :: acts => pairs_run { st with statep := none } acts

end

/-! ## What an iteration is to give -/

/-- The members of the top level. -/
def children : Json N → List (Json N)
  | .scalar s => [.scalar s]
  | .array xs => xs
  | .object ms => ms.map Prod.snd

/-- Their keys: the index, the name, and true for a scalar. -/
def pairKeys : Json N → List (LuaValue N D)
  | .scalar _ => [.boolean true]
  | .array xs => (List.range xs.length).map fun i : Nat => .integer i
  | .object ms => ms.map fun m => .string m.1

/-- A member that the iterator gives when it skips what is nested. -/
inductive Skipped (value : J → Json N) : Json N → JsonbValue N J → Prop
  | scalar (s : Scalar N) : Skipped value (.scalar s) s.toJsonbValue
  | container {binary : J} (h : root_is_scalar (value binary) = false) :
    Skipped value (value binary) (.jbvBinary binary)

/-- A member of the top level: its name, in an object, and its value. -/
abbrev Item (N J : Type) := Option Bytes × JsonbValue N J

def item_tokens : Item N J → List (Event N J)
  | (none, v) => [(.WJB_ELEM, some v)]
  | (some k, v) => [(.WJB_KEY, some (.jbvString k)), (.WJB_VALUE, some v)]

def items (vs : List (JsonbValue N J)) : Json N → List (Item N J)
  | .object ms => List.zipWith (fun m v => (some m.1, v)) ms vs
  | _ => vs.map fun v => (none, v)

def begin_token : Json N → Event N J
  | .object _ => (.WJB_BEGIN_OBJECT, none)
  | _ => (.WJB_BEGIN_ARRAY, none)

def end_token : Json N → Event N J
  | .object _ => (.WJB_END_OBJECT, none)
  | _ => (.WJB_END_ARRAY, none)

/-- What the iterator gives when it skips what is nested. -/
def shallow (vs : List (JsonbValue N J)) (d : Json N) : List (Event N J) :=
  begin_token d :: ((items vs d).flatMap item_tokens ++ [end_token d])

/-- What PostgreSQL documents of the iterator when it skips. -/
structure Skips (b : PairsBackend N D J P) (value : J → Json N) : Prop where
  is_array : ∀ j, b.JB_ROOT_IS_ARRAY j = match value j with | .object _ => false | _ => true
  skipping : ∀ j, ∃ vs, List.Forall₂ (Skipped value) (children (value j)) vs ∧
    b.JsonbIteratorNext true j = shallow vs (value j)

/-- A Lua value shows a member: null is nil, a number is a numeric, and a container is a datum
of type jsonb. -/
inductive Shows (b : PairsBackend N D J P) (value : J → Json N) : Json N → LuaValue N D → Prop
  | null : Shows b value (.scalar .null) .nil
  | bool (v : Bool) : Shows b value (.scalar (.bool v)) (.boolean v)
  | numeric (n : N) (ref : Nat) : Shows b value (.scalar (.numeric n)) (.numeric ref n)
  | string (s : Bytes) : Shows b value (.scalar (.string s)) (.string s)
  | container {binary : J} (ref : Nat) (h : root_is_scalar (value binary) = false) :
    Shows b value (value binary) (.datum ref (b.jsonb_datum binary))

/-- A result without the reference of its value. -/
def PairsResult.unref : PairsResult N D → PairsResult N D
  | .pair key value => .pair key (jsonb.unref value)
  | r => r

/-- The results of an iteration over pairs: the pairs, and the end again and again. -/
def expected : List (LuaValue N D × LuaValue N D) → List PairsAction → List (PairsResult N D)
  | _, [] => []
  | ps, .close :: acts => expected ps acts
  | [], .next :: acts => .done :: expected [] acts
  | p :: ps, .next :: acts => .pair p.1 p.2 :: expected ps acts

/-- At most so many calls are made, and none once the memory context is gone. -/
def InTime : Nat → List PairsAction → Prop
  | _, [] => True
  | _, .close :: acts => .next ∉ acts
  | 0, .next :: _ => False
  | n + 1, .next :: acts => InTime n acts

/-- The key of a member. -/
def item_key (root_scalar : Bool) (index : Int) : Item N J → LuaValue N D
  | (none, _) => if root_scalar then .boolean true else .integer index
  | (some k, _) => .string k

/-- The index after a member. -/
def item_index (root_scalar : Bool) (index : Int) : Item N J → Int
  | (none, _) => if root_scalar then index else index + 1
  | (some _, _) => index

section
variable (b : PairsBackend N D J P)

/-- The pairs of some members, the first of which has this index. -/
def pairs_from (root_scalar : Bool) (index : Int) :
    List (Item N J) → List (LuaValue N D × LuaValue N D)
  | [] => []
  | item :: its =>
    (item_key root_scalar index item, unref (pairs_value b 0 item.2).1) ::
      pairs_from root_scalar (item_index root_scalar index item) its

variable {b}

@[simp] theorem unref_pairs_value (next : Nat) (v : JsonbValue N J) :
    unref (pairs_value b next v).1 = unref (pairs_value b 0 v).1 := by
  cases v <;> rfl

/-! ## The run of an iteration -/

theorem inTime_zero (acts : List PairsAction) : InTime 0 acts ↔ .next ∉ acts := by
  cases acts with
  | nil => simp [InTime]
  | cons a acts => cases a <;> simp [InTime]

/-- Every call reads the freed state. -/
theorem pairs_run_freed (next : Nat) (ps : List (LuaValue N D × LuaValue N D))
    (acts : List PairsAction) :
    (pairs_run b ⟨none, next⟩ acts).map PairsResult.unref = expected ps acts ↔ .next ∉ acts := by
  induction acts generalizing ps with
  | nil => simp [pairs_run, expected]
  | cons a acts ih =>
    cases a with
    | close => simpa [pairs_run, expected] using ih ps
    | next =>
      refine iff_of_false ?_ (by simp)
      cases ps <;> simp [pairs_run, expected, pllua_jsonb_pairs_next, PairsResult.unref]

/-- The tokens of one member. -/
theorem pairs_member_item (root_scalar : Bool) (index : Int) (item : Item N J)
    (ts : List (Event N J)) :
    pairs_member (D := D) root_scalar index (item_tokens item ++ ts) =
      .ok (some
        (item_key root_scalar index item, item.2, item_index root_scalar index item, ts)) := by
  obtain ⟨k, v⟩ := item
  cases k with
  | none => cases root_scalar <;> rfl
  | some k => rfl

/-- The token at the end, and nothing after it. -/
theorem pairs_member_end (root_scalar : Bool) (index : Int) (d : Json N) :
    pairs_member (D := D) (J := J) root_scalar index [end_token d] = .ok none := by
  cases d <;> rfl

/-- The first token is skipped. -/
theorem pairs_member_begin (root_scalar : Bool) (index : Int) (d : Json N)
    (ts : List (Event N J)) :
    pairs_member (D := D) root_scalar index (begin_token d :: ts) =
      pairs_member root_scalar index ts := by
  cases d <;> rfl

/-- The return of a member. -/
theorem pairs_return_item (root_scalar : Bool) (p : PairsState N J) (next : Nat) (item : Item N J)
    (its : List (Item N J)) (d : Json N) {ts : List (Event N J)}
    (hts : pairs_member (D := D) root_scalar p.index ts =
      pairs_member root_scalar p.index ((item :: its).flatMap item_tokens ++ [end_token d])) :
    ∃ v next', unref v = unref (pairs_value b 0 item.2).1 ∧
      pairs_return b root_scalar p next ts =
        (.pair (item_key root_scalar p.index item) v,
          ⟨some
            { p with
              it := some (its.flatMap item_tokens ++ [end_token d])
              index := item_index root_scalar p.index item },
            next'⟩) := by
  rw [List.flatMap_cons, List.append_assoc, pairs_member_item] at hts
  refine ⟨(pairs_value b next item.2).1, (pairs_value b next item.2).2, unref_pairs_value _ _, ?_⟩
  rw [pairs_return, hts]

/-- An iteration with members to come gives them and the end, if the calls are in time. -/
theorem pairs_run_live (d : Json N) (its : List (Item N J)) (jb : J) (index : Int)
    (is_ipairs : Bool) (next : Nat) (acts : List PairsAction) :
    (pairs_run b ⟨some ⟨some (its.flatMap item_tokens ++ [end_token d]), jb, index, is_ipairs⟩,
        next⟩ acts).map PairsResult.unref = expected (pairs_from b false index its) acts ↔
      InTime (its.length + 1) acts := by
  induction acts generalizing its index next with
  | nil => simp [pairs_run, expected, InTime]
  | cons a acts ih =>
    cases a with
    | close => exact pairs_run_freed next (pairs_from b false index its) acts
    | next =>
      cases its with
      | nil =>
        have hreturn : pllua_jsonb_pairs_next b ⟨some ⟨some [end_token d], jb, index, is_ipairs⟩,
            next⟩ = (.done, ⟨none, next⟩) := by
          simp only [pllua_jsonb_pairs_next, pairs_return, pairs_member_end]
        simp only [List.flatMap_nil, List.nil_append, pairs_run, hreturn, List.map_cons]
        rw [pairs_from, expected, List.cons_eq_cons, pairs_run_freed, ← inTime_zero]
        exact and_iff_right rfl
      | cons item its =>
        obtain ⟨v, next', hv, hreturn⟩ := pairs_return_item (b := b) false
          ⟨some ((item :: its).flatMap item_tokens ++ [end_token d]), jb, index, is_ipairs⟩ next item
          its d rfl
        rw [pairs_from, pairs_run, pllua_jsonb_pairs_next]
        simp only [hreturn, List.map_cons, expected, PairsResult.unref, List.cons_eq_cons, hv,
          true_and, ih]
        rfl

variable {keylt : Bytes → Bytes → Bool} {value : J → Json N}

theorem items_length {d : Json N} {vs : List (JsonbValue N J)}
    (h : List.Forall₂ (Skipped value) (children d) vs) : (items vs d).length = root_count d := by
  have hlen := h.length_eq
  cases d with
  | scalar s => simpa [items, children, root_count] using hlen.symm
  | array xs => simpa [items, children, root_count] using hlen.symm
  | object ms =>
    rw [children, List.length_map] at hlen
    simp [items, root_count, ← hlen]

/-- The pairs of a jsonb whose members the iterator gives as `vs`. -/
def pairsOf (b : PairsBackend N D J P) (vs : List (JsonbValue N J)) (d : Json N) :
    List (LuaValue N D × LuaValue N D) :=
  pairs_from b (root_is_scalar d) 0 (items vs d)

/-- A scalar has one pair, after which the index no longer matters. -/
theorem pairs_from_tail {d : Json N} {item : Item N J} {its : List (Item N J)}
    {vs : List (JsonbValue N J)} (h : List.Forall₂ (Skipped value) (children d) vs)
    (hits : items vs d = item :: its) (index : Int) :
    pairs_from b (root_is_scalar d) index its = pairs_from b false index its := by
  cases d with
  | scalar s =>
    have hlen := items_length h
    rw [hits, List.length_cons, root_count] at hlen
    have hnil : its = [] := List.eq_nil_of_length_eq_zero (by omega)
    rw [hnil]
    rfl
  | array xs => rfl
  | object ms => rfl

/-- An iteration gives the pairs and the end exactly if the calls are in time. -/
theorem pairs_run_iff (h : Documented b.toBackend keylt value) (hs : Skips b value)
    {is_ipairs : Bool} {j : J} (hip : is_ipairs → ∃ xs, value j = .array xs)
    {vs : List (JsonbValue N J)} (hvs : List.Forall₂ (Skipped value) (children (value j)) vs)
    (hit : b.JsonbIteratorNext true j = shallow vs (value j)) (next : Nat)
    (acts : List PairsAction) :
    (pairs_run b (pllua_jsonb_pairs_common is_ipairs j next) acts).map PairsResult.unref =
        expected (pairsOf b vs (value j)) acts ↔
      InTime (root_count (value j) + 1) acts := by
  have hlen := items_length hvs
  cases acts with
  | nil => simp [pairs_run, expected, InTime]
  | cons a acts =>
    cases a with
    | close => exact pairs_run_freed next _ acts
    | next =>
      have hcheck : (is_ipairs && (!b.JB_ROOT_IS_ARRAY j || root_is_scalar (value j))) = false := by
        cases is_ipairs with
        | false => rfl
        | true =>
          obtain ⟨xs, hxs⟩ := hip rfl
          simp [hs.is_array, hxs, root_is_scalar]
      rw [pairs_run, pllua_jsonb_pairs_common, pllua_jsonb_pairs_next]
      simp only [h.count, h.is_scalar, hcheck, Bool.false_eq_true, if_false, hit]
      by_cases hzero : root_count (value j) = 0
      · have hnil : items vs (value j) = [] := List.eq_nil_of_length_eq_zero (by omega)
        simp only [hzero, if_true, pairsOf, hnil, pairs_from, List.map_cons, expected]
        rw [List.cons_eq_cons, pairs_run_freed, InTime, inTime_zero]
        exact and_iff_right rfl
      · simp only [hzero, if_false]
        obtain ⟨item, its, hits⟩ : ∃ item its, items vs (value j) = item :: its :=
          List.exists_cons_of_length_pos (by omega)
        have hts : pairs_member (D := D) (root_is_scalar (value j)) 0 (shallow vs (value j)) =
            pairs_member (root_is_scalar (value j)) 0
              ((item :: its).flatMap item_tokens ++ [end_token (value j)]) := by
          rw [shallow, pairs_member_begin, hits]
        obtain ⟨v, next', hv, hreturn⟩ := pairs_return_item (b := b) (root_is_scalar (value j))
          ⟨none, j, 0, is_ipairs⟩ next item its (value j) hts
        have hrun := pairs_run_live (b := b) (value j) its j
          (item_index (root_is_scalar (value j)) 0 item) is_ipairs next' acts
        rw [hits, List.length_cons] at hlen
        rw [← hlen]
        simp only [hreturn, pairsOf, hits, pairs_from, List.map_cons, expected, PairsResult.unref,
          List.cons_eq_cons, hv, true_and, InTime]
        rw [pairs_from_tail hvs hits]
        exact hrun

/-! ## Keys and values of the pairs -/

theorem pairs_from_values (root_scalar : Bool) (index : Int) (its : List (Item N J)) :
    (pairs_from b root_scalar index its).map Prod.snd =
      its.map fun item => unref (pairs_value b 0 item.2).1 := by
  induction its generalizing index with
  | nil => rfl
  | cons item its ih => rw [pairs_from, List.map_cons, List.map_cons, ih]

theorem pairs_from_elems (index : Int) (vs : List (JsonbValue N J)) :
    (pairs_from b false index (vs.map fun v => (none, v))).map Prod.fst =
      (List.range vs.length).map fun i : Nat => .integer (index + i) := by
  induction vs generalizing index with
  | nil => rfl
  | cons v vs ih =>
    rw [List.map_cons, pairs_from, List.map_cons, List.length_cons, List.range_succ_eq_map,
      List.map_cons, List.map_map]
    refine congrArg₂ List.cons (by simp [item_key]) ((ih _).trans ?_)
    apply List.map_congr_left
    intro i _
    simp only [item_index, Bool.false_eq_true, if_false, Function.comp_apply]
    congr 1
    omega

theorem pairs_from_members (index : Int) (ms : List (Bytes × Json N)) (vs : List (JsonbValue N J))
    (hlen : ms.length = vs.length) :
    (pairs_from b false index (List.zipWith (fun m v => (some m.1, v)) ms vs)).map Prod.fst =
      ms.map fun m => .string m.1 := by
  induction ms generalizing vs with
  | nil => rfl
  | cons m ms ih =>
    cases vs with
    | nil => cases hlen
    | cons v vs =>
      rw [List.zipWith_cons_cons, pairs_from, List.map_cons, List.map_cons]
      exact congrArg₂ List.cons rfl (ih vs (Nat.succ.inj hlen))

theorem pairsOf_keys {d : Json N} {vs : List (JsonbValue N J)}
    (h : List.Forall₂ (Skipped value) (children d) vs) :
    (pairsOf b vs d).map Prod.fst = pairKeys d := by
  have hlen := h.length_eq
  cases d with
  | scalar s =>
    cases vs with
    | nil => cases hlen
    | cons v vs =>
      have hnil : vs = [] := List.eq_nil_of_length_eq_zero (Nat.succ.inj hlen).symm
      rw [hnil]
      rfl
  | array xs =>
    refine (pairs_from_elems 0 vs).trans ?_
    rw [← hlen]
    simp [pairKeys, children]
  | object ms => exact pairs_from_members 0 ms vs (by simpa [children] using hlen)

theorem items_values {d : Json N} {vs : List (JsonbValue N J)}
    (h : List.Forall₂ (Skipped value) (children d) vs) : (items vs d).map Prod.snd = vs := by
  have hlen := h.length_eq
  cases d with
  | scalar s => simp [items]
  | array xs => simp [items]
  | object ms =>
    rw [children, List.length_map] at hlen
    rw [items, List.map_zipWith]
    simp only
    induction ms generalizing vs with
    | nil => simpa using hlen.symm
    | cons m ms ih =>
      cases vs with
      | nil => cases hlen
      | cons v vs =>
        cases h with
        | cons _ h => rw [List.zipWith_cons_cons, ih h (Nat.succ.inj hlen)]

theorem shows_skipped {d : Json N} {v : JsonbValue N J} (h : Skipped value d v) :
    Shows b value d (unref (pairs_value b 0 v).1) := by
  cases h with
  | scalar s =>
    cases s with
    | null => exact .null
    | bool v => exact .bool v
    | numeric n => exact .numeric n 0
    | string s => exact .string s
  | container h => exact .container 0 h

theorem pairsOf_values {d : Json N} {vs : List (JsonbValue N J)}
    (h : List.Forall₂ (Skipped value) (children d) vs) :
    List.Forall₂ (Shows b value) (children d) ((pairsOf b vs d).map Prod.snd) := by
  have hvals : (pairsOf b vs d).map Prod.snd = vs.map fun v => unref (pairs_value b 0 v).1 := by
    rw [pairsOf, pairs_from_values]
    conv_rhs => rw [← items_values h]
    rw [List.map_map]
    rfl
  rw [hvals, List.forall₂_map_right_iff]
  exact h.imp fun _ _ => shows_skipped

/-! ## The calls of the map -/

/-- The config table with `norecurse` and `pg_numeric`. -/
def norecursing (f : MapFunc N D) : MapConfig N D := ⟨some f, false, true, true, .nil⟩

theorem keeps_norecursing (f : MapFunc N D) : Keeps (norecursing f) f := ⟨rfl, rfl⟩

@[simp] theorem valueIn_norecursing (f : MapFunc N D) (next : Nat) (v : JsonbValue N J) :
    valueIn b.toBackend (norecursing f) next v = pairs_value b next v := by
  cases v <;> rfl

/-- The elements of the top level. -/
theorem map_elems (lib : LuaLib N D) (f : MapFunc N D) (vs : List (JsonbValue N J))
    {st : MapState N D} {rest path : List (LuaValue N D)} {next : Nat} {calls : List (Call N D)}
    {i : Int} {ref : Nat} {mt : Option (Metatable (LuaValue N D))}
    {fs : List (LuaValue N D × LuaValue N D)}
    (h : st.Is (.integer i :: .table ref mt fs :: rest) path next calls) (h0 : 0 ≤ i)
    (h1 : i + vs.length < 2 ^ 31) :
    ∃ st' fs' next' cs,
      (vs.map fun v => (JsonbIteratorToken.WJB_ELEM, some v)).foldlM
        (maptoken lib b.toBackend (norecursing f) false) st = .ok st' ∧
      st'.Is (.integer (i + vs.length) :: .table ref mt fs' :: rest) path next' (calls ++ cs) ∧
      cs.map Call.unref =
        (pairs_from b false i (vs.map fun v => (none, v))).map fun p => ⟨p.1, p.2, path⟩ := by
  induction vs generalizing st i next calls fs with
  | nil => exact ⟨st, fs, next, [], rfl, by simpa using h, rfl⟩
  | cons v vs ih =>
    rw [List.length_cons] at h1
    obtain ⟨st₁, hrun, h₁⟩ := elem_value (b := b.toBackend) lib (keeps_norecursing f) h h0 (by omega)
      v
    obtain ⟨st₂, fs', next', cs, hrun', h₂, hcs⟩ := ih h₁ (by omega) (by omega)
    have hlen : i + 1 + (vs.length : Int) = i + ((v :: vs).length : Nat) := by
      rw [List.length_cons]
      omega
    rw [hlen, List.append_assoc] at h₂
    refine ⟨st₂, fs', next', _, ?_, h₂, ?_⟩
    · rw [List.map_cons, List.foldlM_cons, hrun, ok_bind, hrun']
    · rw [List.map_append, hcs]
      simp [pairs_from, Call.unref, item_key, item_index]

/-- The members of the top level. -/
theorem map_members (lib : LuaLib N D) (f : MapFunc N D)
    (hobj : ∀ k v p, (f (.string k) v p).1.isnil = false) (ms : List (Bytes × Json N))
    (vs : List (JsonbValue N J)) {st : MapState N D} {rest path : List (LuaValue N D)} {next : Nat}
    {calls : List (Call N D)} {ref : Nat} {mt : Option (Metatable (LuaValue N D))}
    {fs : List (LuaValue N D × LuaValue N D)}
    (h : st.Is (.table ref mt fs :: rest) path next calls) :
    ∃ st' fs' next' cs,
      ((List.zipWith (fun m v => (some m.1, v)) ms vs).flatMap item_tokens).foldlM
        (maptoken lib b.toBackend (norecursing f) false) st = .ok st' ∧
      st'.Is (.table ref mt fs' :: rest) path next' (calls ++ cs) ∧
      cs.map Call.unref = (pairs_from b false 0
        (List.zipWith (fun m v => (some m.1, v)) ms vs)).map fun p => ⟨p.1, p.2, path⟩ := by
  induction ms generalizing vs st next calls fs with
  | nil => exact ⟨st, fs, next, [], rfl, by simpa using h, rfl⟩
  | cons m ms ih =>
    cases vs with
    | nil => exact ⟨st, fs, next, [], rfl, by simpa using h, rfl⟩
    | cons v vs =>
      have hkey : maptoken lib b.toBackend (norecursing f) false st
          (.WJB_KEY, some (.jbvString m.1)) = .ok (st.push (.string m.1)) := rfl
      obtain ⟨st₁, hrun, h₁⟩ := value_value (b := b.toBackend) lib (keeps_norecursing f)
        (h.push (.string m.1)) v (hobj _ _ _)
      obtain ⟨st₂, fs', next', cs, hrun', h₂, hcs⟩ := ih vs h₁
      rw [List.append_assoc] at h₂
      refine ⟨st₂, fs', next', _, ?_, h₂, ?_⟩
      · rw [List.zipWith_cons_cons, List.flatMap_cons, List.foldlM_append]
        simp only [item_tokens, List.foldlM_cons, List.foldlM_nil, hkey, ok_bind, hrun]
        exact hrun'
      · rw [List.map_append, hcs]
        simp [pairs_from, Call.unref, item_key, item_index]

/-- The calls for the top level, with the key nil for a scalar. -/
def topCalls (d : Json N) (ps : List (LuaValue N D × LuaValue N D)) : List (Call N D) :=
  ps.map fun p => ⟨if root_is_scalar d then .nil else p.1, p.2, []⟩

theorem length_le_of_map {cs : List (Call N D)} {ps : List (LuaValue N D × LuaValue N D)}
    {path : List (LuaValue N D)}
    (h : cs.map Call.unref = ps.map fun p => ⟨p.1, p.2, path⟩) : cs.length = ps.length := by
  simpa using congrArg List.length h

theorem elem_tokens (vs : List (JsonbValue N J)) :
    (vs.map fun v => ((none, v) : Item N J)).flatMap item_tokens =
      vs.map fun v => (JsonbIteratorToken.WJB_ELEM, some v) := by
  induction vs with
  | nil => rfl
  | cons v vs ih =>
    rw [List.map_cons, List.flatMap_cons, ih]
    rfl

/-- The loop of the map ends, with a result and the calls for the top level. -/
def MapsTop (lib : LuaLib N D) (b : PairsBackend N D J P) (f : MapFunc N D)
    (vs : List (JsonbValue N J)) (d : Json N) : Prop :=
  ∀ next, ∃ st', (shallow vs d).foldlM
      (maptoken lib b.toBackend (norecursing f) (root_is_scalar d)) (mapstart next) = .ok st' ∧
    (∃ r, st'.stack.head? = some r) ∧
    (st'.calls.take (root_count d)).map Call.unref = topCalls d (pairsOf b vs d)

theorem mapstart_is (next : Nat) :
    (mapstart next : MapState N D).Is [.nil, .table next none []] [] (next + 1) [] :=
  ⟨rfl, rfl, rfl, rfl, rfl⟩

theorem mapstart_pushpath (next : Nat) :
    (mapstart next : MapState N D).pushpath = mapstart next :=
  MapState.pushpath_of_nil _ rfl

theorem maps_top_scalar (lib : LuaLib N D) (f : MapFunc N D) (s : Scalar N)
    (v : JsonbValue N J) : MapsTop lib b f [v] (.scalar s) := by
  intro next
  obtain ⟨st₁, hcall, h₁⟩ := (pushvalue_is (b := b.toBackend) (c := norecursing f)
    (mapstart_is next) v).callmap f
  refine ⟨st₁, ?_, ⟨_, by rw [h₁.stack]; rfl⟩, ?_⟩
  · have hbegin : maptoken lib b.toBackend (norecursing f) true (mapstart next)
        (.WJB_BEGIN_ARRAY, none) = .ok (mapstart next) := rfl
    have helem : maptoken lib b.toBackend (norecursing f) true (mapstart next)
        (.WJB_ELEM, some v) = .ok st₁ := by
      rw [maptoken]
      change (MapState.callmap _ (some f) >>= fun st => _) = _
      rw [hcall]
      rfl
    have hend : maptoken lib b.toBackend (norecursing f) true st₁ (.WJB_END_ARRAY, none) =
        .ok st₁ := rfl
    have htokens : shallow [v] (.scalar s) =
      [(.WJB_BEGIN_ARRAY, none), (.WJB_ELEM, some v), (.WJB_END_ARRAY, none)] := rfl
    rw [htokens, root_is_scalar, List.foldlM_cons, hbegin, ok_bind, List.foldlM_cons, helem, ok_bind,
      List.foldlM_cons, hend]
    rfl
  · rw [h₁.calls]
    simp [topCalls, root_is_scalar, pairsOf, items, pairs_from, Call.unref, root_count]

theorem maps_top_array (lib : LuaLib N D) (f : MapFunc N D) {xs : List (Json N)}
    {vs : List (JsonbValue N J)} (hlen : vs.length = xs.length) (hfit : xs.length < 2 ^ 31) :
    MapsTop lib b f vs (.array xs) := by
  intro next
  obtain ⟨st₁, fs', next', cs, hrun, h₁, hcs⟩ := map_elems (b := b) lib f vs
    (((mapstart_is next).newtable array_mt).push (.integer 0)) (le_refl 0) (by omega)
  obtain ⟨st₂, hend, h₂⟩ := end_toplevel lib (keeps_norecursing f) h₁.pop
  refine ⟨st₂, ?_, ⟨_, by rw [h₂.stack]; rfl⟩, ?_⟩
  · have hbegin : maptoken lib b.toBackend (norecursing f) false (mapstart next)
        (.WJB_BEGIN_ARRAY, none) = .ok (((mapstart next).newtable array_mt).push (.integer 0)) := by
      simp [maptoken, mapstart_pushpath, norecursing]
    have hlast : maptoken lib b.toBackend (norecursing f) false st₁ (.WJB_END_ARRAY, none) =
        .ok st₂ := hend
    have htokens : shallow vs (.array xs) = (.WJB_BEGIN_ARRAY, none) ::
        ((vs.map fun v => (JsonbIteratorToken.WJB_ELEM, some v)) ++ [(.WJB_END_ARRAY, none)]) := by
      rw [← elem_tokens]
      rfl
    have hscalar : root_is_scalar (.array xs) = false := rfl
    rw [htokens, hscalar, List.foldlM_cons, hbegin, ok_bind, List.foldlM_append, hrun, ok_bind,
      List.foldlM_cons, hlast]
    rfl
  · have hcount : cs.length = xs.length := by
      rw [length_le_of_map hcs, ← List.length_map (f := Prod.fst), pairs_from_elems,
        List.length_map, List.length_range, hlen]
    rw [h₂.calls, root_count, ← hcount, List.nil_append, List.take_left, hcs]
    rfl

theorem maps_top_object (lib : LuaLib N D) (f : MapFunc N D)
    (hobj : ∀ k v p, (f (.string k) v p).1.isnil = false) {ms : List (Bytes × Json N)}
    {vs : List (JsonbValue N J)} (hlen : ms.length = vs.length) :
    MapsTop lib b f vs (.object ms) := by
  intro next
  obtain ⟨st₁, fs', next', cs, hrun, h₁, hcs⟩ := map_members (b := b) lib f hobj ms vs
    ((mapstart_is next).newtable object_mt)
  obtain ⟨st₂, hend, h₂⟩ := end_toplevel lib (keeps_norecursing f) h₁
  refine ⟨st₂, ?_, ⟨_, by rw [h₂.stack]; rfl⟩, ?_⟩
  · have hbegin : maptoken lib b.toBackend (norecursing f) false (mapstart next)
        (.WJB_BEGIN_OBJECT, none) = .ok ((mapstart next).newtable object_mt) := by
      simp [maptoken, mapstart_pushpath, norecursing]
    have hlast : maptoken lib b.toBackend (norecursing f) false st₁ (.WJB_END_OBJECT, none) =
        .ok st₂ := hend
    have htokens : shallow vs (.object ms) = (.WJB_BEGIN_OBJECT, none) ::
        ((List.zipWith (fun m v => (some m.1, v)) ms vs).flatMap item_tokens ++
          [(.WJB_END_OBJECT, none)]) := rfl
    have hscalar : root_is_scalar (.object ms) = false := rfl
    rw [htokens, hscalar, List.foldlM_cons, hbegin, ok_bind, List.foldlM_append, hrun, ok_bind,
      List.foldlM_cons, hlast]
    rfl
  · have hcount : cs.length = ms.length := by
      rw [length_le_of_map hcs, ← List.length_map (f := Prod.fst), pairs_from_members 0 ms vs hlen,
        List.length_map]
    rw [h₂.calls, root_count, ← hcount, List.nil_append, List.take_left, hcs]
    rfl

theorem maps_top (lib : LuaLib N D) (h : Documented b.toBackend keylt value) (f : MapFunc N D)
    (hobj : ∀ k v p, (f (.string k) v p).1.isnil = false) (j : J) {vs : List (JsonbValue N J)}
    (hvs : List.Forall₂ (Skipped value) (children (value j)) vs) :
    MapsTop lib b f vs (value j) := by
  have hlen := hvs.length_eq
  have hfit := h.counts j
  cases hd : value j with
  | scalar s =>
    rw [hd] at hlen
    obtain ⟨v, rfl⟩ : ∃ v, vs = [v] := List.length_eq_one_iff.mp hlen.symm
    exact maps_top_scalar lib f s v
  | array xs =>
    rw [hd] at hlen hfit
    exact maps_top_array lib f hlen.symm (length_of_counts ((all_array _ xs).mp hfit).1)
  | object ms =>
    rw [hd, children, List.length_map] at hlen
    exact maps_top_object lib f hobj hlen

/-- The map calls the function for the members of the top level. -/
theorem map_top_calls (lib : LuaLib N D) (h : Documented b.toBackend keylt value)
    (f : MapFunc N D) (hobj : ∀ k v p, (f (.string k) v p).1.isnil = false) {j : J}
    {vs : List (JsonbValue N J)} (hvs : List.Forall₂ (Skipped value) (children (value j)) vs)
    (hit : b.JsonbIteratorNext true j = shallow vs (value j)) (next : Nat) :
    ∃ r calls, pllua_jsonb_map lib b.toBackend next j (.table (norecursing f)) =
        .ok (some r, calls) ∧
      (calls.take (root_count (value j))).map Call.unref =
        topCalls (value j) (pairsOf b vs (value j)) := by
  rw [pllua_jsonb_map, h.count]
  by_cases hzero : root_count (value j) = 0
  · have hnil : items vs (value j) = [] :=
      List.eq_nil_of_length_eq_zero ((items_length hvs).trans hzero)
    refine ⟨_, _, if_pos hzero, ?_⟩
    rw [pairsOf, hnil, pairs_from, List.take_nil]
    rfl
  · obtain ⟨st', hrun, ⟨r, hr⟩, hcalls⟩ := maps_top lib h f hobj j hvs next
    refine ⟨r, st'.calls, ?_, hcalls⟩
    rw [if_neg hzero]
    simp only [MapArg.config, h.is_scalar]
    change (b.JsonbIteratorNext true j).foldlM
      (maptoken lib b.toBackend (norecursing f) (root_is_scalar (value j))) (mapstart next) >>= _ = _
    rw [hit, hrun, ok_bind, hr]
    rfl

/-- The calls of the iterator function give the members of the top level once each, with the
keys of `pairKeys`, as the map function gets them, and after them the end at every call. -/
def PairsAgree (lib : LuaLib N D) (b : PairsBackend N D J P) (value : J → Json N)
    (f : MapFunc N D) (is_ipairs : Bool) (next : Nat) (j : J) (acts : List PairsAction) : Prop :=
  ∃ ps : List (LuaValue N D × LuaValue N D), ps.map Prod.fst = pairKeys (value j) ∧
    List.Forall₂ (Shows b value) (children (value j)) (ps.map Prod.snd) ∧
    (∃ r calls, pllua_jsonb_map lib b.toBackend next j (.table (norecursing f)) =
        .ok (some r, calls) ∧
      (calls.take (root_count (value j))).map Call.unref = topCalls (value j) ps) ∧
    (pairs_run b (pllua_jsonb_pairs_common is_ipairs j next) acts).map PairsResult.unref =
      expected ps acts

theorem eq_of_projections {α β : Type} {ps qs : List (α × β)}
    (hfst : ps.map Prod.fst = qs.map Prod.fst) (hsnd : ps.map Prod.snd = qs.map Prod.snd) :
    ps = qs := by
  rw [← List.zip_unzip ps, ← List.zip_unzip qs, List.unzip_eq_map, List.unzip_eq_map, hfst, hsnd]

/-- An iteration over pairs reads no freed memory. -/
theorem expected_not_freed (ps : List (LuaValue N D × LuaValue N D)) (acts : List PairsAction) :
    .freed ∉ expected ps acts := by
  induction acts generalizing ps with
  | nil => simp [expected]
  | cons a acts ih =>
    cases a with
    | close => exact ih ps
    | next => cases ps <;> simp [expected, ih]

/-- An iteration agrees with the map exactly if the iterator function is not called after the
call that reports the end, nor after the memory context of the loop is gone. -/
theorem pairs_agree_with_map_iff_called_in_time (lib : LuaLib N D)
    (h : Documented b.toBackend keylt value) (hs : Skips b value) (f : MapFunc N D)
    (hobj : ∀ k v p, (f (.string k) v p).1.isnil = false) {is_ipairs : Bool} {j : J}
    (hip : is_ipairs → ∃ xs, value j = .array xs) (next : Nat) (acts : List PairsAction) :
    PairsAgree lib b value f is_ipairs next j acts ↔ InTime (root_count (value j) + 1) acts := by
  obtain ⟨vs, hvs, hit⟩ := hs.skipping j
  obtain ⟨r, calls, hmap, hcalls⟩ := map_top_calls lib h f hobj hvs hit next
  have hrun := pairs_run_iff h hs hip hvs hit next acts
  constructor
  · rintro ⟨ps, hkeys, -, ⟨r', calls', hmap', hcalls'⟩, hresults⟩
    have heq : ps = pairsOf b vs (value j) := by
      refine eq_of_projections (hkeys.trans (pairsOf_keys hvs).symm) ?_
      rw [hmap] at hmap'
      cases hmap'
      have hvals := congrArg (List.map Call.value) (hcalls'.symm.trans hcalls)
      simpa [topCalls, Function.comp_def] using hvals
    exact hrun.mp (heq ▸ hresults)
  · intro htime
    exact ⟨pairsOf b vs (value j), pairsOf_keys hvs, pairsOf_values hvs, ⟨r, calls, hmap, hcalls⟩,
      hrun.mpr htime⟩

end

/-! ## An instance -/

/-- The token of the outermost container, and those of its members without what is nested. -/
def skipValue (d : Json Int) : JsonbValue Int StoredJsonb :=
  match d with
  | .scalar s => s.toJsonbValue
  | d => if hd : Storable d then .jbvBinary ⟨d, hd⟩ else .jbvNull

/-- The functions over stored documents, with an iterator that can skip. -/
def skipping : PairsBackend Int StoredJsonb StoredJsonb (List (Open Bytes (Scalar Int))) where
  toBackend :=
    { reference with
      JsonbIteratorNext := fun skip j =>
        if skip then shallow ((children j.1).map skipValue) j.1 else (iterated j.1).map event }
  JB_ROOT_IS_ARRAY j :=
    match j.1 with
    | .object _ => false
    | _ => true

theorem skipping_documented : Documented skipping.toBackend keylt Subtype.val :=
  { reference_documented with iterator := fun _ => rfl }

theorem skipped_child {d : Json Int} (hd : Storable d) : Skipped Subtype.val d (skipValue d) := by
  cases d with
  | scalar s => exact .scalar s
  | array xs =>
    rw [skipValue, dif_pos hd]
    · exact @Skipped.container _ _ Subtype.val ⟨.array xs, hd⟩ rfl
    · exact nofun
  | object ms =>
    rw [skipValue, dif_pos hd]
    · exact @Skipped.container _ _ Subtype.val ⟨.object ms, hd⟩ rfl
    · exact nofun

theorem storable_children {d : Json Int} (hd : Storable d) : ∀ x ∈ children d, Storable x := by
  obtain ⟨hc, hn⟩ := hd
  cases d with
  | scalar s =>
    intro x hx
    rw [List.mem_singleton.mp hx]
    exact ⟨rfl, rfl⟩
  | array xs => exact fun x hx => ⟨((all_array _ xs).mp hc).2 x hx, ((all_array _ xs).mp hn).2 x hx⟩
  | object ms =>
    intro x hx
    obtain ⟨m, hm, rfl⟩ := List.mem_map.mp hx
    exact ⟨((all_object _ ms).mp hc).2 m hm, ((all_object _ ms).mp hn).2 m hm⟩

theorem skipping_skips : Skips skipping Subtype.val where
  is_array j := by
    simp only [skipping]
    split <;> simp_all
  skipping j := by
    refine ⟨(children j.1).map skipValue, ?_, rfl⟩
    rw [List.forall₂_map_right_iff, List.forall₂_same]
    exact fun x hx => skipped_child (storable_children j.2 x hx)

/-- The jsonb `[1, {}]`. -/
def number_and_object : StoredJsonb :=
  ⟨.array [.scalar (.numeric 1), .object []], by decide⟩

theorem three_calls_agree :
    PairsAgree insertionorder skipping Subtype.val unchanged true 0 number_and_object
      [.next, .next, .next, .close] :=
  (pairs_agree_with_map_iff_called_in_time insertionorder skipping_documented skipping_skips
    unchanged (fun _ _ _ => rfl) (fun _ => ⟨_, rfl⟩) 0 _).mpr List.not_mem_nil

/-- The call after the end reads the state that the end freed: with `[1, {}]` the fourth call,
with `{}` the second. -/
theorem the_call_after_the_end_reads_freed_state :
    ¬ PairsAgree insertionorder skipping Subtype.val unchanged false 0 number_and_object
        [.next, .next, .next, .next] ∧
      ¬ PairsAgree insertionorder skipping Subtype.val unchanged false 0 empty_object
        [.next, .next] := by
  constructor
  · rintro ⟨ps, -, -, -, hresults⟩
    apply expected_not_freed ps [.next, .next, .next, .next]
    rw [← hresults]
    have hrun : pairs_run skipping (pllua_jsonb_pairs_common false number_and_object 0)
        [.next, .next, .next, .next] =
      [.pair (.integer 0) (.numeric 0 1), .pair (.integer 1) (.datum 1 ⟨.object [], by decide⟩),
        .done, .freed] := rfl
    rw [hrun]
    simp [PairsResult.unref]
  · rintro ⟨ps, -, -, -, hresults⟩
    apply expected_not_freed ps [.next, .next]
    rw [← hresults]
    have hrun : pairs_run skipping (pllua_jsonb_pairs_common false empty_object 0) [.next, .next] =
      [.done, .freed] := rfl
    rw [hrun]
    simp [PairsResult.unref]

end pllua.jsonb
