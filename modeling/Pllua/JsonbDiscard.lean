-- pllua_jsonb_map with discard: no table is pushed, so keys, values and indexes stay on the
-- Lua stack, and the end of a container reads its key and its level from what lies there.
import Pllua.JsonbFolds

open pllua.documents pllua.luavalue pllua.luavalue.LuaValue

namespace pllua.jsonb

variable {N D J P : Type}

/-! ## How high the stack goes -/

mutual
/-- What the members of a document leave on the stack: one for an element, two for a member
of an object that is a scalar, one for the key of any other. -/
def left : Json N → Nat
  | .scalar _ => 1
  | .array xs => leftElems xs
  | .object ms => leftMembers ms

def leftElems : List (Json N) → Nat
  | [] => 0
  | x :: xs => left x + leftElems xs

def leftMembers : List (Bytes × Json N) → Nat
  | [] => 0
  | m :: ms => 1 + left m.2 + leftMembers ms
end

mutual
/-- The most that the tokens of a document have on the stack at once. -/
def peak : Json N → Nat
  | .scalar _ => 1
  | .array xs => 1 + peakElems xs
  | .object ms => peakMembers ms

def peakElems : List (Json N) → Nat
  | [] => 0
  | x :: xs => max (peak x) (left x + peakElems xs)

def peakMembers : List (Bytes × Json N) → Nat
  | [] => 0
  | m :: ms => max (1 + peak m.2) (1 + left m.2 + peakMembers ms)
end

mutual
/-- The nesting depth. -/
def depth : Json N → Nat
  | .scalar _ => 0
  | .array xs => 1 + depthElems xs
  | .object ms => 1 + depthMembers ms

def depthElems : List (Json N) → Nat
  | [] => 0
  | x :: xs => max (depth x) (depthElems xs)

def depthMembers : List (Bytes × Json N) → Nat
  | [] => 0
  | m :: ms => max (depth m.2) (depthMembers ms)
end

/-- What one token adds to the stack. -/
def added : Token Bytes (Scalar N) → Int
  | .beginArray => 1
  | .endArray => -1
  | .beginObject => 0
  | .endObject => 0
  | .elem _ => 1
  | .key _ => 1
  | .value _ => 1

/-- What a list of tokens adds to the stack. -/
def rise (ts : List (Token Bytes (Scalar N))) : Int := (ts.map added).sum

@[simp] theorem rise_nil : rise ([] : List (Token Bytes (Scalar N))) = 0 := rfl

@[simp] theorem rise_cons (t : Token Bytes (Scalar N)) (ts : List (Token Bytes (Scalar N))) :
    rise (t :: ts) = added t + rise ts := by
  simp [rise]

@[simp] theorem rise_append (ts us : List (Token Bytes (Scalar N))) :
    rise (ts ++ us) = rise ts + rise us := by
  simp [rise]

/-- The tokens never go below where they started, nor above the height, which they reach. -/
structure Climbs (ts : List (Token Bytes (Scalar N))) (height : Int) : Prop where
  low : ∀ n, 0 ≤ rise (ts.take n)
  high : ∀ n, rise (ts.take n) ≤ height
  reached : ∃ n, rise (ts.take n) = height

theorem Climbs.nil : Climbs ([] : List (Token Bytes (Scalar N))) 0 :=
  ⟨by simp, by simp, 0, by simp⟩

theorem Climbs.one {t : Token Bytes (Scalar N)} (h : 0 ≤ added t) : Climbs [t] (added t) := by
  refine ⟨?_, ?_, 1, by simp⟩
  · intro n
    cases n <;> simp [h]
  · intro n
    cases n <;> simp [h]

theorem Climbs.height_nonneg {ts : List (Token Bytes (Scalar N))} {height : Int}
    (h : Climbs ts height) : 0 ≤ height := by
  obtain ⟨n, hn⟩ := h.reached
  have := h.low n
  omega

theorem Climbs.rise_nonneg {ts : List (Token Bytes (Scalar N))} {height : Int}
    (h : Climbs ts height) : 0 ≤ rise ts := by
  have := h.low ts.length
  rwa [List.take_length] at this

/-- One climb after another. -/
theorem Climbs.append {ts us : List (Token Bytes (Scalar N))} {a c : Int} (hts : Climbs ts a)
    (hus : Climbs us c) : Climbs (ts ++ us) (max a (rise ts + c)) := by
  have hr := hts.rise_nonneg
  have hsplit : ∀ n, rise ((ts ++ us).take n) = rise (ts.take n) ∨
      ∃ m, rise ((ts ++ us).take n) = rise ts + rise (us.take m) := by
    intro n
    rw [List.take_append, rise_append]
    rcases Nat.le_total n ts.length with hn | hn
    · exact Or.inl (by simp [Nat.sub_eq_zero_of_le hn])
    · exact Or.inr ⟨n - ts.length, by rw [List.take_of_length_le hn]⟩
  refine ⟨fun n => ?_, fun n => ?_, ?_⟩
  · have := hts.low n
    rcases hsplit n with h | ⟨m, h⟩
    · omega
    · have := hus.low m
      omega
  · have := hts.high n
    rcases hsplit n with h | ⟨m, h⟩
    · omega
    · have := hus.high m
      omega
  · rcases le_total a (rise ts + c) with hac | hac
    · obtain ⟨n, hn⟩ := hus.reached
      refine ⟨ts.length + n, ?_⟩
      rw [List.take_length_add_append, rise_append, hn]
      omega
    · obtain ⟨n, hn⟩ := hts.reached
      refine ⟨min n ts.length, ?_⟩
      rw [List.take_append_of_le_length (by omega), ← List.take_eq_take_min, hn]
      omega

theorem Climbs.rise_le {ts : List (Token Bytes (Scalar N))} {height : Int} (h : Climbs ts height) :
    rise ts ≤ height := by
  have := h.high ts.length
  rwa [List.take_length] at this

/-- A token that takes one off, where there is one to take. -/
theorem Climbs.endArray {ts : List (Token Bytes (Scalar N))} {height : Int} (h : Climbs ts height)
    (hr : 1 ≤ rise ts) : Climbs (ts ++ [.endArray]) height := by
  have hsplit : ∀ n, rise ((ts ++ [Token.endArray]).take n) = rise (ts.take n) ∨
      rise ((ts ++ [Token.endArray]).take n) = rise ts - 1 := by
    intro n
    rcases Nat.lt_or_ge ts.length n with hn | hn
    · refine Or.inr ?_
      rw [List.take_of_length_le (by simp; omega)]
      simp [added]
      omega
    · exact Or.inl (by rw [List.take_append_of_le_length hn])
  have hle := h.rise_le
  refine ⟨fun n => ?_, fun n => ?_, ?_⟩
  · have := h.low n
    rcases hsplit n with heq | heq <;> omega
  · have := h.high n
    rcases hsplit n with heq | heq <;> omega
  · obtain ⟨n, hn⟩ := h.reached
    refine ⟨min n ts.length, ?_⟩
    rw [List.take_append_of_le_length (by omega), ← List.take_eq_take_min, hn]

/-! ### The tokens of a document -/

/-- A scalar adds one, wherever it stands. -/
def AddsOne (w : Scalar N → Token Bytes (Scalar N)) : Prop := ∀ s, added (w s) = 1

theorem addsOne_elem : AddsOne (.elem : Scalar N → Token Bytes (Scalar N)) := fun _ => rfl

theorem addsOne_value : AddsOne (.value : Scalar N → Token Bytes (Scalar N)) := fun _ => rfl

/-- The climb of a document: how much stays, and how high it goes. -/
def ClimbsOf (d : Json N) : Prop :=
  ∀ w : Scalar N → Token Bytes (Scalar N), AddsOne w →
    rise (d.listed w) = left d ∧ Climbs (d.listed w) (peak d)

theorem climbs_elems {xs : List (Json N)} (ih : ∀ x ∈ xs, ClimbsOf x) :
    rise (listedElems xs) = leftElems xs ∧ Climbs (listedElems xs) (peakElems xs) := by
  induction xs with
  | nil => exact ⟨rfl, Climbs.nil⟩
  | cons x xs ihxs =>
    obtain ⟨hrx, hcx⟩ := ih x List.mem_cons_self .elem addsOne_elem
    obtain ⟨hrs, hcs⟩ := ihxs fun y hy => ih y (List.mem_cons_of_mem x hy)
    have happ := hcx.append hcs
    rw [hrx] at happ
    constructor
    · rw [listedElems, rise_append, hrx, hrs, leftElems]
      omega
    · rw [listedElems, peakElems]
      have hheight : max (peak x : Int) (left x + peakElems xs) =
          (max (peak x) (left x + peakElems xs) : Nat) := by omega
      rw [hheight] at happ
      exact happ

theorem climbs_members {ms : List (Bytes × Json N)} (ih : ∀ m ∈ ms, ClimbsOf m.2) :
    rise (listedMembers ms) = leftMembers ms ∧ Climbs (listedMembers ms) (peakMembers ms) := by
  induction ms with
  | nil => exact ⟨rfl, Climbs.nil⟩
  | cons m ms ihms =>
    obtain ⟨hrm, hcm⟩ := ih m List.mem_cons_self .value addsOne_value
    obtain ⟨hrs, hcs⟩ := ihms fun n hn => ih n (List.mem_cons_of_mem m hn)
    have hkey : Climbs [(.key m.1 : Token Bytes (Scalar N))] 1 := Climbs.one (by simp [added])
    have happ := hkey.append (hcm.append hcs)
    have hpeak := hcm.height_nonneg
    have hheight : max 1 (rise [(.key m.1 : Token Bytes (Scalar N))] +
        max (peak m.2 : Int) (rise (m.2.listed .value) + peakMembers ms)) =
        (peakMembers (m :: ms) : Nat) := by
      rw [hrm, peakMembers]
      simp only [rise_cons, added, rise_nil]
      omega
    rw [hheight] at happ
    constructor
    · rw [listedMembers, rise_cons, rise_append, hrm, hrs, leftMembers]
      simp only [added]
      omega
    · exact happ

theorem climbs_doc (d : Json N) : ClimbsOf d := by
  induction d using Doc.induct with
  | scalar s =>
    intro w hw
    have hone := Climbs.one (t := w s) (by rw [hw]; omega)
    rw [hw] at hone
    exact ⟨by simp [Doc.listed, hw s, left], hone⟩
  | array xs ih =>
    intro w _
    obtain ⟨hr, hc⟩ := climbs_elems ih
    have hbegin : Climbs [(.beginArray : Token Bytes (Scalar N))] 1 :=
      Climbs.one (by simp [added])
    have happ := hbegin.append hc
    have hpeak := hc.height_nonneg
    have hrise : rise ([(.beginArray : Token Bytes (Scalar N))] ++ listedElems xs) =
        1 + leftElems xs := by
      rw [rise_append, hr]
      rfl
    have hend := happ.endArray (by rw [hrise]; omega)
    constructor
    · rw [Doc.listed, rise_cons, rise_append, hr, left]
      simp only [added, rise_cons, rise_nil]
      omega
    · rw [Doc.listed, peak]
      have hheight : max 1 (rise [(.beginArray : Token Bytes (Scalar N))] + peakElems xs) =
          ((1 + peakElems xs : Nat) : Int) := by
        simp only [rise_cons, added, rise_nil]
        omega
      rw [hheight] at hend
      exact hend
  | object ms ih =>
    intro w _
    obtain ⟨hr, hc⟩ := climbs_members ih
    have hbegin : Climbs [(.beginObject : Token Bytes (Scalar N))] 0 :=
      Climbs.one (by simp [added])
    have hend : Climbs [(.endObject : Token Bytes (Scalar N))] 0 := Climbs.one (by simp [added])
    have happ := hbegin.append (hc.append hend)
    have hle := hc.rise_le
    constructor
    · rw [Doc.listed, rise_cons, rise_append, hr, left]
      simp only [added, rise_cons, rise_nil]
      omega
    · rw [Doc.listed, peak]
      have hheight : max 0 (rise [(.beginObject : Token Bytes (Scalar N))] +
          max (peakMembers ms : Int) (rise (listedMembers ms) + 0)) = peakMembers ms := by
        simp only [rise_cons, added, rise_nil]
        omega
      rw [hheight] at happ
      exact happ

/-! ### The height of the machine's stack -/

/-- The map function that returns its key and value unchanged. -/
def unchanged : MapFunc N D := fun key val _ => (key, val)

section
variable (lib : LuaLib N D) (b : Backend N D J P) {pg_numeric : Bool} {null : LuaValue N D}

theorem callmap_length {st st' : MapState N D} {f : MapFunc N D}
    (h : st.callmap (some f) = .ok st') : st'.stack.length = st.stack.length := by
  obtain ⟨stack, patht, patht_len, next, calls⟩ := st
  match stack with
  | [] => cases h
  | [_] => cases h
  | val :: key :: rest =>
    cases h
    rfl

theorem pushvalue_length (c : MapConfig N D) (st : MapState N D) (v : JsonbValue N J) :
    (pushvalue b c st v).stack.length = st.stack.length + 1 := by
  cases v <;> rfl

/-- With discard the end of a container leaves the stack as it is. -/
theorem endcontainer_discard (st : MapState N D) :
    endcontainer lib (mapping unchanged true pg_numeric null) st =
      .ok (if st.below.isnil then st else { st with patht_len := st.patht_len - 1 }) := by
  simp [endcontainer]

/-- With discard every token adds to the stack, whatever the value. -/
theorem maptoken_height {st st' : MapState N D} {t : Token Bytes (Scalar N)}
    (hlen : 1 ≤ st.stack.length)
    (h : maptoken lib b (mapping unchanged true pg_numeric null) false st (event t) = .ok st') :
    (st'.stack.length : Int) = st.stack.length + added t := by
  cases t with
  | beginArray =>
    cases h
    simp [MapState.push, added]
  | endArray =>
    simp only [event, maptoken, Bool.false_eq_true, if_false, endcontainer_discard] at h
    cases h
    have hpop : st.pop.stack.length = st.stack.length - 1 := by simp [MapState.pop]
    split <;> simp [hpop, added] <;> omega
  | beginObject =>
    cases h
    simp [added]
  | endObject =>
    simp only [event, maptoken, endcontainer_discard] at h
    cases h
    split <;> simp [added]
  | key k =>
    cases h
    simp [pushvalue, MapState.push, added]
  | elem s =>
    simp only [event, maptoken, mapping_map, mapping_discard] at h
    cases hcall : (pushvalue b (mapping unchanged true pg_numeric null) st
        s.toJsonbValue).callmap (some unchanged) with
    | error e =>
      rw [hcall] at h
      cases h
    | ok st₁ =>
      rw [hcall] at h
      cases h
      have hlen := callmap_length hcall
      rw [pushvalue_length] at hlen
      simp [MapState.pop, MapState.push, hlen, added]
  | value s =>
    simp only [event, maptoken, mapping_map, mapping_discard] at h
    cases hcall : (pushvalue b (mapping unchanged true pg_numeric null) st
        s.toJsonbValue).callmap (some unchanged) with
    | error e =>
      rw [hcall] at h
      cases h
    | ok st₁ =>
      rw [hcall] at h
      cases h
      have hlen := callmap_length hcall
      rw [pushvalue_length] at hlen
      simp [hlen, added]

/-- The height after a list of tokens. -/
theorem runtokens_height {ts : List (Token Bytes (Scalar N))} {st st' : MapState N D}
    (hlow : ∀ n, 1 ≤ st.stack.length + rise (ts.take n))
    (h : runtokens lib b (mapping unchanged true pg_numeric null) st ts = .ok st') :
    (st'.stack.length : Int) = st.stack.length + rise ts := by
  induction ts generalizing st with
  | nil =>
    cases h
    simp
  | cons t ts ih =>
    rw [runtokens_cons] at h
    cases hstep : maptoken lib b (mapping unchanged true pg_numeric null) false st (event t) with
    | error e =>
      rw [hstep] at h
      cases h
    | ok st₁ =>
      rw [hstep, ok_bind] at h
      have hzero := hlow 0
      rw [List.take_zero, rise_nil] at hzero
      have hone := maptoken_height lib b (by omega) hstep
      have hrest := ih (fun n => by
        have := hlow (n + 1)
        rw [List.take_succ_cons, rise_cons] at this
        omega) h
      rw [rise_cons]
      omega

end

/-! ## The calls for the scalars -/

/-- A value without the reference that a new datum gets. -/
def unref : LuaValue N D → LuaValue N D
  | .numeric _ n => .numeric 0 n
  | .datum _ d => .datum 0 d
  | v => v

/-- A call without the reference of its value. -/
def Call.unref (call : Call N D) : Call N D := ⟨call.key, jsonb.unref call.value, call.path⟩

section
variable (b : Backend N D J P) (c : MapConfig N D)

/-- The value of a scalar, whatever its reference. -/
def scalarValueIn (s : Scalar N) : LuaValue N D := unref (scalarIn b c 0 s).1

@[simp] theorem unref_scalarIn (next : Nat) (s : Scalar N) :
    unref (scalarIn b c next s).1 = scalarValueIn b c s := by
  cases s with
  | numeric n =>
    simp only [scalarValueIn, scalarIn]
    split <;> rfl
  | _ => rfl

end

section
variable (val : Scalar N → LuaValue N D)

mutual
/-- The calls for the scalars in a document, whose members lie at `path`. -/
def scalarCalls (path : List (LuaValue N D)) : Json N → List (Call N D)
  | .scalar _ => []
  | .array xs => scalarElems path 0 xs
  | .object ms => scalarMembers path ms

def scalarElems (path : List (LuaValue N D)) (i : Int) : List (Json N) → List (Call N D)
  | [] => []
  | x :: xs => scalarHere path (.integer i) x ++ scalarElems path (i + 1) xs

def scalarMembers (path : List (LuaValue N D)) : List (Bytes × Json N) → List (Call N D)
  | [] => []
  | m :: ms => scalarHere path (.string m.1) m.2 ++ scalarMembers path ms

/-- The calls for a member under its key. -/
def scalarHere (path : List (LuaValue N D)) (key : LuaValue N D) : Json N → List (Call N D)
  | .scalar s => [⟨key, val s, path⟩]
  | .array xs => scalarElems (path ++ [key]) 0 xs
  | .object ms => scalarMembers (path ++ [key]) ms
end

variable {val}

theorem scalarHere_container {path : List (LuaValue N D)} {key : LuaValue N D} {d : Json N}
    (hd : root_is_scalar d = false) :
    scalarHere val path key d = scalarCalls val (path ++ [key]) d := by
  cases d with
  | scalar s => cases hd
  | array xs => rfl
  | object ms => rfl

/-- The calls for scalars among the visits, without references. -/
def scalarsOf (vs : List (Visit N D)) : List (Call N D) :=
  (vs.filter Visit.scalar).map fun v => v.call.unref

@[simp] theorem scalarsOf_append (vs ws : List (Visit N D)) :
    scalarsOf (vs ++ ws) = scalarsOf vs ++ scalarsOf ws := by
  simp [scalarsOf]

variable {b : Backend N D J P} {c : MapConfig N D} {f : MapFunc N D}

/-- A member: the calls inside it and the call for itself. -/
theorem scalarsOf_member {path : List (LuaValue N D)} {key : LuaValue N D} {x : Json N}
    (ih : ∀ path next, scalarsOf (visits b c f path next x) = scalarCalls (scalarValueIn b c) path x)
    (next : Nat) (vs : List (Visit N D)) :
    scalarsOf (visits b c f (path ++ [key]) next x ++
        ⟨⟨key, (foldDoc b c f (path ++ [key]) next x).1, path⟩, root_is_scalar x⟩ :: vs) =
      scalarHere (scalarValueIn b c) path key x ++ scalarsOf vs := by
  rw [scalarsOf_append, ih]
  cases hx : root_is_scalar x with
  | true =>
    cases x with
    | scalar s => simp [scalarCalls, scalarHere, scalarsOf, Call.unref, foldDoc]
    | array xs => cases hx
    | object ms => cases hx
  | false =>
    rw [scalarHere_container hx]
    simp [scalarsOf]

/-- Without discard the visits to the scalars are the calls for them. -/
theorem scalarsOf_visits (d : Json N) (path : List (LuaValue N D)) (next : Nat) :
    scalarsOf (visits b c f path next d) = scalarCalls (scalarValueIn b c) path d := by
  induction d using Doc.induct generalizing path next with
  | scalar s => rfl
  | array xs ih =>
    rw [visits, scalarCalls]
    generalize (0 : Int) = i
    generalize next + 1 = next
    induction xs generalizing i next with
    | nil => rfl
    | cons x xs ihxs =>
      rw [visitsElems, scalarElems, scalarsOf_member (ih x List.mem_cons_self),
        ihxs (fun y hy => ih y (List.mem_cons_of_mem x hy))]
  | object ms ih =>
    rw [visits, scalarCalls]
    generalize next + 1 = next
    induction ms generalizing next with
    | nil => rfl
    | cons m ms ihms =>
      rw [visitsMembers, scalarMembers, scalarsOf_member (ih m List.mem_cons_self),
        ihms (fun n hn => ih n (List.mem_cons_of_mem m hn))]

end

/-! ## The run with discard -/

/-- A member that is no null. -/
def notnull : Json N → Bool
  | .scalar .null => false
  | _ => true

/-- No member of an object is a null. -/
def nonull : Json N → Bool
  | .object ms => ms.all fun m => notnull m.2
  | _ => true

/-- One node keeps the bookkeeping of the loop right: in an array only the last element is a
container, no container inside another is empty, and where nulls become nil, no object
inside an array has one. -/
def steady (nullnil : Bool) : Json N → Bool
  | .scalar _ => true
  | .array xs =>
    xs.dropLast.all root_is_scalar && xs.all (fun x => root_count x != 0) &&
      (!nullnil || xs.all fun x => x.all nonull)
  | .object ms => ms.all fun m => root_count m.2 != 0

/-- What a container leaves on the stack: something, and no nil in the second place. -/
def Leaves (l : List (LuaValue N D)) : Prop :=
  l ≠ [] ∧ ∀ a y l', l = a :: y :: l' → y.isnil = false

theorem leaves_of_no_nil {l : List (LuaValue N D)} (h : l ≠ []) (hl : ∀ v ∈ l, v.isnil = false) :
    Leaves l :=
  ⟨h, fun _ _ _ heq => hl _ (by simp [heq])⟩

/-- A key below what a container leaves. -/
theorem Leaves.append {l : List (LuaValue N D)} (h : Leaves l) {k : LuaValue N D}
    (hk : k.isnil = false) (rest : List (LuaValue N D)) :
    ∃ a y l', l ++ k :: rest = a :: y :: l' ∧ y.isnil = false := by
  match l, h with
  | [], h => exact absurd rfl h.1
  | [a], _ => exact ⟨a, k, rest, rfl, hk⟩
  | a :: y :: l', h => exact ⟨a, y, l' ++ k :: rest, rfl, h.2 a y l' rfl⟩

section
variable (lib : LuaLib N D) (b : Backend N D J P) (pg_numeric : Bool) (null : LuaValue N D)

/-- The config table of a map that discards its results and changes nothing. -/
def discarding : MapConfig N D := mapping unchanged true pg_numeric null

/-- The tokens of a container call the function for its scalars and leave the path as it is. -/
def Discarded (d : Json N) : Prop :=
  ∀ (st : MapState N D) (k : LuaValue N D) (rest path : List (LuaValue N D)) (next : Nat)
    (calls : List (Call N D)) (w : Scalar N → Token Bytes (Scalar N)),
    st.Is (k :: rest) path next calls → k.isnil = false →
    ∃ st' l next' cs, runtokens lib b (discarding pg_numeric null) st (d.listed w) = .ok st' ∧
      st'.Is (l ++ k :: rest) path next' (calls ++ cs) ∧
      cs.map Call.unref = scalarCalls (scalarValueIn b (discarding pg_numeric null)) (path ++ [k]) d ∧
      Leaves l ∧ ((null.isnil → d.all nonull) → ∀ v ∈ l, v.isnil = false)

variable {b} {st : MapState N D} {rest path : List (LuaValue N D)} {next : Nat}
  {calls : List (Call N D)}

theorem discard_elem {i : Int} (h : st.Is (.integer i :: rest) path next calls) (h0 : 0 ≤ i)
    (h1 : i + 1 < 2 ^ 31) (s : Scalar N) :
    ∃ st', maptoken lib b (discarding pg_numeric null) false st (event (.elem s)) = .ok st' ∧
      st'.Is (.integer (i + 1) :: .integer i :: rest) path
        (scalarIn b (discarding pg_numeric null) next s).2
        (calls ++ [⟨.integer i, (scalarIn b (discarding pg_numeric null) next s).1, path⟩]) := by
  have hpush := pushvalue_in (b := b) (c := discarding pg_numeric null) h s
  obtain ⟨st₁, hcall, h₁⟩ := hpush.callmap unchanged
  refine ⟨_, ?_, h₁.pop.push _⟩
  simp only [event, maptoken, hpush.below, lua_tointeger, lua_tointegerx, Option.getD_some]
  simp only [discarding, mapping_map, mapping_discard] at hcall ⊢
  simp only [hcall, ok_bind, Bool.false_eq_true, if_false, if_true, toint_succ h0 h1]

theorem discard_value {k : LuaValue N D} (h : st.Is (k :: rest) path next calls) (s : Scalar N) :
    ∃ st', maptoken lib b (discarding pg_numeric null) false st (event (.value s)) = .ok st' ∧
      st'.Is ((scalarIn b (discarding pg_numeric null) next s).1 :: k :: rest) path
        (scalarIn b (discarding pg_numeric null) next s).2
        (calls ++ [⟨k, (scalarIn b (discarding pg_numeric null) next s).1, path⟩]) := by
  obtain ⟨st₁, hcall, h₁⟩ := (pushvalue_in (b := b) (c := discarding pg_numeric null) h s).callmap
    unchanged
  refine ⟨st₁, ?_, h₁⟩
  simp only [discarding, event, maptoken, mapping_map, mapping_discard] at hcall ⊢
  simp only [hcall, ok_bind, if_true]

/-- The end of a container inside another, where the slot that is read is no nil. -/
theorem discard_end {a y k : LuaValue N D} {l : List (LuaValue N D)}
    (h : st.Is (a :: y :: l) (path ++ [k]) next calls) (hy : y.isnil = false) :
    ∃ st', endcontainer lib (discarding pg_numeric null) st = .ok st' ∧
      st'.Is (a :: y :: l) path next calls := by
  refine ⟨_, ?_, h.shorten⟩
  rw [discarding, endcontainer_discard, h.below, hy]
  rfl

/-- The end of any container calls nothing. -/
theorem discard_end_calls (st : MapState N D) :
    ∃ st', endcontainer lib (discarding pg_numeric null) st = .ok st' ∧ st'.calls = st.calls := by
  refine ⟨if st.below.isnil then st else { st with patht_len := st.patht_len - 1 }, ?_, ?_⟩
  · exact endcontainer_discard lib st
  · split <;> rfl

variable {lib pg_numeric null}

/-- The elements that come after the first `i`. -/
theorem discard_elems {xs : List (Json N)}
    (ih : ∀ x ∈ xs, root_is_scalar x = false → Discarded lib b pg_numeric null x)
    (hlast : ∀ x ∈ xs.dropLast, root_is_scalar x) (hnull : null.isnil → ∀ x ∈ xs, x.all nonull)
    {st : MapState N D} {rest : List (LuaValue N D)} {next : Nat} {calls : List (Call N D)} {i : Int}
    (h : st.Is (.integer i :: rest) path next calls) (h0 : 0 ≤ i) (h1 : i + xs.length < 2 ^ 31) :
    ∃ st' l next' cs,
      runtokens lib b (discarding pg_numeric null) st (listedElems xs) = .ok st' ∧
      st'.Is (l ++ .integer i :: rest) path next' (calls ++ cs) ∧
      cs.map Call.unref = scalarElems (scalarValueIn b (discarding pg_numeric null)) path i xs ∧
      (xs ≠ [] → l ≠ []) ∧ ∀ v ∈ l, v.isnil = false := by
  induction xs generalizing st i next calls rest with
  | nil => exact ⟨st, [], next, [], rfl, by simpa using h, rfl, by simp, by simp⟩
  | cons x xs ihxs =>
    rw [List.length_cons] at h1
    rw [listedElems]
    simp only [runtokens_append]
    cases hx : root_is_scalar x with
    | true =>
      cases x with
      | scalar s =>
        obtain ⟨st₁, hrun, h₁⟩ := discard_elem (b := b) lib pg_numeric null h h0 (by omega) s
        have hlast' : ∀ y ∈ xs.dropLast, root_is_scalar y := by
          intro y hy
          apply hlast y
          cases xs with
          | nil => cases hy
          | cons z zs => exact List.mem_cons_of_mem _ hy
        obtain ⟨st₂, l, next', cs, hrun', h₂, hcs, -, hl⟩ :=
          ihxs (fun y hy => ih y (List.mem_cons_of_mem _ hy)) hlast'
            (fun hn y hy => hnull hn y (List.mem_cons_of_mem _ hy)) h₁ (by omega) (by omega)
        refine ⟨st₂, l ++ [.integer (i + 1)], next',
          ⟨.integer i, (scalarIn b (discarding pg_numeric null) next s).1, path⟩ :: cs, ?_, ?_, ?_,
          fun _ => by simp, ?_⟩
        · rw [Doc.listed, runtokens_one, hrun, ok_bind, hrun']
        · simpa using h₂
        · rw [List.map_cons, hcs]
          simp [scalarElems, scalarHere, Call.unref]
        · intro v hv
          rcases List.mem_append.mp hv with hv | hv
          · exact hl v hv
          · rw [List.mem_singleton.mp hv]
            rfl
      | array ys => cases hx
      | object ms => cases hx
    | false =>
      -- a container is the last element
      have hnil : xs = [] := by
        cases xs with
        | nil => rfl
        | cons z zs =>
          have := hlast x (by simp)
          rw [hx] at this
          exact absurd this Bool.false_ne_true
      subst hnil
      obtain ⟨st₁, l, next', cs, hrun, h₁, hcs, hleaves, hl⟩ :=
        ih x List.mem_cons_self hx st _ _ _ _ _ .elem h rfl
      refine ⟨st₁, l, next', cs, ?_, h₁, ?_, fun _ => hleaves.1,
        hl fun hn => hnull hn x List.mem_cons_self⟩
      · rw [hrun, ok_bind, listedElems, runtokens_nil]
      · rw [hcs, scalarElems, scalarHere_container hx, scalarElems, List.append_nil]

/-- A scalar is nil only if it is a null that becomes nil. -/
theorem scalarIn_not_nil {c : MapConfig N D} (hnum : ∀ n, (b.tonumber n).isnil = false)
    {s : Scalar N} (hs : c.null.isnil → s ≠ .null) (next : Nat) :
    (scalarIn b c next s).1.isnil = false := by
  cases s with
  | null =>
    rw [scalarIn]
    exact eq_false_of_ne_true fun h => hs h rfl
  | bool v => rfl
  | string s => rfl
  | numeric n =>
    rw [scalarIn]
    dsimp only
    split
    · rfl
    · exact hnum n

/-- One member: its key and what its value leaves. -/
theorem discard_member (hnum : ∀ n, (b.tonumber n).isnil = false) {m : Bytes × Json N}
    (hm : root_is_scalar m.2 = false → Discarded lib b pg_numeric null m.2)
    (h : st.Is rest path next calls) :
    ∃ st' l next' cs,
      runtokens lib b (discarding pg_numeric null) st (.key m.1 :: m.2.listed .value) = .ok st' ∧
      st'.Is (l ++ rest) path next' (calls ++ cs) ∧
      cs.map Call.unref = scalarHere (scalarValueIn b (discarding pg_numeric null)) path (.string m.1) m.2 ∧
      (∃ a y l', l = a :: y :: l' ∧ y.isnil = false) ∧
      ((null.isnil → notnull m.2 ∧ m.2.all nonull) → ∀ v ∈ l, v.isnil = false) := by
  have hkey : maptoken lib b (discarding pg_numeric null) false st (event (.key m.1)) =
      .ok (st.push (.string m.1)) := rfl
  have hpush := h.push (.string m.1)
  rw [runtokens_cons, hkey, ok_bind]
  obtain ⟨k, d⟩ := m
  cases hs : root_is_scalar d with
  | true =>
    cases d with
    | scalar s =>
      obtain ⟨st₁, hrun, h₁⟩ := discard_value (b := b) lib pg_numeric null hpush s
      refine ⟨st₁, [(scalarIn b (discarding pg_numeric null) next s).1, .string k], _, _, ?_, h₁,
        ?_, ⟨_, .string k, [], rfl, rfl⟩, ?_⟩
      · rw [Doc.listed, runtokens_one, hrun]
      · simp [scalarHere, Call.unref]
      · intro hnull v hv
        rcases List.mem_cons.mp hv with rfl | hv
        · refine scalarIn_not_nil hnum (fun hn hs => ?_) next
          have := (hnull hn).1
          rw [hs] at this
          exact absurd this Bool.false_ne_true
        · rw [List.mem_singleton.mp hv]
          rfl
    | array xs => cases hs
    | object ms => cases hs
  | false =>
    obtain ⟨st₁, l, next', cs, hrun, h₁, hcs, hleaves, hl⟩ := hm hs _ _ _ _ _ _ .value hpush rfl
    refine ⟨st₁, l ++ [.string k], next', cs, hrun, by simpa using h₁, ?_,
      hleaves.append rfl [], ?_⟩
    · rw [hcs, scalarHere_container hs]
    · intro hnull v hv
      rcases List.mem_append.mp hv with hv | hv
      · exact hl (fun hn => (hnull hn).2) v hv
      · rw [List.mem_singleton.mp hv]
        rfl

/-- The members of an object. -/
theorem discard_members (hnum : ∀ n, (b.tonumber n).isnil = false) {ms : List (Bytes × Json N)}
    (ih : ∀ m ∈ ms, root_is_scalar m.2 = false → Discarded lib b pg_numeric null m.2)
    {st : MapState N D} {rest : List (LuaValue N D)} {next : Nat} {calls : List (Call N D)}
    (h : st.Is rest path next calls) :
    ∃ st' l next' cs,
      runtokens lib b (discarding pg_numeric null) st (listedMembers ms) = .ok st' ∧
      st'.Is (l ++ rest) path next' (calls ++ cs) ∧
      cs.map Call.unref = scalarMembers (scalarValueIn b (discarding pg_numeric null)) path ms ∧
      (ms ≠ [] → ∃ a y l', l = a :: y :: l' ∧ y.isnil = false) ∧
      ((null.isnil → ∀ m ∈ ms, notnull m.2 ∧ m.2.all nonull) → ∀ v ∈ l, v.isnil = false) := by
  induction ms generalizing st next calls rest with
  | nil => exact ⟨st, [], next, [], rfl, by simpa using h, rfl, fun hno => absurd rfl hno, by simp⟩
  | cons m ms ihms =>
    obtain ⟨st₁, l, next₁, cs, hrun, h₁, hcs, htwo, hl⟩ :=
      discard_member hnum (ih m List.mem_cons_self) h
    obtain ⟨st₂, l', next₂, cs', hrun', h₂, hcs', htwo', hl'⟩ :=
      ihms (fun n hn => ih n (List.mem_cons_of_mem m hn)) h₁
    refine ⟨st₂, l' ++ l, next₂, cs ++ cs', ?_, by simpa using h₂, ?_, fun _ => ?_, ?_⟩
    · rw [listedMembers, ← List.cons_append, runtokens_append, hrun, ok_bind, hrun']
    · rw [List.map_append, hcs, hcs', scalarMembers]
    · cases ms with
      | nil =>
        simp only [listedMembers, runtokens_nil, Except.ok.injEq] at hrun'
        subst hrun'
        have hnil : l' = [] := by
          have := h₁.stack.symm.trans h₂.stack
          simpa using this
        rw [hnil]
        exact htwo
      | cons n ns =>
        obtain ⟨a, y, l'', heq, hy⟩ := htwo' (by simp)
        exact ⟨a, y, l'' ++ l, by rw [heq]; rfl, hy⟩
    · intro hnull v hv
      rcases List.mem_append.mp hv with hv | hv
      · exact hl' (fun hn n hn' => hnull hn n (List.mem_cons_of_mem m hn')) v hv
      · exact hl (fun hn => hnull hn m List.mem_cons_self) v hv

theorem steady_array (nullnil : Bool) (xs : List (Json N)) :
    steady nullnil (.array xs) ↔ (∀ x ∈ xs.dropLast, root_is_scalar x) ∧
      (∀ x ∈ xs, root_count x ≠ 0) ∧ (nullnil → ∀ x ∈ xs, x.all nonull) := by
  cases nullnil <;> simp [steady, and_assoc]

theorem steady_object (nullnil : Bool) (ms : List (Bytes × Json N)) :
    steady nullnil (.object ms) ↔ ∀ m ∈ ms, root_count m.2 ≠ 0 := by
  simp [steady]

/-- The tokens of a container inside another, by induction on the document. -/
theorem discard_doc (hnum : ∀ n, (b.tonumber n).isnil = false) {d : Json N}
    (hcount : d.all counts_fit) (hsteady : d.all (steady null.isnil)) (hne : root_count d ≠ 0) :
    root_is_scalar d = false → Discarded lib b pg_numeric null d := by
  induction d using Doc.induct with
  | scalar s => exact nofun
  | array xs ih =>
    intro _ st k rest path next calls w h hk
    obtain ⟨hlen, hcs⟩ := (all_array _ xs).mp hcount
    obtain ⟨hnode, hsub⟩ := (all_array _ xs).mp hsteady
    obtain ⟨hlast, hfull, hnull⟩ := (steady_array null.isnil xs).mp hnode
    have hbegin : maptoken lib b (discarding pg_numeric null) false st (event .beginArray) =
        .ok (st.pushpath.push (.integer 0)) := by
      simp [event, maptoken, discarding]
    obtain ⟨st₁, l, next', cs, hrun, h₁, hcalls, hlne, hl⟩ := discard_elems
      (fun x hx => ih x hx (hcs x hx) (hsub x hx) (hfull x hx)) hlast hnull
      ((h.pushpath hk).push (.integer 0)) (le_refl 0) (by have := length_of_counts hlen; omega)
    -- the index is not on top, so another value is popped
    obtain ⟨a, l', rfl⟩ := List.exists_cons_of_ne_nil
      (hlne fun hnil => hne (by rw [hnil]; rfl))
    have h₂ : st₁.pop.Is ((l' ++ [.integer 0]) ++ k :: rest) (path ++ [k]) next' (calls ++ cs) := by
      rw [List.append_assoc]
      exact h₁.pop
    have hl' : ∀ v ∈ l' ++ [.integer 0], v.isnil = false := by
      intro v hv
      rcases List.mem_append.mp hv with hv | hv
      · exact hl v (List.mem_cons_of_mem a hv)
      · rw [List.mem_singleton.mp hv]
        rfl
    have hleaves : Leaves (l' ++ [.integer 0]) := leaves_of_no_nil (by simp) hl'
    obtain ⟨x, y, l'', heq, hy⟩ := hleaves.append hk rest
    rw [heq] at h₂
    obtain ⟨st₂, hend, h₃⟩ := discard_end lib pg_numeric null h₂ hy
    rw [← heq] at h₃
    refine ⟨st₂, _, next', cs, ?_, h₃, hcalls, hleaves, fun _ => hl'⟩
    rw [Doc.listed, runtokens_cons, hbegin, ok_bind, runtokens_append, hrun, ok_bind,
      runtokens_one]
    exact hend
  | object ms ih =>
    intro _ st k rest path next calls w h hk
    obtain ⟨-, hcs⟩ := (all_object _ ms).mp hcount
    obtain ⟨hnode, hsub⟩ := (all_object _ ms).mp hsteady
    have hfull := (steady_object null.isnil ms).mp hnode
    have hbegin : maptoken lib b (discarding pg_numeric null) false st (event .beginObject) =
        .ok st.pushpath := by
      simp [event, maptoken, discarding]
    obtain ⟨st₁, l, next', cs, hrun, h₁, hcalls, htwo, hl⟩ := discard_members hnum
      (fun m hm => ih m hm (hcs m hm) (hsub m hm) (hfull m hm)) (h.pushpath hk)
    obtain ⟨a, y, l', rfl, hy⟩ := htwo fun hnil => hne (by rw [hnil]; rfl)
    obtain ⟨st₂, hend, h₂⟩ := discard_end lib pg_numeric null h₁ hy
    refine ⟨st₂, a :: y :: l', next', cs, ?_, h₂, hcalls, ⟨by simp, ?_⟩, ?_⟩
    · rw [Doc.listed, runtokens_cons, hbegin, ok_bind, runtokens_append, hrun, ok_bind,
        runtokens_one]
      exact hend
    · rintro _ _ _ heq
      cases heq
      exact hy
    · intro hnull
      refine hl fun hn m hm => ?_
      obtain ⟨hobj, hsubs⟩ := (all_object _ ms).mp (hnull hn)
      rw [nonull, List.all_eq_true] at hobj
      exact ⟨hobj m hm, hsubs m hm⟩

/-! ## The whole map -/

variable (lib b pg_numeric null)

/-- A map that discards its result. -/
def discarded (next : Nat) (j : J) : Except String (Option (LuaValue N D) × List (Call N D)) :=
  pllua_jsonb_map lib b next j (.table (discarding pg_numeric null))

/-- The same map with its result. -/
def kept (next : Nat) (j : J) : Except String (Option (LuaValue N D) × List (Call N D)) :=
  pllua_jsonb_map lib b next j (.table (mapping unchanged false pg_numeric null))

/-- The calls of the map with its result, that for the whole jsonb last. -/
def keptVisits (next : Nat) (d : Json N) : List (Visit N D) :=
  if root_count d = 0 then []
  else
    visits b (mapping unchanged false pg_numeric null) unchanged [] (next + 1) d ++
      [⟨⟨.nil, (foldDoc b (mapping unchanged false pg_numeric null) unchanged [] (next + 1) d).1,
        []⟩, root_is_scalar d⟩]

/-- The map with its result makes these calls. The one that discards it has no result, and
calls the function for the scalars with the same arguments, up to the references of new datums. -/
def SameCalls (next : Nat) (j : J) (d : Json N) : Prop :=
  (kept lib b pg_numeric null next j).map Prod.snd =
      .ok ((keptVisits b pg_numeric null next d).map Visit.call) ∧
    ∃ cs, discarded lib b pg_numeric null next j = .ok (none, cs) ∧
      cs.map Call.unref = scalarsOf (keptVisits b pg_numeric null next d)

/-- After every number of tokens of the map that discards its result the stack is within the
bound. -/
def StackWithin (next : Nat) (j : J) (bound : Nat) : Prop :=
  b.JB_ROOT_COUNT j ≠ 0 → ∀ n st,
    ((b.JsonbIteratorNext false j).take n).foldlM
        (maptoken lib b (discarding pg_numeric null) (b.JB_ROOT_IS_SCALAR j)) (mapstart next) =
      .ok st → st.stack.length ≤ bound

variable {lib b pg_numeric null}

/-- The keys of the members come back as the strings they are. -/
theorem told_unchanged (c : MapConfig N D) (d : Json N) (path : List (LuaValue N D)) (next : Nat) :
    Told b c unchanged path next d := by
  induction d using Doc.induct generalizing path next with
  | scalar s => exact trivial
  | array xs ih =>
    rw [Told]
    generalize (0 : Int) = i
    generalize next + 1 = next
    induction xs generalizing i next with
    | nil => exact trivial
    | cons x xs ihxs =>
      exact ⟨ih x List.mem_cons_self _ _, ihxs (fun y hy => ih y (List.mem_cons_of_mem x hy)) _ _⟩
  | object ms ih =>
    rw [Told]
    generalize next + 1 = next
    induction ms generalizing next with
    | nil => exact trivial
    | cons m ms ihms =>
      exact ⟨ih m List.mem_cons_self _ _, fun _ => rfl,
        ihms (fun n hn => ih n (List.mem_cons_of_mem m hn)) _⟩

variable (lib pg_numeric) in
/-- The tokens of a whole container. -/
theorem discard_toplevel (hnum : ∀ n, (b.tonumber n).isnil = false) {d : Json N}
    (hcount : d.all counts_fit) (hsteady : d.all (steady null.isnil))
    (hd : root_is_scalar d = false) (next : Nat) :
    ∃ st', runtokens lib b (discarding pg_numeric null) (mapstart next) (d.listed .elem) = .ok st' ∧
      st'.calls.map Call.unref = scalarCalls (scalarValueIn b (discarding pg_numeric null)) [] d := by
  have hstart : (mapstart next : MapState N D).Is [.nil, .table next none []] [] (next + 1) [] :=
    ⟨rfl, rfl, rfl, rfl, rfl⟩
  cases d with
  | scalar s => cases hd
  | array xs =>
    obtain ⟨hlen, hcs⟩ := (all_array _ xs).mp hcount
    obtain ⟨hnode, hsub⟩ := (all_array _ xs).mp hsteady
    obtain ⟨hlast, hfull, hnull⟩ := (steady_array null.isnil xs).mp hnode
    have hbegin : maptoken lib b (discarding pg_numeric null) false (mapstart next)
        (event .beginArray) = .ok ((mapstart next).push (.integer 0)) := by
      simp [event, maptoken, discarding, MapState.pushpath, mapstart, isnil]
    have hin : ∀ x ∈ xs, root_is_scalar x = false → Discarded lib b pg_numeric null x :=
      fun x hx => discard_doc hnum (hcs x hx) (hsub x hx) (hfull x hx)
    obtain ⟨st₁, l, next', cs, hrun, h₁, hcalls, -, -⟩ := discard_elems hin hlast hnull
      (hstart.push (.integer 0)) (le_refl 0) (by have := length_of_counts hlen; omega)
    obtain ⟨st₂, hend, hcalls₂⟩ := discard_end_calls lib pg_numeric null st₁.pop
    refine ⟨st₂, ?_, ?_⟩
    · rw [Doc.listed, runtokens_cons, hbegin, ok_bind, runtokens_append, hrun, ok_bind,
        runtokens_one]
      exact hend
    · have hcalls₁ : st₁.pop.calls = cs := h₁.calls
      rw [scalarCalls, ← hcalls, hcalls₂, hcalls₁]
  | object ms =>
    obtain ⟨-, hcs⟩ := (all_object _ ms).mp hcount
    obtain ⟨hnode, hsub⟩ := (all_object _ ms).mp hsteady
    have hfull := (steady_object null.isnil ms).mp hnode
    have hbegin : maptoken lib b (discarding pg_numeric null) false (mapstart next)
        (event .beginObject) = .ok (mapstart next) := by
      simp [event, maptoken, discarding, MapState.pushpath, mapstart, isnil]
    have hin : ∀ m ∈ ms, root_is_scalar m.2 = false → Discarded lib b pg_numeric null m.2 :=
      fun m hm => discard_doc hnum (hcs m hm) (hsub m hm) (hfull m hm)
    obtain ⟨st₁, l, next', cs, hrun, h₁, hcalls, -, -⟩ := discard_members hnum hin hstart
    obtain ⟨st₂, hend, hcalls₂⟩ := discard_end_calls lib pg_numeric null st₁
    refine ⟨st₂, ?_, ?_⟩
    · rw [Doc.listed, runtokens_cons, hbegin, ok_bind, runtokens_append, hrun, ok_bind,
        runtokens_one]
      exact hend
    · have hcalls₁ : st₁.calls = cs := h₁.calls
      rw [scalarCalls, ← hcalls, hcalls₂, hcalls₁]

section
variable {keylt : Bytes → Bytes → Bool} {value : J → Json N}

/-- The calls of the map with its result. -/
theorem kept_calls (h : Documented b keylt value) (next : Nat) (j : J) :
    (kept lib b pg_numeric null next j).map Prod.snd =
      .ok ((keptVisits b pg_numeric null next (value j)).map Visit.call) := by
  have hc : Keeps (mapping unchanged false pg_numeric null) unchanged := ⟨rfl, rfl⟩
  rw [kept, pllua_jsonb_map, h.count, keptVisits]
  by_cases hzero : root_count (value j) = 0
  · simp [hzero, Except.map]
  · simp only [hzero, if_false, MapArg.config, h.is_scalar, mapping_discard, mapping_norecurse,
      h.iterator, Bool.false_eq_true]
    cases hs : root_is_scalar (value j) with
    | true =>
      cases hd : value j with
      | scalar s =>
        have hstart : (mapstart next : MapState N D).Is [.nil, .table next none []] []
            (next + 1) [] := ⟨rfl, rfl, rfl, rfl, rfl⟩
        obtain ⟨st₁, hcall, h₁⟩ := (pushvalue_in (b := b)
          (c := mapping unchanged false pg_numeric null) hstart s).callmap unchanged
        rw [mapstart] at hcall
        simp [iterated, event, maptoken, hcall, h₁.calls, Except.map, visits, foldDoc]
      | array xs => simp [hd, root_is_scalar] at hs
      | object ms => simp [hd, root_is_scalar] at hs
    | false =>
      obtain ⟨hok, -⟩ := runtokens_toplevel (b := b) lib hc (fun _ _ _ => rfl) (fun _ _ _ => rfl)
        hs (h.counts j) next
      obtain ⟨st', hrun, -, hcalls⟩ := hok (told_unchanged _ _ _ _)
      rw [runtokens, mapstart] at hrun
      rw [iterated_container hs, hrun, ok_bind]
      simp [Except.map, hcalls]

theorem scalarValueIn_discarding : scalarValueIn b (mapping unchanged false pg_numeric null) =
    scalarValueIn b (discarding pg_numeric null) := rfl

/-- The calls of the map that discards its result, where every node is steady. -/
theorem discarded_calls (h : Documented b keylt value) (hnum : ∀ n, (b.tonumber n).isnil = false)
    (next : Nat) {j : J} (hsteady : (value j).all (steady null.isnil)) :
    ∃ cs, discarded lib b pg_numeric null next j = .ok (none, cs) ∧
      cs.map Call.unref = scalarsOf (keptVisits b pg_numeric null next (value j)) := by
  rw [discarded, pllua_jsonb_map, h.count, keptVisits]
  by_cases hzero : root_count (value j) = 0
  · exact ⟨[], by simp [hzero, MapArg.config, discarding], by simp [hzero, scalarsOf]⟩
  · simp only [hzero, if_false, MapArg.config, h.is_scalar, discarding, mapping_discard,
      mapping_norecurse, h.iterator, if_true]
    cases hs : root_is_scalar (value j) with
    | true =>
      cases hd : value j with
      | scalar s =>
        have hstart : (mapstart next : MapState N D).Is [.nil, .table next none []] []
            (next + 1) [] := ⟨rfl, rfl, rfl, rfl, rfl⟩
        obtain ⟨st₁, hcall, h₁⟩ := (pushvalue_in (b := b)
          (c := mapping unchanged true pg_numeric null) hstart s).callmap unchanged
        rw [mapstart] at hcall
        refine ⟨st₁.calls, by simp [iterated, event, maptoken, hcall], ?_⟩
        rw [h₁.calls]
        simp [scalarsOf, visits, foldDoc, Call.unref, scalarValueIn_discarding]
        rfl
      | array xs => simp [hd, root_is_scalar] at hs
      | object ms => simp [hd, root_is_scalar] at hs
    | false =>
      obtain ⟨st', hrun, hcalls⟩ := discard_toplevel lib pg_numeric hnum (h.counts j)
        hsteady hs next
      rw [runtokens, mapstart, discarding] at hrun
      refine ⟨st'.calls, by rw [iterated_container hs, hrun]; rfl, ?_⟩
      rw [hcalls, scalarsOf_append, scalarsOf_visits, scalarValueIn_discarding]
      simp [scalarsOf]

/-- A part of the run of a container that can be completed reaches a state. -/
theorem runtokens_take {ts : List (Token Bytes (Scalar N))} {c : MapConfig N D}
    {st st' : MapState N D} (h : runtokens lib b c st ts = .ok st') (n : Nat) :
    ∃ st₁, runtokens lib b c st (ts.take n) = .ok st₁ := by
  rw [← List.take_append_drop n ts, runtokens_append] at h
  cases htake : runtokens lib b c st (ts.take n) with
  | error e =>
    rw [htake] at h
    cases h
  | ok st₁ => exact ⟨st₁, rfl⟩

/-- The height of the stack after some tokens of a container. -/
theorem height_of_take {d : Json N} {next n : Nat} {st : MapState N D}
    (h : runtokens lib b (discarding pg_numeric null) (mapstart next) ((d.listed .elem).take n) =
      .ok st) :
    (st.stack.length : Int) = 2 + rise ((d.listed .elem).take n) := by
  obtain ⟨-, hclimb⟩ := climbs_doc d .elem addsOne_elem
  refine runtokens_height lib b (fun m => ?_) h
  rw [List.take_take]
  have := hclimb.low (min m n)
  simp only [mapstart, List.length_cons, List.length_nil]
  omega

/-- The stack stays within a bound exactly if the peak of the jsonb does. -/
theorem stack_within_iff (h : Documented b keylt value) (hnum : ∀ n, (b.tonumber n).isnil = false)
    (next : Nat) {j : J} (hsteady : (value j).all (steady null.isnil)) (bound : Nat) :
    StackWithin lib b pg_numeric null next j bound ↔
      (root_count (value j) ≠ 0 → 2 + peak (value j) ≤ bound) := by
  rw [StackWithin, h.count, h.is_scalar, h.iterator]
  refine forall_congr' fun _ => ?_
  cases hs : root_is_scalar (value j) with
  | true =>
    cases hd : value j with
    | scalar s =>
      have hstart : (mapstart next : MapState N D).Is [.nil, .table next none []] []
          (next + 1) [] := ⟨rfl, rfl, rfl, rfl, rfl⟩
      obtain ⟨st₁, hcall, h₁⟩ := (pushvalue_in (b := b) (c := discarding pg_numeric null)
        hstart s).callmap unchanged
      have hthree : st₁.stack.length = 3 := by
        rw [h₁.stack]
        rfl
      have htwo : (mapstart next : MapState N D).stack.length = 2 := rfl
      have hbegin : maptoken lib b (discarding pg_numeric null) true (mapstart next)
          (event .beginArray) = .ok (mapstart next) := rfl
      have helem : maptoken lib b (discarding pg_numeric null) true (mapstart next)
          (event (.elem s)) = .ok st₁ := by
        simp only [event, maptoken, discarding, mapping_map] at hcall ⊢
        rw [hcall]
        rfl
      have hend : maptoken lib b (discarding pg_numeric null) true st₁ (event .endArray) =
          .ok st₁ := rfl
      simp only [iterated, List.map_cons, List.map_nil, peak]
      constructor
      · intro hall
        have := hall 2 st₁ (by
          simp only [List.take_succ_cons, List.take_zero, List.foldlM_cons, List.foldlM_nil, hbegin,
            helem, ok_bind]
          rfl)
        omega
      · intro hle n st hrun
        -- a scalar is listed as three tokens
        obtain rfl | rfl | rfl | ⟨n, rfl⟩ : n = 0 ∨ n = 1 ∨ n = 2 ∨ ∃ m, n = m + 3 := by
          by_cases hn : n < 3
          · omega
          · exact Or.inr (Or.inr (Or.inr ⟨n - 3, by omega⟩))
        · cases hrun
          omega
        · simp only [List.take_succ_cons, List.take_zero, List.foldlM_cons, hbegin, ok_bind] at hrun
          cases hrun
          omega
        · simp only [List.take_succ_cons, List.take_zero, List.foldlM_cons, hbegin, helem,
            ok_bind] at hrun
          cases hrun
          omega
        · simp only [List.take_succ_cons, List.take_nil, List.foldlM_cons, hbegin, helem, hend,
            ok_bind] at hrun
          cases hrun
          omega
    | array xs => simp [hd, root_is_scalar] at hs
    | object ms => simp [hd, root_is_scalar] at hs
  | false =>
    rw [iterated_container hs]
    obtain ⟨-, hclimb⟩ := climbs_doc (value j) .elem addsOne_elem
    obtain ⟨st', hrun, -⟩ := discard_toplevel lib pg_numeric hnum (h.counts j) hsteady hs next
    constructor
    · intro hall
      obtain ⟨n, hn⟩ := hclimb.reached
      obtain ⟨st₁, hrun₁⟩ := runtokens_take hrun n
      have hle := hall n st₁ (by rw [← List.map_take]; exact hrun₁)
      have hheight := height_of_take hrun₁
      omega
    · intro hle n st hrun'
      rw [← List.map_take] at hrun'
      have hheight := height_of_take hrun'
      have := hclimb.high n
      omega

/-- A map that discards its result, of a jsonb whose nodes are steady, calls the function for
the scalars as the map with its result does, and keeps the stack within a bound on the depth
exactly if the peak of the jsonb, what its members leave on the way, is within that bound. -/
theorem discard_meets_its_bound_iff_the_peak_does (h : Documented b keylt value)
    (hnum : ∀ n, (b.tonumber n).isnil = false) (next : Nat) {j : J}
    (hsteady : (value j).all (steady null.isnil)) (g : Nat → Nat) :
    SameCalls lib b pg_numeric null next j (value j) ∧
        StackWithin lib b pg_numeric null next j (g (depth (value j))) ↔
      (root_count (value j) ≠ 0 → 2 + peak (value j) ≤ g (depth (value j))) := by
  rw [stack_within_iff h hnum next hsteady]
  exact and_iff_right ⟨kept_calls h next j, discarded_calls h hnum next hsteady⟩

end

end

/-- The jsonb `{"a": {"b": 1}, "c": [2, 3]}`. -/
def steady_members : StoredJsonb :=
  ⟨.object [([97], .object [([98], .scalar (.numeric 1))]),
    ([99], .array [.scalar (.numeric 2), .scalar (.numeric 3)])], by decide⟩

theorem steady_members_within_the_bound :
    SameCalls insertionorder reference false .nil 0 steady_members steady_members.1 ∧
      StackWithin insertionorder reference false .nil 0 steady_members
        (5 * depth steady_members.1) :=
  (discard_meets_its_bound_iff_the_peak_does reference_documented (fun _ => rfl) 0 (by decide)
    fun n => 5 * n).mpr (by decide)

/-- The jsonb `[[1], 2]`. -/
def element_after : StoredJsonb :=
  ⟨.array [.array [.scalar (.numeric 1)], .scalar (.numeric 2)], by decide⟩

/-- An array of nulls. -/
def nulls (n : Nat) : Json Int := .array (List.replicate n (.scalar .null))

theorem nulls_all (p : Json Int → Bool) (n : Nat) (h : p (.scalar .null)) :
    (nulls n).all p ↔ p (nulls n) := by
  rw [nulls, all_array, and_iff_left_iff_imp]
  intro _ x hx
  rw [List.eq_of_mem_replicate hx]
  exact h

theorem nulls_stored {n : Nat} (h : n ≤ JB_CMASK) : Storable (nulls n) := by
  constructor
  · exact (nulls_all _ n rfl).mpr rfl
  · exact (nulls_all _ n rfl).mpr (by simp [nulls, counts_fit, h])

theorem peak_nulls (n : Nat) : peak (nulls n) = 1 + n := by
  rw [nulls, peak]
  congr 1
  induction n with
  | zero => rfl
  | succ n ih =>
    rw [List.replicate_succ, peakElems, ih, peak, left]
    omega

theorem depth_nulls (n : Nat) : depth (nulls n) = 1 := by
  rw [nulls, depth]
  have hzero : depthElems (List.replicate n (.scalar .null : Json Int)) = 0 := by
    induction n with
    | zero => rfl
    | succ n ih =>
      rw [List.replicate_succ, depthElems, ih, depth]
      rfl
  rw [hzero]

/-- With discard the 2 of `[[1], 2]` is passed with the key 0. And no function that at depth 1
allows less than the largest count of an array bounds the stack by the depth. -/
theorem discard_loses_the_index_and_the_bound :
    ¬ SameCalls insertionorder reference false .nil 0 element_after element_after.1 ∧
      ∀ g : Nat → Nat, g 1 ≤ JB_CMASK → ∃ j : StoredJsonb,
        ¬ StackWithin insertionorder reference false .nil 0 j (g (depth j.1)) := by
  constructor
  · rintro ⟨-, cs, hrun, hcs⟩
    have hcalls : discarded insertionorder reference false .nil 0 element_after =
        .ok (none, [⟨.integer 0, .integer 1, [.integer 0]⟩, ⟨.integer 0, .integer 2, []⟩]) := rfl
    rw [hcalls] at hrun
    cases hrun
    have hkeys := congrArg (List.map Call.key) hcs
    have hscalars : (scalarsOf (keptVisits reference false .nil 0 element_after.1)).map Call.key =
      [.integer 0, .integer 1] := rfl
    rw [hscalars] at hkeys
    simp [Call.unref] at hkeys
  · intro g hg
    have hone : 1 ≤ JB_CMASK := by decide
    refine ⟨⟨nulls (max 1 (g 1)), nulls_stored (by omega)⟩, ?_⟩
    rw [stack_within_iff reference_documented (fun _ => rfl) 0]
    · intro hle
      have hcount : root_count (nulls (max 1 (g 1))) = max 1 (g 1) := List.length_replicate
      have := hle (by rw [hcount]; omega)
      rw [peak_nulls, depth_nulls] at this
      omega
    · rw [nulls_all _ _ rfl, nulls, steady_array]
      refine ⟨fun x hx => ?_, fun x hx => ?_, fun _ x hx => ?_⟩
      · rw [List.eq_of_mem_replicate (List.dropLast_subset _ hx)]
        rfl
      · rw [List.eq_of_mem_replicate hx]
        exact Nat.one_ne_zero
      · rw [List.eq_of_mem_replicate hx]
        rfl

end pllua.jsonb
