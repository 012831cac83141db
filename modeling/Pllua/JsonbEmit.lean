-- The loop of pllua_jsonb_tosql: what each turn pushes, and the rule that puts
-- turns together. The keys of a collection come from the key loop in the order
-- of lua_next, or sorted where the collection is an array.
import Pllua.JsonbToSql

open pllua.documents pllua.luavalue pllua.luavalue.LuaValue

namespace pllua.jsonb

variable {N D J P : Type}

/-! ## Runs of the loop -/

section
variable (lib : LuaLib N D) (b : Backend N D J P) (c : TosqlParams N D)

/-- A token and its value, as `pushJsonbValue` takes them. -/
abbrev Event (N J : Type) := JsonbIteratorToken × Option (JsonbValue N J)

/-- From the first open collections the loop comes to the second, and pushes the
events on the way, where `pushJsonbValue` takes them. -/
def Emits (fs : List (Frame N D)) (es : List (Event N J)) (fs' : List (Frame N D)) : Prop :=
  ∀ p p', es.foldlM b.pushJsonbValue p = .ok p' →
    ∃ turns, ∀ m, tosqlloop lib b c (turns + m) ⟨fs, p⟩ = tosqlloop lib b c m ⟨fs', p'⟩

variable {lib b c}

theorem foldlM_append_ok {σ α ε : Type} {f : σ → α → Except ε σ} {s s' : σ} {xs ys : List α}
    (h : (xs ++ ys).foldlM f s = .ok s') :
    ∃ t, xs.foldlM f s = .ok t ∧ ys.foldlM f t = .ok s' := by
  rw [List.foldlM_append] at h
  cases hx : xs.foldlM f s with
  | error e =>
    rw [hx] at h
    cases h
  | ok t =>
    rw [hx] at h
    exact ⟨t, rfl, h⟩

theorem emits_trans {fs fs' fs'' : List (Frame N D)} {es es' : List (Event N J)}
    (h : Emits lib b c fs es fs') (h' : Emits lib b c fs' es' fs'') :
    Emits lib b c fs (es ++ es') fs'' := by
  intro p p'' hp
  obtain ⟨p', hes, hes'⟩ := foldlM_append_ok hp
  obtain ⟨n, hn⟩ := h p p' hes
  obtain ⟨n', hn'⟩ := h' p' p'' hes'
  refine ⟨n + n', fun m => ?_⟩
  rw [Nat.add_assoc, hn, hn']

/-- One turn, while a collection is open. -/
theorem emits_turn {f : Frame N D} {fs fs' : List (Frame N D)} {es : List (Event N J)}
    (h : ∀ p p', es.foldlM b.pushJsonbValue p = .ok p' →
      tosqlstep lib b c ⟨f :: fs, p⟩ = .ok ⟨fs', p'⟩) : Emits lib b c (f :: fs) es fs' := by
  intro p p' hp
  refine ⟨1, fun m => ?_⟩
  rw [Nat.add_comm, tosqlloop, h p p' hp]
  rfl

theorem foldlM_singleton_ok {σ α ε : Type} {f : σ → α → Except ε σ} {s s' : σ} {x : α}
    (h : [x].foldlM f s = .ok s') : f s x = .ok s' := by
  rw [List.foldlM_cons] at h
  cases hx : f s x with
  | error e =>
    rw [hx] at h
    cases h
  | ok t =>
    rw [hx] at h
    exact h

/-- The turn that ends a collection. -/
theorem emits_end {f : Frame N D} (fs : List (Frame N D))
    (h : f.keylist[f.index - 1]? = none) :
    Emits lib b c (f :: fs)
      [(if f.prevkey.isNone then .WJB_END_OBJECT else .WJB_END_ARRAY, none)] fs := by
  apply emits_turn
  intro p p' hp
  have hpush := foldlM_singleton_ok hp
  simp only [tosqlstep, h, hpush, ok_bind]

/-- A loop that ends well with a collection open takes a turn that goes well. -/
theorem tosqlloop_turn {turns : Nat} {f : Frame N D} {fs : List (Frame N D)} {p q : P}
    (h : tosqlloop lib b c turns ⟨f :: fs, p⟩ = some (.ok q)) :
    ∃ turns' st, tosqlstep lib b c ⟨f :: fs, p⟩ = .ok st ∧
      tosqlloop lib b c turns' st = some (.ok q) := by
  cases turns with
  | zero => cases h
  | succ turns =>
    rw [tosqlloop] at h
    simp only [List.isEmpty_cons, Bool.false_eq_true, if_false] at h
    cases hstep : tosqlstep lib b c ⟨f :: fs, p⟩ with
    | error e =>
      rw [hstep] at h
      cases h
    | ok st =>
      rw [hstep] at h
      exact ⟨turns, st, rfl, h⟩

theorem tosqlloop_done {turns : Nat} {p q : P}
    (h : tosqlloop lib b c turns ⟨[], p⟩ = some (.ok q)) : p = q := by
  cases turns with
  | zero => cases h
  | succ turns =>
    cases h
    rfl

/-- What the key of a member pushes, the token for its value, and its frame. -/
def Keyed (lib : LuaLib N D) (b : Backend N D J P) (f : Frame N D) (key : LuaValue N D)
    (es : List (Event N J)) (tok : JsonbIteratorToken) (f' : Frame N D) : Prop :=
  ∀ p p', es.foldlM b.pushJsonbValue p = .ok p' → pushkey lib b f key p = .ok (tok, f', p')

/-- The turn for a member that is a scalar. -/
theorem emits_scalar {f f' : Frame N D} (fs : List (Frame N D)) {key : LuaValue N D}
    {es : List (Event N J)} {tok : JsonbIteratorToken} {pval : JsonbValue N J}
    (hk : f.keylist[f.index - 1]? = some key)
    (hkey : Keyed lib b { f with index := f.index + 1 } key es tok f')
    (hv : pllua_jsonb_toscalar b (mapped c (f.container.gettable key)) = .ok (some pval)) :
    Emits lib b c (f :: fs) (es ++ [(tok, some pval)]) (f' :: fs) := by
  apply emits_turn
  intro p p' hp
  obtain ⟨q, hes, hpush⟩ := foldlM_append_ok hp
  have hpush := foldlM_singleton_ok hpush
  simp [tosqlstep, hk, hkey p q hes, hv, hpush]

/-- The turn for a member that is a collection. -/
theorem emits_collection {f f' g : Frame N D} (fs : List (Frame N D)) {key : LuaValue N D}
    {es : List (Event N J)} {tok tok' : JsonbIteratorToken}
    (hk : f.keylist[f.index - 1]? = some key)
    (hkey : Keyed lib b { f with index := f.index + 1 } key es tok f')
    (hv : pllua_jsonb_toscalar b (mapped c (f.container.gettable key)) = .ok none)
    (hg : pllua_jsonb_pushkeys lib b c.empty_object c.array_thresh c.array_frac
      (mapped c (f.container.gettable key)) = .ok (tok', g)) :
    Emits lib b c (f :: fs) (es ++ [(tok', none)]) (g :: f' :: fs) := by
  apply emits_turn
  intro p p' hp
  obtain ⟨q, hes, hpush⟩ := foldlM_append_ok hp
  have hpush := foldlM_singleton_ok hpush
  simp [tosqlstep, hk, hkey p q hes, hv, hg, hpush]

/-- The key of a member of an object is a string that is valid in the encoding. -/
theorem keyed_string {f : Frame N D} {k : Bytes} (hf : f.prevkey = none)
    (hv : b.pg_verifymbstr k) :
    Keyed lib b f (.string k) [(.WJB_KEY, some (.jbvString k))] .WJB_VALUE f := by
  intro p p' hp
  have hpush := foldlM_singleton_ok hp
  simp [pushkey, hf, lua_tolstring, hv, hpush]

/-- The key of an element that comes right after the last one pushes nothing. -/
theorem keyed_next {f : Frame N D} {key : LuaValue N D} {prevkey : BitVec 32}
    (hf : f.prevkey = some prevkey) (hk : prevkey + 1 = toint (lua_tointeger lib key)) :
    Keyed lib b f key [] .WJB_ELEM { f with prevkey := some (toint (lua_tointeger lib key)) } := by
  intro p p' hp
  cases hp
  rw [pushkey, hf]
  simp only
  rw [pushholes, if_pos hk]
  rfl

end

/-! ## The key loop -/

section
variable {lib : LuaLib N D} {b : Backend N D J P} {known_array : Bool}

/-- A key that converts to an integer. -/
def intkey (lib : LuaLib N D) (key : LuaValue N D) : Bool := (lua_tointegerx lib key).isSome

variable (lib) in
/-- The key loop, on keys that all serialize. -/
theorem scankeys_ok {g : LuaValue N D → LuaValue N D} {ks : List (LuaValue N D)}
    (h : ∀ k ∈ ks, serialized_key b known_array k = .ok (g k)) (sc : KeyScan N D) :
    ∃ sc', ks.foldlM (scankey lib b known_array) sc = .ok sc' ∧
      sc'.keytab = sc.keytab ++ ks.map g ∧
      sc'.numkeytab = sc.numkeytab ++ ks.filter (intkey lib) := by
  induction ks generalizing sc with
  | nil => exact ⟨sc, rfl, by simp, by simp⟩
  | cons k ks ih =>
    have hk := h k List.mem_cons_self
    have hks := fun k' hk' => h k' (List.mem_cons_of_mem k hk')
    cases hint : lua_tointegerx lib k with
    | none =>
      obtain ⟨sc', hrun, hkeys, hnum⟩ := ih hks
        { sc with numkeys := sc.numkeys + 1, keytab := sc.keytab ++ [g k] }
      refine ⟨sc', ?_, ?_, ?_⟩
      · simpa [scankey, hint, hk] using hrun
      · simp [hkeys]
      · simp [hnum, intkey, hint]
    | some intval =>
      obtain ⟨sc', hrun, hkeys, hnum⟩ := ih hks
        { sc with
          numkeys := sc.numkeys + 1
          max_intkey := if intval > sc.max_intkey then intval else sc.max_intkey
          min_intkey := if intval < sc.min_intkey then intval else sc.min_intkey
          numintkeys := sc.numintkeys + 1
          keytab := sc.keytab ++ [g k]
          numkeytab := sc.numkeytab ++ [k] }
      refine ⟨sc', ?_, ?_, ?_⟩
      · simpa [scankey, hint, hk] using hrun
      · simp [hkeys]
      · simp [hnum, intkey, hint]

/-- The collection, by its mark and what the key loop found. -/
theorem pushkeys_ok {v : LuaValue N D} {mark : Option Bool}
    (hmark : v.metatable.bind Metatable.jsonb_object = mark) {sc : KeyScan N D}
    (hsc : scankeys lib b (mark == some false) v = .ok sc) (empty_object : Bool)
    (array_thresh array_frac : BitVec 32) :
    pllua_jsonb_pushkeys lib b empty_object array_thresh array_frac v =
      if is_object (mark == some true) (mark == some false) empty_object array_thresh array_frac
        sc then .ok (.WJB_BEGIN_OBJECT, ⟨v, sc.keytab, none, 1⟩)
      else
        table_sort lib sc.numkeytab >>= fun keys =>
          .ok (.WJB_BEGIN_ARRAY, ⟨v, keys, some 0, 1⟩) := by
  subst hmark
  rw [pllua_jsonb_pushkeys, hsc, ok_bind]

end

end pllua.jsonb
