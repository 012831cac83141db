-- Collections in pllua_jsonb_tosql: which of them become arrays, by the limits on
-- their integer keys, and the pairs that are pushed for those that become objects.
import Pllua.JsonbArrays

open pllua.documents pllua.luavalue pllua.luavalue.LuaValue

namespace pllua.jsonb

variable {N D J P : Type}

/-! ## The key loop, once it is through -/

/-- The keys of a collection, in the order of the key loop. -/
def allkeys (lib : LuaLib N D) (v : LuaValue N D) : List (LuaValue N D) :=
  (pairs_of v).getD (lib.lua_next v)

/-- The integers that the keys denote. A string with an integer value is taken as that
integer. -/
def intvals (lib : LuaLib N D) (keys : List (LuaValue N D)) : List Int :=
  keys.filterMap (lua_tointegerx lib)

section
variable {lib : LuaLib N D} {b : Backend N D J P}

/-- What one key adds to the locals. -/
theorem scankey_cases {known_array : Bool} {sc sc' : KeyScan N D} {key : LuaValue N D}
    (h : scankey lib b known_array sc key = .ok sc') :
    ∃ s, serialized_key b known_array key = .ok s ∧ sc'.keytab = sc.keytab ++ [s] ∧
      sc'.numkeys = sc.numkeys + 1 ∧
      ((lua_tointegerx lib key = none ∧ sc'.numintkeys = sc.numintkeys ∧
          sc'.min_intkey = sc.min_intkey ∧ sc'.max_intkey = sc.max_intkey) ∨
        ∃ i, lua_tointegerx lib key = some i ∧ sc'.numintkeys = sc.numintkeys + 1 ∧
          sc'.min_intkey = min i sc.min_intkey ∧ sc'.max_intkey = max i sc.max_intkey) := by
  cases hs : serialized_key b known_array key with
  | error e => simp [scankey, hs, bind, Except.bind] at h
  | ok s =>
    refine ⟨s, rfl, ?_⟩
    cases hint : lua_tointegerx lib key with
    | none =>
      simp only [scankey, hint, hs, ok_bind, Except.ok.injEq] at h
      subst h
      exact ⟨rfl, rfl, Or.inl ⟨rfl, rfl, rfl, rfl⟩⟩
    | some i =>
      simp only [scankey, hint, hs, ok_bind, Except.ok.injEq] at h
      subst h
      refine ⟨rfl, rfl, Or.inr ⟨i, rfl, rfl, ?_, ?_⟩⟩
      · simp only
        split <;> omega
      · simp only
        split <;> omega

/-- What the loop has found: the counts, and how the least and the largest key compare. -/
theorem scan_found {known_array : Bool} {ks : List (LuaValue N D)} {sc sc' : KeyScan N D}
    (h : ks.foldlM (scankey lib b known_array) sc = .ok sc') :
    sc'.numkeys = sc.numkeys + ks.length ∧
      sc'.numintkeys = sc.numintkeys + (intvals lib ks).length ∧
      (∀ t, sc'.min_intkey ≤ t ↔ sc.min_intkey ≤ t ∨ ∃ i ∈ intvals lib ks, i ≤ t) ∧
      ∀ t, sc'.max_intkey ≤ t ↔ sc.max_intkey ≤ t ∧ ∀ i ∈ intvals lib ks, i ≤ t := by
  induction ks generalizing sc with
  | nil =>
    cases h
    simp [intvals]
  | cons k ks ih =>
    rw [List.foldlM_cons] at h
    cases hk : scankey lib b known_array sc k with
    | error e =>
      rw [hk] at h
      cases h
    | ok sc₁ =>
      rw [hk, ok_bind] at h
      obtain ⟨h1, h2, h3, h4⟩ := ih h
      obtain ⟨_, -, -, hnum, ⟨hint, hn, hmin, hmax⟩ | ⟨i, hint, hn, hmin, hmax⟩⟩ := scankey_cases hk
      · have hvals : intvals lib (k :: ks) = intvals lib ks := by simp [intvals, hint]
        rw [hvals]
        refine ⟨?_, ?_, ?_, ?_⟩
        · simp only [h1, hnum, List.length_cons]
          omega
        · rw [h2, hn]
        · intro t
          rw [h3, hmin]
        · intro t
          rw [h4, hmax]
      · have hvals : intvals lib (k :: ks) = i :: intvals lib ks := by simp [intvals, hint]
        rw [hvals]
        refine ⟨?_, ?_, ?_, ?_⟩
        · simp only [h1, hnum, List.length_cons]
          omega
        · simp only [h2, hn, List.length_cons]
          omega
        · intro t
          rw [h3, hmin]
          simp only [List.mem_cons, exists_eq_or_imp]
          constructor
          · rintro (hle | hex)
            · rcases le_total i sc.min_intkey with hi | hi
              · exact Or.inr (Or.inl (by omega))
              · exact Or.inl (by omega)
            · exact Or.inr (Or.inr hex)
          · rintro (hle | hle | hex)
            · exact Or.inl (by omega)
            · exact Or.inl (by omega)
            · exact Or.inr hex
        · intro t
          rw [h4, hmax]
          simp only [List.mem_cons, forall_eq_or_imp]
          constructor
          · rintro ⟨hle, hall⟩
            exact ⟨by omega, by omega, hall⟩
          · rintro ⟨hle, hi, hall⟩
            exact ⟨by omega, hall⟩

/-- The stored keys are the keys, in their serialized form. -/
theorem scan_keytab {known_array : Bool} {ks : List (LuaValue N D)} {sc sc' : KeyScan N D}
    (h : ks.foldlM (scankey lib b known_array) sc = .ok sc') :
    ∃ ss, sc'.keytab = sc.keytab ++ ss ∧
      List.Forall₂ (fun k s => serialized_key b known_array k = .ok s) ks ss := by
  induction ks generalizing sc with
  | nil =>
    cases h
    exact ⟨[], by simp, .nil⟩
  | cons k ks ih =>
    rw [List.foldlM_cons] at h
    cases hk : scankey lib b known_array sc k with
    | error e =>
      rw [hk] at h
      cases h
    | ok sc₁ =>
      rw [hk, ok_bind] at h
      obtain ⟨ss, hss, hall⟩ := ih h
      obtain ⟨s, hs, htab, -⟩ := scankey_cases hk
      refine ⟨s :: ss, ?_, .cons hs hall⟩
      rw [hss, htab, List.append_assoc, List.singleton_append]

end

/-! ## Arrays and objects -/

/-- The rule of the documentation, for a collection that is not marked: it is empty and
`empty_object` is not set, or its keys are integers from 1 on, and neither the nulls before
the first key nor the size of the array are beyond their limits. -/
def ArrayByRule (lib : LuaLib N D) (keys : List (LuaValue N D)) (empty_object : Bool)
    (array_thresh array_frac : Int) : Prop :=
  if keys = [] then empty_object = false
  else
    (∀ k ∈ keys, ∃ i, lua_tointegerx lib k = some i ∧ 1 ≤ i) ∧
      (∃ i ∈ intvals lib keys, i - 1 ≤ array_thresh) ∧
      ∀ i ∈ intvals lib keys, i ≤ array_frac * keys.length

/-- The first key is at most the one number and the largest at most the other. -/
def Within (vals : List Int) (first largest : Int) : Prop :=
  (∃ i ∈ vals, i ≤ first) ∧ ∀ i ∈ vals, i ≤ largest

/-- A number as it is once C has put it into an int. -/
def wrapped (z : Int) : Int := (toint z).toInt

def FitsInt (z : Int) : Prop := -2 ^ 31 ≤ z ∧ z < 2 ^ 31

/-- Of the integers from 1 on that are the keys, the first has not exactly as many nulls
before it as the limit allows, in an array that is not too large. Where a limit does not fit
a C int, the limits that C computes part the keys as the limits of the rule do. -/
def LimitsHold (vals : List Int) (count : Nat) (array_thresh array_frac : Int) : Prop :=
  (FitsInt array_thresh ∧ FitsInt (array_frac * count) →
    ¬ (array_thresh + 1 ∈ vals ∧ (∀ i ∈ vals, array_thresh + 1 ≤ i) ∧
      ∀ i ∈ vals, i ≤ array_frac * count)) ∧
  (¬ (FitsInt array_thresh ∧ FitsInt (array_frac * count)) →
    (Within vals (wrapped array_thresh) (wrapped (array_frac * count)) ↔
      Within vals (array_thresh + 1) (array_frac * count)))

theorem wrapped_of_fits {z : Int} (h : FitsInt z) : wrapped z = z := by
  obtain ⟨hl, hu⟩ := h
  unfold wrapped toint
  rw [BitVec.toInt_ofInt]
  exact Int.bmod_eq_of_le (by omega) (by omega)

/-- The product of two ints is the int of the product. -/
theorem toint_mul (z : Int) (n : Nat) : toint z * toint n = toint (z * n) := by
  unfold toint
  exact (BitVec.ofInt_mul z n).symm

/-- How the limits of C and those of the rule agree. -/
theorem limitsHold_iff {vals : List Int} {count : Nat} {array_thresh array_frac : Int} :
    LimitsHold vals count array_thresh array_frac ↔
      (Within vals (wrapped array_thresh) (wrapped (array_frac * count)) ↔
        Within vals (array_thresh + 1) (array_frac * count)) := by
  by_cases hfit : FitsInt array_thresh ∧ FitsInt (array_frac * count)
  · rw [wrapped_of_fits hfit.1, wrapped_of_fits hfit.2]
    unfold LimitsHold Within
    simp only [hfit, not_true_eq_false, true_implies, false_implies, and_true]
    constructor
    · intro hno
      constructor
      · rintro ⟨⟨i, hi, hle⟩, hall⟩
        exact ⟨⟨i, hi, by omega⟩, hall⟩
      · rintro ⟨⟨i, hi, hle⟩, hall⟩
        refine ⟨?_, hall⟩
        by_contra hnone
        have hfirst : ∀ j ∈ vals, array_thresh + 1 ≤ j := by
          intro j hj
          by_contra hlt
          exact hnone ⟨j, hj, by omega⟩
        have heq : i = array_thresh + 1 := by
          have := hfirst i hi
          omega
        exact hno ⟨heq ▸ hi, hfirst, hall⟩
    · rintro hiff ⟨hmem, hfirst, hall⟩
      obtain ⟨⟨i, hi, hle⟩, -⟩ := hiff.mpr ⟨⟨_, hmem, le_refl _⟩, hall⟩
      have := hfirst i hi
      omega
  · unfold LimitsHold
    simp only [hfit, not_false_eq_true, true_implies, false_implies, true_and]

section
variable {lib : LuaLib N D} {b : Backend N D J P}

/-- An unmarked collection is an array by the test of the code. -/
theorem is_object_iff {keys : List (LuaValue N D)} {empty_object : Bool}
    {array_thresh array_frac : Int} {sc : KeyScan N D}
    (h : keys.foldlM (scankey lib b false) ⟨LUA_MAXINTEGER, 0, 0, 0, [], []⟩ = .ok sc) :
    is_object false false empty_object (toint array_thresh) (toint array_frac) sc = false ↔
      if keys = [] then empty_object = false
      else
        (∀ k ∈ keys, ∃ i, lua_tointegerx lib k = some i ∧ 1 ≤ i) ∧
          Within (intvals lib keys) (wrapped array_thresh) (wrapped (array_frac * keys.length)) := by
  obtain ⟨hcount, hints, hmin, hmax⟩ := scan_found h
  by_cases hempty : keys = []
  · subst hempty
    cases h
    simp [is_object, LUA_MAXINTEGER]
  · have hpos : 0 < keys.length := List.length_pos_of_ne_nil hempty
    have hcount' : sc.numkeys = keys.length := by simpa using hcount
    have hints' : sc.numintkeys = (intvals lib keys).length := by simpa using hints
    have hne : ¬ sc.numkeys = 0 := by omega
    -- all keys are integers exactly if the two counts are the same
    have hall : sc.numkeys = sc.numintkeys ↔ ∀ k ∈ keys, (lua_tointegerx lib k).isSome := by
      rw [hcount', hints']
      unfold intvals
      rw [Nat.cast_inj, List.length_filterMap_eq_countP, eq_comm, List.countP_eq_length]
    have hlow : sc.min_intkey < 1 ↔ ∃ i ∈ intvals lib keys, i < 1 := by
      have := hmin 0
      simp only [LUA_MAXINTEGER] at this
      constructor
      · intro hlt
        rcases this.mp (by omega) with hno | ⟨i, hi, hle⟩
        · omega
        · exact ⟨i, hi, by omega⟩
      · rintro ⟨i, hi, hlt⟩
        have := this.mpr (Or.inr ⟨i, hi, by omega⟩)
        omega
    have hwrap : wrapped array_thresh < 2 ^ 31 := by
      have := BitVec.toInt_lt (x := toint array_thresh)
      unfold wrapped
      omega
    have hfirst : sc.min_intkey ≤ wrapped array_thresh ↔
        ∃ i ∈ intvals lib keys, i ≤ wrapped array_thresh := by
      rw [hmin]
      simp only [LUA_MAXINTEGER, or_iff_right_iff_imp]
      intro hno
      omega
    have hprod : (toint array_frac * toint sc.numkeys).toInt = wrapped (array_frac * keys.length) := by
      rw [hcount', toint_mul]
      rfl
    rw [if_neg hempty]
    simp only [is_object, Bool.false_or, Bool.not_false, Bool.true_and, hprod, Bool.or_eq_false_iff,
      Bool.and_eq_false_iff, beq_eq_false_iff_ne, ne_eq, hne, not_false_eq_true, or_true, true_and,
      bne_eq_false_iff_eq, decide_eq_false_iff_not, not_lt, gt_iff_lt]
    constructor
    · rintro ⟨⟨⟨hsame, hge⟩, hthresh⟩, hfrac⟩
      have hn : ¬ sc.numintkeys ≤ 0 := by omega
      have hsome := hall.mp hsame
      have hone : ∀ i ∈ intvals lib keys, 1 ≤ i := by
        intro i hi
        by_contra hlt
        have := hlow.mpr ⟨i, hi, by omega⟩
        omega
      refine ⟨?_, hfirst.mp (hthresh.resolve_left hn), ((hmax _).mp (hfrac.resolve_left hn)).2⟩
      intro k hk
      obtain ⟨i, hi⟩ := Option.isSome_iff_exists.mp (hsome k hk)
      exact ⟨i, hi, hone i (List.mem_filterMap.mpr ⟨k, hk, hi⟩)⟩
    · rintro ⟨hkeys, hex, hle⟩
      have hone : ∀ i ∈ intvals lib keys, 1 ≤ i := by
        intro i hi
        obtain ⟨k, hk, hki⟩ := List.mem_filterMap.mp hi
        obtain ⟨j, hj, hpos⟩ := hkeys k hk
        rw [hki] at hj
        cases hj
        exact hpos
      refine ⟨⟨⟨?_, ?_⟩, Or.inr (hfirst.mpr hex)⟩, Or.inr ((hmax _).mpr ⟨?_, hle⟩)⟩
      · apply hall.mpr
        intro k hk
        obtain ⟨i, hi, -⟩ := hkeys k hk
        simp [hi]
      · by_contra hlt
        obtain ⟨i, hi, hi0⟩ := hlow.mp (by omega)
        have := hone i hi
        omega
      · obtain ⟨i, hi, -⟩ := hex
        have := hone i hi
        have := hle i hi
        show (0 : Int) ≤ _
        omega

/-- The settings of the config table, with their defaults. -/
def array_thresh_of (config : Option (TosqlConfig N D)) : Int :=
  (config.bind TosqlConfig.array_thresh).getD 1000

def array_frac_of (config : Option (TosqlConfig N D)) : Int :=
  (config.bind TosqlConfig.array_frac).getD 1000

theorem tosqlparams_limits (config : Option (TosqlConfig N D)) :
    (tosqlparams config).array_thresh = toint (array_thresh_of config) ∧
      (tosqlparams config).array_frac = toint (array_frac_of config) := by
  cases config with
  | none => exact ⟨rfl, rfl⟩
  | some c =>
    obtain ⟨_, _, thresh, frac, _⟩ := c
    cases thresh <;> cases frac <;> exact ⟨rfl, rfl⟩

/-- The collection goes on as an array of its integer keys, which are sorted. -/
def TakenAsArray (lib : LuaLib N D) (b : Backend N D J P) (c : TosqlParams N D)
    (v : LuaValue N D) : Prop :=
  pllua_jsonb_pushkeys lib b c.empty_object c.array_thresh c.array_frac v =
    table_sort lib (keysof lib v) >>= fun keys => .ok (.WJB_BEGIN_ARRAY, ⟨v, keys, some 0, 1⟩)

/-- Whether a collection becomes an array goes by the rule exactly if the limits on its keys
hold, where the rule asks for them. -/
theorem collections_go_by_the_rule_iff_the_limits_hold {v : LuaValue N D} {sc : KeyScan N D}
    (config : Option (TosqlConfig N D)) (hmark : v.metatable.bind Metatable.jsonb_object = none)
    (hsc : scankeys lib b false v = .ok sc) :
    (TakenAsArray lib b (tosqlparams config) v ↔
      ArrayByRule lib (allkeys lib v) (tosqlparams config).empty_object (array_thresh_of config)
        (array_frac_of config)) ↔
    (allkeys lib v ≠ [] → (∀ k ∈ allkeys lib v, ∃ i, lua_tointegerx lib k = some i ∧ 1 ≤ i) →
      LimitsHold (intvals lib (allkeys lib v)) (allkeys lib v).length (array_thresh_of config)
        (array_frac_of config)) := by
  obtain ⟨hthresh, hfrac⟩ := tosqlparams_limits config
  have hnum : sc.numkeytab = keysof lib v := by simpa [keysof] using scankeys_numkeytab hsc
  have hpush := pushkeys_ok hmark hsc (tosqlparams config).empty_object
    (tosqlparams config).array_thresh (tosqlparams config).array_frac
  have htaken : TakenAsArray lib b (tosqlparams config) v ↔
      is_object false false (tosqlparams config).empty_object (toint (array_thresh_of config))
        (toint (array_frac_of config)) sc = false := by
    unfold TakenAsArray
    rw [hpush, hthresh, hfrac, hnum]
    cases hobj : is_object (none == some true) (none == some false) (tosqlparams config).empty_object
        (toint (array_thresh_of config)) (toint (array_frac_of config)) sc with
    | false => exact iff_of_true rfl hobj
    | true =>
      refine iff_of_false ?_ fun h => Bool.false_ne_true (h.symm.trans hobj)
      rw [if_pos rfl]
      cases table_sort lib (keysof lib v) with
      | error e =>
        intro heq
        cases heq
      | ok keys =>
        intro heq
        cases heq
  rw [htaken, is_object_iff hsc]
  unfold ArrayByRule
  by_cases hempty : allkeys lib v = []
  · have hkeys : (pairs_of v).getD (lib.lua_next v) = [] := hempty
    simp [hempty, hkeys]
  · have hkeys : (pairs_of v).getD (lib.lua_next v) = allkeys lib v := rfl
    rw [hkeys, if_neg hempty, if_neg hempty, limitsHold_iff]
    have hrule : (∃ i ∈ intvals lib (allkeys lib v), i - 1 ≤ array_thresh_of config) ↔
        ∃ i ∈ intvals lib (allkeys lib v), i ≤ array_thresh_of config + 1 := by
      constructor
      · rintro ⟨i, hi, hle⟩
        exact ⟨i, hi, by omega⟩
      · rintro ⟨i, hi, hle⟩
        exact ⟨i, hi, by omega⟩
    rw [hrule]
    rw [and_congr_right_iff]
    simp only [ne_eq, hempty, not_false_eq_true, true_implies]
    exact Iff.rfl

/-- Two keys from 1 on, with the defaults. -/
theorem two_keys_go_by_the_rule :
    (TakenAsArray decimals reference (tosqlparams none) (keyed none [.integer 1, .integer 2]) ↔
      ArrayByRule decimals (allkeys decimals (keyed none [.integer 1, .integer 2])) false 1000
        1000) := by
  have hsc : scankeys decimals reference false (keyed none [.integer 1, .integer 2]) =
    .ok ⟨1, 2, 2, 2, [.integer 1, .integer 2], [.integer 1, .integer 2]⟩ := rfl
  refine (collections_go_by_the_rule_iff_the_limits_hold none rfl hsc).mpr ?_
  intro _ _
  refine ⟨fun _ hbad => ?_, fun hno => absurd ?_ hno⟩
  · obtain ⟨hmem, -⟩ := hbad
    exact absurd hmem (by decide)
  · exact ⟨⟨by decide, by decide⟩, by decide, by decide⟩

/-- The table `{[3] = true}` with room for two nulls, and `{true, true}` with a limit on the
size that does not go into a C int when it is doubled. -/
theorem the_limits_are_missed :
    ¬ (TakenAsArray decimals reference (tosqlparams (some ⟨none, false, some 2, none, .nil⟩))
        (keyed none [.integer 3]) ↔
      ArrayByRule decimals (allkeys decimals (keyed none [.integer 3])) false 2 1000) ∧
    ¬ (TakenAsArray decimals reference
        (tosqlparams (some ⟨none, false, none, some (2 ^ 31 - 1), .nil⟩))
        (keyed none [.integer 1, .integer 2]) ↔
      ArrayByRule decimals (allkeys decimals (keyed none [.integer 1, .integer 2])) false 1000
        (2 ^ 31 - 1)) := by
  constructor
  · intro h
    have hrule : ArrayByRule decimals (allkeys decimals (keyed none [.integer 3])) false 2 1000 := by
      have hkeys : allkeys decimals (keyed none [.integer 3]) = [.integer 3] := rfl
      rw [hkeys]
      simp [ArrayByRule, intvals, lua_tointegerx]
    have htaken := h.mpr hrule
    unfold TakenAsArray at htaken
    cases htaken
  · intro h
    have hrule : ArrayByRule decimals (allkeys decimals (keyed none [.integer 1, .integer 2])) false
        1000 (2 ^ 31 - 1) := by
      have hkeys : allkeys decimals (keyed none [.integer 1, .integer 2]) =
        [.integer 1, .integer 2] := rfl
      rw [hkeys]
      simp [ArrayByRule, intvals, lua_tointegerx]
    have htaken := h.mpr hrule
    unfold TakenAsArray at htaken
    cases htaken

end

/-! ## The pairs of an object -/

/-- The keys whose string form is what `__tostring` says. -/
def named_by_tostring : LuaValue N D → Bool
  | .table .. | .userdata .. | .numeric .. | .datum .. => true
  | _ => false

/-- The string form of a key. -/
def string_form (lib : LuaLib N D) (b : Backend N D J P) (key : LuaValue N D) : Bytes :=
  if named_by_tostring key then (tostring_of b key).join.getD [] else (lua_tolstring lib key).getD []

/-- The pairs that the collection stands for: each key's string form, with what is made of the
value under the key. -/
def pairs_by_key (lib : LuaLib N D) (b : Backend N D J P) {E : Type}
    (conv : LuaValue N D → E) (v : LuaValue N D) : List (Bytes × E) :=
  (allkeys lib v).map fun k => (string_form lib b k, conv (v.gettable k))

/-- The pairs that the loop takes from the table of the keys. -/
def pairs_of_frame (lib : LuaLib N D) {E : Type} (conv : LuaValue N D → E) (f : Frame N D) :
    List (Bytes × E) :=
  f.keylist.map fun s => ((lua_tolstring lib s).getD [], conv (f.container.gettable s))

/-- The events of a pair. -/
def pair_events (pair : Bytes × List (Event N J)) : List (Event N J) :=
  (.WJB_KEY, some (.jbvString pair.1)) :: pair.2

section
variable {lib : LuaLib N D} {b : Backend N D J P} {c : TosqlParams N D}

/-- The events that convert the value of a member: a scalar, or a collection with all that
is in it. -/
inductive ConvertsMember (lib : LuaLib N D) (b : Backend N D J P) (c : TosqlParams N D)
    (v : LuaValue N D) : List (Event N J) → Prop
  | scalar (pval : JsonbValue N J) (h : pllua_jsonb_toscalar b (mapped c v) = .ok (some pval)) :
    ConvertsMember lib b c v [(.WJB_VALUE, some pval)]
  | collection (tok : JsonbIteratorToken) (g : Frame N D) (es : List (Event N J))
    (h : pllua_jsonb_toscalar b (mapped c v) = .ok none)
    (hg : pllua_jsonb_pushkeys lib b c.empty_object c.array_thresh c.array_frac (mapped c v) =
      .ok (tok, g))
    (hes : ∀ fs, Emits lib b c (g :: fs) es fs) : ConvertsMember lib b c v ((tok, none) :: es)

theorem keyed_name {f : Frame N D} {key : LuaValue N D} (hf : f.prevkey = none)
    (hv : b.pg_verifymbstr ((lua_tolstring lib key).getD [])) :
    Keyed lib b f key [(.WJB_KEY, some (.jbvString ((lua_tolstring lib key).getD [])))]
      .WJB_VALUE f := by
  intro p p' hp
  have hpush := foldlM_singleton_ok hp
  simp [pushkey, hf, hv, hpush]

/-- All turns of an object: a pair for each stored key, and the end. -/
theorem emits_pairs {conv : LuaValue N D → List (Event N J)} (fs : List (Frame N D))
    (keys : List (LuaValue N D)) {f : Frame N D} (hkeys : f.keylist.drop (f.index - 1) = keys)
    (hidx : 1 ≤ f.index) (hf : f.prevkey = none)
    (hc : ∀ s ∈ f.keylist, b.pg_verifymbstr ((lua_tolstring lib s).getD []) ∧
      ConvertsMember lib b c (f.container.gettable s) (conv (f.container.gettable s))) :
    Emits lib b c (f :: fs)
      ((keys.map fun s => ((lua_tolstring lib s).getD [], conv (f.container.gettable s))).flatMap
        pair_events ++ [(.WJB_END_OBJECT, none)]) fs := by
  induction keys generalizing f with
  | nil =>
    have hend : f.keylist[f.index - 1]? = none := by
      rw [List.getElem?_eq_none_iff]
      exact List.drop_eq_nil_iff.mp hkeys
    have he : Emits lib b c (f :: fs) _ fs := emits_end fs hend
    simpa [hf] using he
  | cons s keys ih =>
    have hk : f.keylist[f.index - 1]? = some s := by
      have h0 := congrArg (·[0]?) hkeys
      simpa using h0
    obtain ⟨hverify, hconv⟩ := hc s (List.mem_of_getElem? hk)
    have hkey : Keyed lib b { f with index := f.index + 1 } s _ .WJB_VALUE _ :=
      @keyed_name N D J P lib b { f with index := f.index + 1 } s hf hverify
    have htail : f.keylist.drop (f.index + 1 - 1) = keys := by
      have h1 : f.index + 1 - 1 = f.index - 1 + 1 := by omega
      rw [h1, ← List.drop_drop, hkeys]
      rfl
    have hrest := @ih { f with index := f.index + 1 } htail (Nat.le_add_left 1 _) hf hc
    have hpair : Emits lib b c (f :: fs)
        (pair_events ((lua_tolstring lib s).getD [], conv (f.container.gettable s)))
        ({ f with index := f.index + 1 } :: fs) := by
      generalize conv (f.container.gettable s) = es at hconv ⊢
      cases hconv with
      | scalar pval h => exact emits_scalar fs hk hkey h
      | collection tok g es h hg hes =>
        have hopen := emits_collection fs hk hkey h hg
        simpa [pair_events] using emits_trans hopen (hes _)
    simpa using emits_trans hpair hrest

/-- A collection that is begun as an object. -/
theorem pushkeys_object_frame {empty_object : Bool} {array_thresh array_frac : BitVec 32}
    {v : LuaValue N D} {f : Frame N D}
    (h : pllua_jsonb_pushkeys lib b empty_object array_thresh array_frac v =
      .ok (.WJB_BEGIN_OBJECT, f)) :
    f = ⟨v, f.keylist, none, 1⟩ ∧
      List.Forall₂ (fun k s => serialized_key b false k = .ok s) (allkeys lib v) f.keylist := by
  unfold pllua_jsonb_pushkeys at h
  simp only at h
  cases hsc : scankeys lib b (v.metatable.bind Metatable.jsonb_object == some false) v with
  | error e =>
    rw [hsc] at h
    cases h
  | ok sc =>
    rw [hsc, ok_bind] at h
    split at h
    · rename_i hobj
      cases h
      obtain ⟨ss, hss, hall⟩ := scan_keytab hsc
      have harray : (v.metatable.bind Metatable.jsonb_object == some false) = false := by
        by_contra hmark
        have hmark' : v.metatable.bind Metatable.jsonb_object = some false := by simpa using hmark
        simp [is_object, hmark'] at hobj
      rw [harray] at hall
      refine ⟨rfl, ?_⟩
      simp only [hss, List.nil_append]
      exact hall
    · cases hsort : table_sort lib sc.numkeytab with
      | error e =>
        rw [hsort] at h
        cases h
      | ok keys =>
        rw [hsort] at h
        cases h

/-- A key named by its `__tostring` is stored as that string. -/
theorem serialized_key_tostring {k s : LuaValue N D} (hnamed : named_by_tostring k = true)
    (h : serialized_key b false k = .ok s) :
    ∃ str, tostring_of b k = some (some str) ∧ s = .string str := by
  cases k with
  | table _ _ _ | userdata _ _ _ | numeric _ _ | datum _ _ =>
    simp only [serialized_key, Bool.false_eq_true, if_false] at h
    split at h
    · cases h
    · cases h
    · rename_i str hstr
      cases h
      exact ⟨str, hstr, rfl⟩
  | _ => cases hnamed

/-- A stored key names the pair as the key does. It is the key, unless that is named by its
`__tostring`. -/
theorem serialized_key_cases {k s : LuaValue N D} (h : serialized_key b false k = .ok s) :
    (lua_tolstring lib s).getD [] = string_form lib b k ∧
      (named_by_tostring k = false ∧ s = k ∨
        named_by_tostring k = true ∧ s = .string (string_form lib b k)) := by
  have htostring (hnamed : named_by_tostring k = true) :
      (lua_tolstring lib s).getD [] = string_form lib b k ∧ s = .string (string_form lib b k) := by
    obtain ⟨str, hstr, rfl⟩ := serialized_key_tostring hnamed h
    rw [string_form, if_pos hnamed, hstr]
    exact ⟨rfl, rfl⟩
  cases k with
  | string _ | integer _ | float _ =>
    cases h
    exact ⟨rfl, Or.inl ⟨rfl, rfl⟩⟩
  | table _ _ _ | userdata _ _ _ | numeric _ _ | datum _ _ =>
    obtain ⟨hname, hs⟩ := htostring rfl
    exact ⟨hname, Or.inr ⟨rfl, hs⟩⟩
  | nil | boolean _ | other _ _ => cases h

/-- The pairs are those of the keys, each by its string form, exactly if a key that is named
by its `__tostring` has nothing else under it than that string has. -/
theorem an_object_is_pushed_right_iff_no_string_hides_a_key {E : Type}
    {empty_object : Bool} {array_thresh array_frac : BitVec 32} {v : LuaValue N D} {f : Frame N D}
    (h : pllua_jsonb_pushkeys lib b empty_object array_thresh array_frac v =
      .ok (.WJB_BEGIN_OBJECT, f)) (conv : LuaValue N D → E) :
    (∀ (c : TosqlParams N D) conv fs,
      (∀ s ∈ f.keylist, b.pg_verifymbstr ((lua_tolstring lib s).getD []) ∧
        ConvertsMember lib b c (v.gettable s) (conv (v.gettable s))) →
        Emits lib b c (f :: fs)
          ((pairs_of_frame lib conv f).flatMap pair_events ++ [(.WJB_END_OBJECT, none)]) fs) ∧
    (pairs_of_frame lib conv f = pairs_by_key lib b conv v ↔
      ∀ k ∈ allkeys lib v, named_by_tostring k = true →
        conv (v.gettable (.string (string_form lib b k))) = conv (v.gettable k)) := by
  obtain ⟨hf, hkeys⟩ := pushkeys_object_frame h
  have hv : f.container = v := by rw [hf]
  constructor
  · intro c conv fs hconv
    have hprev : f.prevkey = none := by rw [hf]
    have hidx : f.index = 1 := by rw [hf]
    unfold pairs_of_frame
    apply emits_pairs fs f.keylist (by rw [hidx]; rfl) (by omega) hprev
    rw [hv]
    exact hconv
  · unfold pairs_of_frame pairs_by_key
    rw [hv]
    generalize allkeys lib v = keys at hkeys
    generalize f.keylist = ss at hkeys
    induction hkeys with
    | nil => simp
    | @cons k s keys ss hs _ ih =>
      obtain ⟨hname, hcase⟩ := @serialized_key_cases N D J P lib b k s hs
      rw [List.map_cons, List.map_cons, List.cons.injEq, ih, List.forall_mem_cons, hname,
        Prod.mk.injEq]
      refine and_congr_left fun _ => ?_
      rcases hcase with ⟨hn, rfl⟩ | ⟨hn, rfl⟩
      · simp [hn]
      · simp [hn]

end

/-- What a value that is a scalar becomes. -/
def scalar_of (u : LuaValue Int StoredJsonb) : Option (JsonbValue Int StoredJsonb) :=
  match pllua_jsonb_toscalar reference u with
  | .ok pval => pval
  | .error _ => none

/-- A key that is an object with `__tostring`, and a table that holds `true` under it. -/
def named_key : LuaValue Int StoredJsonb :=
  .userdata 7 (some ⟨none, none, some (some [97])⟩) []

/-- The object and the string that it is named by have the same value. -/
theorem a_key_beside_its_string_is_pushed_right :
    ∃ f, pllua_jsonb_pushkeys decimals reference false 1000 1000
        (keyed none [named_key, .string [97]]) = .ok (.WJB_BEGIN_OBJECT, f) ∧
      pairs_of_frame decimals scalar_of f =
        pairs_by_key decimals reference scalar_of (keyed none [named_key, .string [97]]) := by
  have h : pllua_jsonb_pushkeys decimals reference false 1000 1000
      (keyed none [named_key, .string [97]]) = .ok (.WJB_BEGIN_OBJECT,
        ⟨keyed none [named_key, .string [97]], [.string [97], .string [97]], none, 1⟩) := rfl
  refine ⟨_, h, ?_⟩
  refine (an_object_is_pushed_right_iff_no_string_hides_a_key h scalar_of).2.mpr ?_
  intro k hk hn
  have hk : k ∈ [named_key, .string [97]] := hk
  obtain rfl | rfl : k = named_key ∨ k = .string [97] := by simpa using hk
  · rfl
  · cases hn

/-- The value under the object is lost: the pair has a null. -/
theorem the_value_under_an_object_is_lost :
    ∃ f, pllua_jsonb_pushkeys decimals reference false 1000 1000 (keyed none [named_key]) =
        .ok (.WJB_BEGIN_OBJECT, f) ∧
      pairs_of_frame decimals scalar_of f = [([97], some .jbvNull)] ∧
      pairs_of_frame decimals scalar_of f ≠
        pairs_by_key decimals reference scalar_of (keyed none [named_key]) := by
  refine ⟨⟨keyed none [named_key], [.string [97]], none, 1⟩, rfl, rfl, ?_⟩
  intro h
  have hpairs : [([97], some .jbvNull)] = pairs_by_key decimals reference scalar_of
    (keyed none [named_key]) := h
  have hwanted : pairs_by_key decimals reference scalar_of (keyed none [named_key]) =
    [([97], some (.jbvBool true))] := rfl
  rw [hwanted] at hpairs
  cases hpairs

end pllua.jsonb
