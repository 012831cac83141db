-- Arrays in pllua_jsonb_tosql: the integer keys of the collection come sorted,
-- and the loop counts up to each of them, with a null for each key it passes.
import Pllua.JsonbReference
import Mathlib.Data.List.Pairwise
import Mathlib.Algebra.Group.Nat.Defs

open pllua.documents pllua.luavalue pllua.luavalue.LuaValue

namespace pllua.jsonb

variable {N D J P : Type}

/-! ## What the loop emits -/

/-- The elements of an array: a key whose value stands there, or none for a null. The
counter is a C int. -/
def slots (lib : LuaLib N D) (prevkey : BitVec 32) :
    List (LuaValue N D) → List (Option (LuaValue N D))
  | [] => []
  | key :: keys =>
    List.replicate (toint (lua_tointeger lib key) - (prevkey + 1)).toNat none ++
      some key :: slots lib (toint (lua_tointeger lib key)) keys

/-- The events of an element. -/
def element (conv : LuaValue N D → List (Event N J)) : Option (LuaValue N D) → List (Event N J)
  | none => [(.WJB_ELEM, some .jbvNull)]
  | some key => conv key

section
variable (lib : LuaLib N D) (b : Backend N D J P) (c : TosqlParams N D)

/-- The events that convert an element: a scalar, or a collection with all that is in it. -/
inductive Converts (v : LuaValue N D) : List (Event N J) → Prop
  | scalar (pval : JsonbValue N J) (h : pllua_jsonb_toscalar b (mapped c v) = .ok (some pval)) :
    Converts v [(.WJB_ELEM, some pval)]
  | collection (tok : JsonbIteratorToken) (g : Frame N D) (es : List (Event N J))
    (h : pllua_jsonb_toscalar b (mapped c v) = .ok none)
    (hg : pllua_jsonb_pushkeys lib b c.empty_object c.array_thresh c.array_frac (mapped c v) =
      .ok (tok, g))
    (hes : ∀ fs, Emits lib b c (g :: fs) es fs) : Converts v ((tok, none) :: es)

variable {lib b c}

/-- The hole-filling loop, where its nulls are accepted. -/
theorem pushholes_ok {key : BitVec 32} {n : Nat} {prevkey : BitVec 32}
    (hn : (key - (prevkey + 1)).toNat = n) {p p' : P}
    (hp : (List.replicate n (JsonbIteratorToken.WJB_ELEM,
      (some .jbvNull : Option (JsonbValue N J)))).foldlM b.pushJsonbValue p = .ok p') :
    pushholes b key prevkey p = .ok p' := by
  induction n generalizing prevkey p with
  | zero =>
    have hkey : prevkey + 1 = key := by bv_omega
    cases hp
    rw [pushholes, if_pos hkey]
  | succ n ih =>
    have hkey : prevkey + 1 ≠ key := by
      intro h
      rw [h, BitVec.sub_self] at hn
      simp at hn
    have hnext : (key - (prevkey + 1 + 1)).toNat = n := by bv_omega
    rw [List.replicate_succ, List.foldlM_cons] at hp
    cases hpush : b.pushJsonbValue p (.WJB_ELEM, some .jbvNull) with
    | error e => simp [hpush, bind, Except.bind] at hp
    | ok q =>
      rw [hpush, ok_bind] at hp
      rw [pushholes, if_neg hkey, hpush, ok_bind, ih hnext hp]

theorem keyed_element {f : Frame N D} {key : LuaValue N D} {prevkey : BitVec 32}
    (hf : f.prevkey = some prevkey) :
    Keyed lib b f key
      (List.replicate (toint (lua_tointeger lib key) - (prevkey + 1)).toNat
        (.WJB_ELEM, some .jbvNull)) .WJB_ELEM
      { f with prevkey := some (toint (lua_tointeger lib key)) } := by
  intro p p' hp
  have hholes := pushholes_ok rfl hp
  simp [pushkey, hf, hholes]

/-- The turns for one key: the nulls before it, and its value. -/
theorem emits_member {f : Frame N D} (fs : List (Frame N D)) {key : LuaValue N D}
    {prevkey : BitVec 32} {es : List (Event N J)} (hk : f.keylist[f.index - 1]? = some key)
    (hf : f.prevkey = some prevkey) (hc : Converts lib b c (f.container.gettable key) es) :
    Emits lib b c (f :: fs)
      (List.replicate (toint (lua_tointeger lib key) - (prevkey + 1)).toNat
        (.WJB_ELEM, some .jbvNull) ++ es)
      ({ f with index := f.index + 1, prevkey := some (toint (lua_tointeger lib key)) } :: fs) := by
  have hkey : Keyed lib b { f with index := f.index + 1 } key _ .WJB_ELEM _ := keyed_element hf
  cases hc with
  | scalar pval h => exact emits_scalar fs hk hkey h
  | collection tok g es h hg hes =>
    have hopen := emits_collection fs hk hkey h hg
    simpa using emits_trans hopen (hes _)

/-- All turns of an array: each of its elements, and the end. -/
theorem emits_slots {conv : LuaValue N D → List (Event N J)} (fs : List (Frame N D))
    (keys : List (LuaValue N D)) {f : Frame N D} {prevkey : BitVec 32}
    (hkeys : f.keylist.drop (f.index - 1) = keys) (hidx : 1 ≤ f.index)
    (hf : f.prevkey = some prevkey)
    (hc : ∀ key ∈ f.keylist, Converts lib b c (f.container.gettable key) (conv key)) :
    Emits lib b c (f :: fs)
      ((slots lib prevkey keys).flatMap (element conv) ++ [(.WJB_END_ARRAY, none)]) fs := by
  induction keys generalizing f prevkey with
  | nil =>
    have hend : f.keylist[f.index - 1]? = none := by
      rw [List.getElem?_eq_none_iff]
      exact List.drop_eq_nil_iff.mp hkeys
    have he : Emits lib b c (f :: fs) _ fs := emits_end fs hend
    simpa [slots, hf] using he
  | cons key keys ih =>
    have hk : f.keylist[f.index - 1]? = some key := by
      have h0 := congrArg (·[0]?) hkeys
      simpa using h0
    have hmem := hc key (List.mem_of_getElem? hk)
    have htail : f.keylist.drop (f.index + 1 - 1) = keys := by
      have h1 := congrArg (List.drop 1) hkeys
      rw [List.drop_drop] at h1
      rw [Nat.add_sub_cancel, ← Nat.sub_add_cancel hidx]
      simpa using h1
    let f' : Frame N D :=
      { f with index := f.index + 1, prevkey := some (toint (lua_tointeger lib key)) }
    have hrest : Emits lib b c (f' :: fs) _ fs := ih htail (Nat.le_succ_of_le hidx) rfl hc
    have hall := emits_trans (emits_member fs hk hf hmem) hrest
    simpa [slots, element, List.flatMap_replicate, List.append_assoc] using hall

end

/-! ## Where the keys stand -/

section
variable (lib : LuaLib N D)

/-- The counter does not overrun, and each key stands at its integer. -/
def Placed (keys : List (LuaValue N D)) : Prop :=
  (slots lib 0 keys).length < 2 ^ 31 ∧
    ∀ (i : Nat) k, (slots lib 0 keys)[i]? = some (some k) → lua_tointeger lib k = i + 1

/-- The largest of the integers. -/
def maxkey (keys : List (LuaValue N D)) : Nat :=
  keys.foldr (fun k m => max (lua_tointeger lib k).toNat m) 0

/-- The array of the keys: as long as the largest integer, and at each integer the
key that denotes it. -/
def layout (keys : List (LuaValue N D)) : List (Option (LuaValue N D)) :=
  (List.range (maxkey lib keys)).map fun (i : Nat) =>
    keys.find? fun k => lua_tointeger lib k == (i : Int) + 1

/-- The integers increase, from above `low`, and are C ints. -/
def Ascending (low : Int) (keys : List (LuaValue N D)) : Prop :=
  (∀ k ∈ keys, low < lua_tointeger lib k ∧ lua_tointeger lib k < 2 ^ 31) ∧
    keys.Pairwise fun k l => lua_tointeger lib k < lua_tointeger lib l

variable {lib}

/-- The nulls before a key that is greater than the last one. -/
theorem holes_of_lt {prev n : Nat} (h : prev < n) (hn : n < 2 ^ 31) :
    (BitVec.ofNat 32 n - (BitVec.ofNat 32 prev + 1)).toNat = n - prev - 1 := by
  bv_omega

theorem toint_of_nat {z : Int} {n : Nat} (h : z = n) : toint z = BitVec.ofNat 32 n := by
  subst h
  rfl

/-- From a counter that has not overrun, the keys are placed as long as they ascend. -/
theorem placed_from_iff {keys : List (LuaValue N D)} {prev : Nat} :
    (prev + (slots lib (BitVec.ofNat 32 prev) keys).length < 2 ^ 31 ∧
      ∀ (i : Nat) k, (slots lib (BitVec.ofNat 32 prev) keys)[i]? = some (some k) →
        lua_tointeger lib k = prev + i + 1) ↔
      prev < 2 ^ 31 ∧ Ascending lib prev keys := by
  induction keys generalizing prev with
  | nil => simp [slots, Ascending]
  | cons key keys ih =>
    constructor
    · rintro ⟨hlen, hat⟩
      rw [slots] at hlen hat
      generalize hh : (toint (lua_tointeger lib key) - (BitVec.ofNat 32 prev + 1)).toNat = h
        at hlen hat
      have hkey : lua_tointeger lib key = (prev + h + 1 : Nat) := by
        have h0 := hat h key (by simp)
        omega
      rw [toint_of_nat hkey] at hlen hat
      simp only [List.length_append, List.length_replicate, List.length_cons] at hlen
      have hnext : ∀ (i : Nat) k,
          (slots lib (BitVec.ofNat 32 (prev + h + 1)) keys)[i]? = some (some k) →
          lua_tointeger lib k = (prev + h + 1 : Nat) + i + 1 := by
        intro i k hi
        have hik := hat (h + 1 + i) k (by
          rw [List.getElem?_append_right (by simp; omega)]
          simpa [show h + 1 + i - h = i + 1 by omega] using hi)
        omega
      have hfit : prev + h + 1 + (slots lib (BitVec.ofNat 32 (prev + h + 1)) keys).length < 2 ^ 31 := by
        omega
      obtain ⟨-, hall, hpair⟩ := ih.mp ⟨hfit, hnext⟩
      refine ⟨by omega, ?_, ?_⟩
      · intro k hk
        rcases List.mem_cons.mp hk with rfl | hk
        · omega
        · have hlt := hall k hk
          omega
      · refine List.pairwise_cons.mpr ⟨?_, hpair⟩
        intro k hk
        have hlt := hall k hk
        omega
    · rintro ⟨-, hall, hpair⟩
      obtain ⟨hfirst, hpair⟩ := List.pairwise_cons.mp hpair
      obtain ⟨hlow, hhigh⟩ := hall key List.mem_cons_self
      obtain ⟨n, hn⟩ : ∃ n : Nat, lua_tointeger lib key = n :=
        ⟨(lua_tointeger lib key).toNat, by omega⟩
      have hrest : Ascending lib n keys := by
        refine ⟨?_, hpair⟩
        intro k hk
        have hlt := hfirst k hk
        have hk2 := hall k (List.mem_cons_of_mem key hk)
        omega
      obtain ⟨hlen, hat⟩ := ih.mpr ⟨by omega, hrest⟩
      have hh := holes_of_lt (by omega : prev < n) (by omega)
      rw [slots, toint_of_nat hn, hh]
      constructor
      · simp only [List.length_append, List.length_replicate, List.length_cons]
        omega
      · intro i k hi
        by_cases hlt : i < n - prev - 1
        · rw [List.getElem?_append_left (by simpa using hlt)] at hi
          simp [hlt] at hi
        · rw [List.getElem?_append_right (by simp; omega), List.length_replicate] at hi
          rcases Nat.eq_or_lt_of_not_lt hlt with heq | hgt
          · rw [heq] at hi
            simp at hi
            rw [← hi]
            omega
          · rw [show i - (n - prev - 1) = (i - (n - prev)) + 1 by omega, List.getElem?_cons_succ] at hi
            have hik := hat _ k hi
            omega

theorem placed_iff {keys : List (LuaValue N D)} : Placed lib keys ↔ Ascending lib 0 keys := by
  have h := @placed_from_iff N D lib keys 0
  simpa [Placed] using h

theorem mem_slots {keys : List (LuaValue N D)} {prevkey : BitVec 32} {k : LuaValue N D} :
    some k ∈ slots lib prevkey keys ↔ k ∈ keys := by
  induction keys generalizing prevkey with
  | nil => simp [slots]
  | cons key keys ih => simp [slots, ih, List.mem_replicate]

/-- The last element is a key. -/
theorem slots_last {keys : List (LuaValue N D)} (prevkey : BitVec 32) (h : keys ≠ []) :
    ∃ k, (slots lib prevkey keys).getLast? = some (some k) := by
  induction keys generalizing prevkey with
  | nil => exact absurd rfl h
  | cons key keys ih =>
    by_cases hk : keys = []
    · exact ⟨key, by simp [slots, hk]⟩
    · obtain ⟨k, hlast⟩ := ih (toint (lua_tointeger lib key)) hk
      exact ⟨k, by simp [slots, List.getLast?_append, List.getLast?_cons, hlast]⟩

theorem le_maxkey {keys : List (LuaValue N D)} {k : LuaValue N D} (h : k ∈ keys) :
    (lua_tointeger lib k).toNat ≤ maxkey lib keys := by
  induction keys with
  | nil => cases h
  | cons key keys ih =>
    simp only [maxkey, List.foldr_cons]
    rcases List.mem_cons.mp h with rfl | h
    · exact Nat.le_max_left _ _
    · exact Nat.le_trans (ih h) (Nat.le_max_right _ _)

theorem maxkey_le {keys : List (LuaValue N D)} {n : Nat}
    (h : ∀ k ∈ keys, (lua_tointeger lib k).toNat ≤ n) : maxkey lib keys ≤ n := by
  induction keys with
  | nil => exact Nat.zero_le n
  | cons key keys ih =>
    simp only [maxkey, List.foldr_cons]
    exact Nat.max_le.mpr ⟨h key List.mem_cons_self,
      ih fun k hk => h k (List.mem_cons_of_mem key hk)⟩

theorem placed_index {keys : List (LuaValue N D)} (h : Placed lib keys) {k : LuaValue N D}
    (hk : k ∈ keys) :
    ∃ i : Nat, (slots lib 0 keys)[i]? = some (some k) ∧ lua_tointeger lib k = i + 1 := by
  obtain ⟨i, hi⟩ := List.mem_iff_getElem?.mp (mem_slots.mpr hk)
  exact ⟨i, hi, h.2 i k hi⟩

/-- The array is as long as the largest integer. -/
theorem placed_length {keys : List (LuaValue N D)} (h : Placed lib keys) :
    (slots lib 0 keys).length = maxkey lib keys := by
  apply Nat.le_antisymm
  · by_cases hk : keys = []
    · simp [hk, slots]
    · obtain ⟨k, hlast⟩ := slots_last 0 hk
      rw [List.getLast?_eq_getElem?] at hlast
      have hint := h.2 _ k hlast
      have hmax : (lua_tointeger lib k).toNat ≤ maxkey lib keys :=
        le_maxkey (mem_slots.mp (List.mem_of_getElem? hlast))
      omega
  · apply maxkey_le
    intro k hk
    obtain ⟨i, hi, hint⟩ := placed_index h hk
    obtain ⟨hlt, -⟩ := List.getElem?_eq_some_iff.mp hi
    omega

/-- Keys that are placed are laid out as they should be. -/
theorem placed_layout {keys : List (LuaValue N D)} (h : Placed lib keys) :
    slots lib 0 keys = layout lib keys := by
  apply List.ext_getElem?
  intro i
  by_cases hi : i < (slots lib 0 keys).length
  · have hmax := placed_length h
    rw [layout, List.getElem?_map, List.getElem?_range (by omega), Option.map_some]
    cases hslot : (slots lib 0 keys)[i]? with
    | none =>
      rw [List.getElem?_eq_none_iff] at hslot
      omega
    | some o =>
      congr 1
      -- a key that denotes `i + 1` stands at `i`
      have hall : ∀ k ∈ keys, lua_tointeger lib k = i + 1 → o = some k := by
        intro k hk hint
        obtain ⟨j, hj, hint'⟩ := placed_index h hk
        rw [show j = i by omega, hslot] at hj
        exact Option.some.inj hj
      cases o with
      | none =>
        symm
        rw [List.find?_eq_none]
        intro k hk hint
        exact absurd (hall k hk (by simpa using hint)) (by simp)
      | some k =>
        have hk := mem_slots.mp (List.mem_of_getElem? hslot)
        cases hfind : keys.find? fun k => lua_tointeger lib k == (i : Int) + 1 with
        | none =>
          rw [List.find?_eq_none] at hfind
          exact absurd (h.2 i k hslot) (by simpa using hfind k hk)
        | some k' =>
          exact hall k' (List.mem_of_find?_eq_some hfind) (by simpa using List.find?_some hfind)
  · rw [List.getElem?_eq_none (by omega), List.getElem?_eq_none]
    rw [layout, List.length_map, List.length_range, ← placed_length h]
    omega

end

/-! ## The keys of a collection -/

section
variable (lib : LuaLib N D)

/-- Strings collate in a strict total order. -/
structure Collates : Prop where
  irrefl : ∀ s, lib.l_strcmp_lt s s = false
  trans : ∀ s t u, lib.l_strcmp_lt s t → lib.l_strcmp_lt t u → lib.l_strcmp_lt s u
  total : ∀ s t, s ≠ t → lib.l_strcmp_lt s t ∨ lib.l_strcmp_lt t s

/-- The keys that denote an integer, in the order of the key loop. -/
def keysof (v : LuaValue N D) : List (LuaValue N D) :=
  ((pairs_of v).getD (lib.lua_next v)).filter (intkey lib)

/-- What the keys need to be, to come in their order: different positive C ints, and
where they are strings, strings that collate as their integers. -/
structure InOrder (keys : List (LuaValue N D)) : Prop where
  fit : ∀ k ∈ keys, 0 < lua_tointeger lib k ∧ lua_tointeger lib k < 2 ^ 31
  distinct : keys.Pairwise fun k l => lua_tointeger lib k ≠ lua_tointeger lib l
  collated : ∀ s t, .string s ∈ keys → .string t ∈ keys →
    lua_tointeger lib (.string s) < lua_tointeger lib (.string t) → lib.l_strcmp_lt s t

variable {lib}

theorem tonumber_of_intkey {k : LuaValue N D} {x : Rat} (h : tonumber k = some x)
    (hk : intkey lib k) : x = lua_tointeger lib k := by
  cases k <;> simp [tonumber] at h
  · subst h
    simp [lua_tointeger, lua_tointegerx]
  · subst h
    rename_i y
    by_cases hint : y.den = 1 ∧ -2 ^ 63 ≤ y.num ∧ y.num < 2 ^ 63
    · rw [lua_tointeger, lua_tointegerx, if_pos hint, Option.getD_some]
      exact (Rat.den_eq_one_iff y).mp hint.1 |>.symm
    · have hnone : lua_tointegerx lib (float y) = none := by rw [lua_tointegerx, if_neg hint]
      rw [intkey, hnone] at hk
      cases hk

theorem tostring_eq {k : LuaValue N D} (h : (tostring k).isSome) :
    k = .string ((tostring k).getD []) := by
  cases k <;> simp [tostring] at h ⊢

/-- Sorted keys: numbers are in the order of their integers, and strings collate. -/
theorem table_sort_cases {ks ls : List (LuaValue N D)} (hc : Collates lib)
    (hint : ∀ k ∈ ks, intkey lib k) (h : table_sort lib ks = .ok ls) :
    ls.Perm ks ∧ (ls.length ≤ 1 ∨
      (ls.Pairwise (fun k l => lua_tointeger lib k ≤ lua_tointeger lib l) ∧
        ∀ s, .string s ∉ ks) ∨
      (ls.Pairwise (fun k l => ¬ lib.l_strcmp_lt ((tostring l).getD []) ((tostring k).getD [])) ∧
        ∀ k ∈ ks, k = .string ((tostring k).getD []))) := by
  unfold table_sort at h
  split at h
  · rename_i hlen
    cases h
    exact ⟨List.Perm.refl _, Or.inl hlen⟩
  split at h
  · rename_i hnum
    cases h
    rw [List.all_eq_true] at hnum
    have hperm := List.perm_insertionSort numle ks
    refine ⟨hperm, Or.inr (Or.inl ⟨?_, ?_⟩)⟩
    · refine (List.pairwise_insertionSort numle ks).imp_of_mem ?_
      intro k l hk hl hle
      obtain ⟨x, hx⟩ := Option.isSome_iff_exists.mp (hnum k (hperm.subset hk))
      obtain ⟨y, hy⟩ := Option.isSome_iff_exists.mp (hnum l (hperm.subset hl))
      have hxi := tonumber_of_intkey hx (hint k (hperm.subset hk))
      have hyi := tonumber_of_intkey hy (hint l (hperm.subset hl))
      rw [numle, hx, hy, Option.getD_some, Option.getD_some, hxi, hyi] at hle
      exact_mod_cast hle
    · intro s hs
      exact absurd (hnum _ hs) (by simp [tonumber])
  split at h
  · rename_i hstr
    cases h
    rw [List.all_eq_true] at hstr
    let r : LuaValue N D → LuaValue N D → Prop := fun k l =>
      ¬ lib.l_strcmp_lt ((tostring l).getD []) ((tostring k).getD [])
    have : Std.Total r := ⟨fun k l => by
      by_cases hkl : lib.l_strcmp_lt ((tostring l).getD []) ((tostring k).getD [])
      · right
        intro hlk
        have hself := hc.trans _ _ _ hkl hlk
        rw [hc.irrefl] at hself
        cases hself
      · exact Or.inl hkl⟩
    have : IsTrans (LuaValue N D) r := ⟨fun j k l hjk hkl hlj => by
      by_cases hjl : (tostring k).getD [] = (tostring l).getD []
      · exact hjk (by rw [hjl]; exact hlj)
      · rcases hc.total _ _ hjl with hlt | hlt
        · exact hjk (hc.trans _ _ _ hlt hlj)
        · exact hkl hlt⟩
    have hperm := List.perm_insertionSort r ks
    exact ⟨hperm, Or.inr (Or.inr ⟨List.pairwise_insertionSort r ks,
      fun k hk => tostring_eq (hstr k hk)⟩)⟩
  · cases h

/-- Sorted keys ascend exactly if they come in order. -/
theorem sorted_ascending_iff {ks ls : List (LuaValue N D)} (hc : Collates lib)
    (hint : ∀ k ∈ ks, intkey lib k) (h : table_sort lib ks = .ok ls) :
    Ascending lib 0 ls ↔ InOrder lib ks := by
  obtain ⟨hperm, hsort⟩ := table_sort_cases hc hint h
  have hsymm : ∀ {k l : LuaValue N D}, lua_tointeger lib k ≠ lua_tointeger lib l →
      lua_tointeger lib l ≠ lua_tointeger lib k := fun hne => hne.symm
  constructor
  · rintro ⟨hfit, hlt⟩
    refine ⟨fun k hk => hfit k (hperm.symm.subset hk),
      (hperm.pairwise_iff @hsymm).mp (hlt.imp fun hkl => Int.ne_of_lt hkl), ?_⟩
    intro s t hs ht hst
    have hne : s ≠ t := by
      rintro rfl
      exact absurd hst (Int.lt_irrefl _)
    rcases hsort with hlen | ⟨-, hno⟩ | ⟨hle, -⟩
    · match ls, hlen, hperm.symm.subset hs, hperm.symm.subset ht with
      | [k], _, hs, ht =>
        rw [List.mem_singleton] at hs ht
        exact absurd (string.inj (hs.trans ht.symm)) hne
    · exact absurd hs (hno s)
    · -- of two keys the lesser stands before the other
      let before : LuaValue N D → LuaValue N D → Prop := fun k l =>
        (lua_tointeger lib k < lua_tointeger lib l →
          ¬ lib.l_strcmp_lt ((tostring l).getD []) ((tostring k).getD [])) ∧
        (lua_tointeger lib l < lua_tointeger lib k →
          ¬ lib.l_strcmp_lt ((tostring k).getD []) ((tostring l).getD []))
      have : Std.Symm before := ⟨fun _ _ h => ⟨h.2, h.1⟩⟩
      have hbefore : ls.Pairwise before := by
        refine (hlt.and hle).imp ?_
        rintro k l ⟨hkl, hr⟩
        exact ⟨fun _ => hr, fun hlk => absurd hlk (by omega)⟩
      have hts := (hbefore.forall (hperm.symm.subset hs) (hperm.symm.subset ht)
        (fun h => hne (string.inj h))).1 hst
      rcases hc.total s t hne with h | h
      · exact h
      · exact absurd h hts
  · rintro ⟨hfit, hne, hcol⟩
    refine ⟨fun k hk => hfit k (hperm.subset hk), ?_⟩
    have hne' := (hperm.pairwise_iff @hsymm).mpr hne
    rcases hsort with hlen | ⟨hle, -⟩ | ⟨hle, hstr⟩
    · match ls, hlen with
      | [], _ => exact List.Pairwise.nil
      | [k], _ => exact List.pairwise_singleton _ k
    · exact (hle.and hne').imp fun ⟨hkl, hd⟩ => lt_of_le_of_ne hkl hd
    · refine (hle.and hne').imp_of_mem ?_
      rintro k l hk hl ⟨hkl, hd⟩
      by_contra hno
      have hlk : lua_tointeger lib l < lua_tointeger lib k := by omega
      rw [hstr l (hperm.subset hl), hstr k (hperm.subset hk)] at hlk
      exact hkl (hcol _ _ (hstr l (hperm.subset hl) ▸ hperm.subset hl)
        (hstr k (hperm.subset hk) ▸ hperm.subset hk) hlk)

/-- The table of the integer keys holds them in the order of the key loop. -/
theorem scankeys_numkeytab {b : Backend N D J P} {known_array : Bool} {ks : List (LuaValue N D)}
    {sc sc' : KeyScan N D} (h : ks.foldlM (scankey lib b known_array) sc = .ok sc') :
    sc'.numkeytab = sc.numkeytab ++ ks.filter (intkey lib) := by
  induction ks generalizing sc with
  | nil =>
    cases h
    simp
  | cons k ks ih =>
    rw [List.foldlM_cons] at h
    cases hk : scankey lib b known_array sc k with
    | error e =>
      rw [hk] at h
      cases h
    | ok sc1 =>
      rw [hk, ok_bind] at h
      rw [ih h]
      cases hs : serialized_key b known_array k with
      | error e => simp [scankey, hs, bind, Except.bind] at hk
      | ok k' =>
        cases hint : lua_tointegerx lib k with
        | none =>
          simp only [scankey, hint, hs, ok_bind, Except.ok.injEq] at hk
          simp [← hk, intkey, hint]
        | some i =>
          simp only [scankey, hint, hs, ok_bind, Except.ok.injEq] at hk
          simp [← hk, intkey, hint]

/-- A collection that is taken as an array: its integer keys are sorted. -/
theorem pushkeys_sorted {b : Backend N D J P} {empty_object : Bool}
    {array_thresh array_frac : BitVec 32} {v : LuaValue N D} {f : Frame N D}
    (h : pllua_jsonb_pushkeys lib b empty_object array_thresh array_frac v =
      .ok (.WJB_BEGIN_ARRAY, f)) :
    table_sort lib (keysof lib v) = .ok f.keylist ∧ f = ⟨v, f.keylist, some 0, 1⟩ := by
  unfold pllua_jsonb_pushkeys at h
  simp only at h
  cases hsc : scankeys lib b (v.metatable.bind Metatable.jsonb_object == some false) v with
  | error e =>
    rw [hsc] at h
    cases h
  | ok sc =>
    rw [hsc, ok_bind] at h
    split at h
    · cases h
    · have hnum : sc.numkeytab = keysof lib v := by
        simpa [keysof] using scankeys_numkeytab hsc
      rw [hnum] at h
      cases hsort : table_sort lib (keysof lib v) with
      | error e =>
        rw [hsort] at h
        cases h
      | ok keys =>
        rw [hsort] at h
        cases h
        exact ⟨rfl, rfl⟩

/-- The array does not depend on the order of the keys. -/
theorem layout_perm {ks ls : List (LuaValue N D)} (hperm : ls.Perm ks)
    (hd : ls.Pairwise fun k l => lua_tointeger lib k ≠ lua_tointeger lib l) :
    layout lib ls = layout lib ks := by
  have hmax : maxkey lib ls = maxkey lib ks :=
    Nat.le_antisymm (maxkey_le fun k hk => le_maxkey (hperm.subset hk))
      (maxkey_le fun k hk => le_maxkey (hperm.symm.subset hk))
  rw [layout, layout, hmax]
  apply List.map_congr_left
  intro i _
  have : Std.Symm fun k l : LuaValue N D => lua_tointeger lib k ≠ lua_tointeger lib l :=
    ⟨fun _ _ h => h.symm⟩
  cases hl : ls.find? fun k => lua_tointeger lib k == (i : Int) + 1 with
  | none =>
    symm
    rw [List.find?_eq_none] at hl ⊢
    exact fun k hk => hl k (hperm.symm.subset hk)
  | some k =>
    have hk := List.mem_of_find?_eq_some hl
    have hki : lua_tointeger lib k = i + 1 := by simpa using List.find?_some hl
    cases hl' : ks.find? fun k => lua_tointeger lib k == (i : Int) + 1 with
    | none =>
      rw [List.find?_eq_none] at hl'
      exact absurd hki (by simpa using hl' k (hperm.subset hk))
    | some k' =>
      have hk' := hperm.symm.subset (List.mem_of_find?_eq_some hl')
      have hki' : lua_tointeger lib k' = i + 1 := by simpa using List.find?_some hl'
      by_contra hne
      exact hd.forall hk hk' (fun h => hne (congrArg some h)) (hki.trans hki'.symm)

/-- The loop emits the slots of the sorted keys. They are counted right exactly if the
keys come in order, and then they are the array that the keys describe. -/
theorem an_array_is_emitted_right_if_its_keys_come_in_order {b : Backend N D J P}
    (hc : Collates lib) {empty_object : Bool} {array_thresh array_frac : BitVec 32}
    {v : LuaValue N D} {f : Frame N D}
    (h : pllua_jsonb_pushkeys lib b empty_object array_thresh array_frac v =
      .ok (.WJB_BEGIN_ARRAY, f)) :
    (∀ (c : TosqlParams N D) conv fs,
      (∀ key ∈ f.keylist, Converts lib b c (v.gettable key) (conv key)) →
        Emits lib b c (f :: fs)
          ((slots lib 0 f.keylist).flatMap (element conv) ++ [(.WJB_END_ARRAY, none)]) fs) ∧
    (Placed lib f.keylist ↔ InOrder lib (keysof lib v)) ∧
    (InOrder lib (keysof lib v) → slots lib 0 f.keylist = layout lib (keysof lib v)) := by
  obtain ⟨hsort, hf⟩ := pushkeys_sorted h
  have hint : ∀ k ∈ keysof lib v, intkey lib k := fun k hk => (List.mem_filter.mp hk).2
  have hplaced : Placed lib f.keylist ↔ InOrder lib (keysof lib v) :=
    placed_iff.trans (sorted_ascending_iff hc hint hsort)
  refine ⟨?_, hplaced, ?_⟩
  · intro c conv fs hconv
    have hv : f.container = v := by rw [hf]
    have hprev : f.prevkey = some 0 := by rw [hf]
    have hidx : f.index = 1 := by rw [hf]
    apply emits_slots fs f.keylist (by rw [hidx]; rfl) (by omega) hprev
    rw [hv]
    exact hconv
  · intro hin
    have hpl := hplaced.mpr hin
    obtain ⟨hperm, -⟩ := table_sort_cases hc hint hsort
    rw [placed_layout hpl]
    refine layout_perm hperm ((placed_iff.mp hpl).2.imp fun hlt => Int.ne_of_lt hlt)

end

/-! ## Arrays with strange keys -/

/-- Lua's library in the C locale, with strings of digits that convert to integers. -/
def decimals : LuaLib Int StoredJsonb :=
  { insertionorder with
    stringtointeger := fun s =>
      if s.isEmpty then none
      else s.foldlM (fun n c => if 48 ≤ c ∧ c ≤ 57 then some (n * 10 + (c.toNat - 48)) else none) 0
    l_strcmp_lt := fun s t => decide (s.map UInt8.toNat < t.map UInt8.toNat) }

theorem decimals_collates : Collates decimals where
  irrefl s := by simp [decimals]
  trans s t u hst htu := by
    simp only [decimals, decide_eq_true_eq] at *
    exact lt_trans hst htu
  total s t hne := by
    simp only [decimals, decide_eq_true_eq]
    apply lt_or_gt_of_ne
    have hinj : Function.Injective UInt8.toNat := fun _ _ => UInt8.toNat_inj.mp
    exact fun h => hne (List.map_injective_iff.mpr hinj h)

/-- A table of the keys, with the value `true` at each, and a mark. -/
def keyed (mark : Option Bool) (keys : List (LuaValue Int StoredJsonb)) : LuaValue Int StoredJsonb :=
  .table 0 (some ⟨mark, none, none⟩) (keys.map fun k => (k, .boolean true))

/-- The table `{[1] = true, [3] = true}`. -/
theorem a_hole_is_filled :
    slots decimals 0 [.integer 1, .integer 3] =
      [some (.integer 1), none, some (.integer 3)] := by
  have h : pllua_jsonb_pushkeys decimals reference false 1000 1000
      (keyed none [.integer 3, .integer 1]) =
      .ok (.WJB_BEGIN_ARRAY,
        ⟨keyed none [.integer 3, .integer 1], [.integer 1, .integer 3], some 0, 1⟩) := by rfl
  have hin : InOrder decimals (keysof decimals (keyed none [.integer 3, .integer 1])) := by
    refine ⟨by decide, by decide, ?_⟩
    intro s t hs
    simp [keysof, keyed, decimals, insertionorder, fields, metatable, pairs_of] at hs
  exact (an_array_is_emitted_right_if_its_keys_come_in_order decimals_collates h).2.2 hin

/-- The key `2 ^ 32 + 1` of a table with the mark of an array. -/
def far_key : LuaValue Int StoredJsonb := .integer (2 ^ 32 + 1)

/-- The strings `"2"` and `"10"`. -/
def two : LuaValue Int StoredJsonb := .string [50]
def ten : LuaValue Int StoredJsonb := .string [49, 48]

/-- A key that is no C int stands first. The strings come as `"10"` and `"2"`, and the
counter passes every C int before it comes back to 2. -/
theorem strange_keys_are_not_placed :
    (∃ f, pllua_jsonb_pushkeys decimals reference false 1000 1000 (keyed (some false) [far_key]) =
        .ok (.WJB_BEGIN_ARRAY, f) ∧
      slots decimals 0 f.keylist = [some far_key] ∧ ¬ Placed decimals f.keylist) ∧
    ∃ f, pllua_jsonb_pushkeys decimals reference false 1000 1000 (keyed none [two, ten]) =
        .ok (.WJB_BEGIN_ARRAY, f) ∧
      slots decimals 0 f.keylist =
        List.replicate 9 none ++ some ten :: (List.replicate (2 ^ 32 - 9) none ++ [some two]) ∧
      ¬ Placed decimals f.keylist := by
  refine ⟨⟨⟨_, [far_key], some 0, 1⟩, rfl, rfl, ?_⟩, ⟨_, [ten, two], some 0, 1⟩, rfl, rfl, ?_⟩
  · rintro ⟨-, hat⟩
    exact absurd (hat 0 far_key rfl) (by decide)
  rintro ⟨hlen, -⟩
  have hlen' : (slots decimals 0 [ten, two]).length < 2 ^ 31 := hlen
  have hlong : (slots decimals 0 [ten, two]).length = 2 ^ 32 + 2 := by
    have hslots : slots decimals 0 [ten, two] =
      List.replicate 9 none ++ some ten :: (List.replicate (2 ^ 32 - 9) none ++ [some two]) := rfl
    rw [hslots, List.length_append, List.length_replicate, List.length_cons, List.length_append,
      List.length_replicate, List.length_singleton]
    rfl
  omega

end pllua.jsonb
