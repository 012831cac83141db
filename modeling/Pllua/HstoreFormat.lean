-- The format of an hstore value (hstore.h): an array with two positions for each pair, and after it
-- the bytes of all keys and values. The extension hstore itself is taken as a library, with what it
-- promises; one that sorts the pairs and lays them out keeps the promise.
import Mathlib.Data.List.Lex
import Mathlib.Data.List.Nodup
import Mathlib.Data.List.Sort
import Mathlib.Data.Prod.Lex
import Mathlib.Tactic.Common

namespace pllua.hstore

abbrev Bytes := List UInt8

/-! ## Reading -/

/-- An entry for a key or a value, which ends at `endpos`. All positions fit the bits there are. -/
structure HEntry where
  endpos : Nat
  isnull : Bool
  isfirst : Bool
deriving DecidableEq

structure HStore where
  entries : List HEntry
  strings : Bytes
deriving DecidableEq

namespace HStore

/-- `HS_COUNT` -/
def count (hs : HStore) : Nat := hs.entries.length / 2

def entry (hs : HStore) (j : Nat) : HEntry := hs.entries.getD j ⟨0, false, false⟩

/-- `HSE_OFF` -/
def off (hs : HStore) (j : Nat) : Nat :=
  if (hs.entry j).isfirst then 0 else (hs.entry (j - 1)).endpos

/-- `HSE_LEN` -/
def len (hs : HStore) (j : Nat) : Nat :=
  if (hs.entry j).isfirst then (hs.entry j).endpos
  else (hs.entry j).endpos - (hs.entry (j - 1)).endpos

def text (hs : HStore) (j : Nat) : Bytes := (hs.strings.drop (hs.off j)).take (hs.len j)

/-- `HSTORE_KEY` with `HSTORE_KEYLEN` -/
def key (hs : HStore) (i : Nat) : Bytes := hs.text (2 * i)

/-- `HSTORE_VAL` with `HSTORE_VALLEN` -/
def val (hs : HStore) (i : Nat) : Bytes := hs.text (2 * i + 1)

/-- `HSTORE_VALISNULL` -/
def valisnull (hs : HStore) (i : Nat) : Bool := (hs.entry (2 * i + 1)).isnull

/-- The pairs of the value, with none for null. -/
def pairs (hs : HStore) : List (Bytes × Option Bytes) :=
  (List.range hs.count).map fun i => (hs.key i, if hs.valisnull i then none else some (hs.val i))

end HStore

/-! ## Writing -/

/-- `Pairs`; the lengths are those of the byte strings. -/
structure Pairs where
  key : Bytes
  val : Bytes
  isnull : Bool
  needfree : Bool

def Pairs.pair (p : Pairs) : Bytes × Option Bytes := (p.key, if p.isnull then none else some p.val)

/-- `HS_ADDITEM` -/
def add_item (hs : HStore) (p : Pairs) : HStore :=
  have key_end := hs.strings ++ p.key
  have val_end := if p.isnull then key_end else key_end ++ p.val
  { entries := hs.entries ++ [⟨key_end.length, false, false⟩, ⟨val_end.length, p.isnull, false⟩]
    strings := val_end }

/-- `HS_FINALIZE` marks the first entry. -/
def finalize (hs : HStore) : HStore :=
  { hs with entries := hs.entries.modify 0 fun e => { e with isfirst := true } }

/-- The pairs are laid out one after another. -/
def lay_out (ps : List Pairs) : HStore := finalize (ps.foldl add_item ⟨[], []⟩)

/-! ## What is written is read -/

namespace HStore

/-- Where an entry starts: at the end of the one before. -/
def start (hs : HStore) (j : Nat) : Nat := if j = 0 then 0 else (hs.entry (j - 1)).endpos

def slice (hs : HStore) (j : Nat) : Bytes :=
  (hs.strings.drop (hs.start j)).take ((hs.entry j).endpos - hs.start j)

end HStore

/-- The value that has been built so far, before its first entry is marked. -/
structure Built (hs : HStore) (ps : List Pairs) : Prop where
  length : hs.entries.length = 2 * ps.length
  unmarked : ∀ j, (hs.entry j).isfirst = false
  bound : ∀ j < hs.entries.length, (hs.entry j).endpos ≤ hs.strings.length
  last : hs.start hs.entries.length = hs.strings.length
  keys : ∀ i (hi : i < ps.length), hs.slice (2 * i) = (ps.get ⟨i, hi⟩).key
  nulls : ∀ i (hi : i < ps.length), hs.valisnull i = (ps.get ⟨i, hi⟩).isnull
  vals : ∀ i (hi : i < ps.length), (ps.get ⟨i, hi⟩).isnull = false →
    hs.slice (2 * i + 1) = (ps.get ⟨i, hi⟩).val

theorem slice_append {s t : Bytes} {a b : Nat} (h : b ≤ s.length) :
    ((s ++ t).drop a).take (b - a) = (s.drop a).take (b - a) := by
  by_cases ha : a ≤ s.length
  · rw [List.drop_append_of_le_length ha, List.take_append_of_le_length]
    rw [List.length_drop]
    omega
  · have : b - a = 0 := by omega
    rw [this, List.take_zero, List.take_zero]

theorem slice_middle (s t u : Bytes) :
    ((s ++ t ++ u).drop s.length).take ((s ++ t).length - s.length) = t := by
  rw [List.append_assoc, List.drop_left, List.length_append, Nat.add_sub_cancel_left,
    List.take_left]

section
variable {hs : HStore} {ps : List Pairs} {p : Pairs}

theorem built_nil : Built ⟨[], []⟩ [] where
  length := rfl
  unmarked := fun j => by cases j <;> rfl
  bound := fun _ hj => absurd hj (Nat.not_lt_zero _)
  last := rfl
  keys := fun _ hi => absurd hi (Nat.not_lt_zero _)
  nulls := fun _ hi => absurd hi (Nat.not_lt_zero _)
  vals := fun _ hi => absurd hi (Nat.not_lt_zero _)

theorem add_item_entry_old {j : Nat} (hj : j < hs.entries.length) :
    (add_item hs p).entry j = hs.entry j := by
  simp [HStore.entry, add_item, List.getElem?_append_left hj]

theorem add_item_entry_key :
    (add_item hs p).entry hs.entries.length = ⟨(hs.strings ++ p.key).length, false, false⟩ := by
  simp [HStore.entry, add_item]

theorem add_item_entry_val : (add_item hs p).entry (hs.entries.length + 1) =
    ⟨(add_item hs p).strings.length, p.isnull, false⟩ := by
  simp [HStore.entry, add_item]

theorem add_item_start {j : Nat} (hj : j ≤ hs.entries.length) :
    (add_item hs p).start j = hs.start j := by
  unfold HStore.start
  split
  · rfl
  · rw [add_item_entry_old (by omega)]

theorem add_item_length :
    (add_item hs p).entries.length = hs.entries.length + 2 := by
  simp [add_item]

theorem add_item_strings :
    (add_item hs p).strings = hs.strings ++ p.key ++ if p.isnull then [] else p.val := by
  unfold add_item
  cases p.isnull <;> simp

/-- What was there is still read as it was. -/
theorem Built.slice_old (hb : Built hs ps) {j : Nat} (hj : j < hs.entries.length) :
    (add_item hs p).slice j = hs.slice j := by
  unfold HStore.slice
  rw [add_item_start (Nat.le_of_lt hj), add_item_entry_old hj, add_item_strings, List.append_assoc,
    slice_append (hb.bound j hj)]

theorem Built.slice_key (hb : Built hs ps) :
    (add_item hs p).slice hs.entries.length = p.key := by
  unfold HStore.slice
  rw [add_item_start (Nat.le_refl _), hb.last, add_item_entry_key, add_item_strings]
  exact slice_middle hs.strings p.key _

theorem slice_val (hnull : p.isnull = false) :
    (add_item hs p).slice (hs.entries.length + 1) = p.val := by
  have hstart : (add_item hs p).start (hs.entries.length + 1) = (hs.strings ++ p.key).length := by
    rw [HStore.start, if_neg (Nat.succ_ne_zero _), Nat.add_sub_cancel, add_item_entry_key]
  have hstrings : (add_item hs p).strings = hs.strings ++ p.key ++ p.val := by
    rw [add_item_strings, hnull]
    rfl
  unfold HStore.slice
  rw [hstart, add_item_entry_val, hstrings]
  have := slice_middle (hs.strings ++ p.key) p.val []
  rwa [List.append_nil] at this

theorem Built.add_item (hb : Built hs ps) (p : Pairs) : Built (add_item hs p) (ps ++ [p]) := by
  have hlen := hb.length
  have old (i : Nat) (hi : i < ps.length) (hi' : i < (ps ++ [p]).length) :
      (ps ++ [p]).get ⟨i, hi'⟩ = ps.get ⟨i, hi⟩ := List.getElem_append_left hi
  have new (i : Nat) (hi : ¬i < ps.length) (hi' : i < (ps ++ [p]).length) :
      i = ps.length ∧ (ps ++ [p]).get ⟨i, hi'⟩ = p := by
    have : i = ps.length := by
      rw [List.length_append, List.length_singleton] at hi'
      omega
    subst this
    exact ⟨rfl, by simp⟩
  refine ⟨?_, ?_, ?_, ?_, ?_, ?_, ?_⟩
  · rw [add_item_length, List.length_append, List.length_singleton]
    omega
  · intro j
    by_cases hj : j < hs.entries.length
    · rw [add_item_entry_old hj, hb.unmarked]
    · by_cases hj' : j < (hstore.add_item hs p).entries.length
      · rw [add_item_length] at hj'
        obtain rfl | rfl : j = hs.entries.length ∨ j = hs.entries.length + 1 := by omega
        · rw [add_item_entry_key]
        · rw [add_item_entry_val]
      · rw [HStore.entry, List.getD_eq_getElem?_getD, List.getElem?_eq_none (Nat.not_lt.mp hj')]
        rfl
  · intro j hj
    rw [add_item_length] at hj
    by_cases hold : j < hs.entries.length
    · have := hb.bound j hold
      rw [add_item_entry_old hold, add_item_strings, List.length_append, List.length_append]
      omega
    · obtain rfl | rfl : j = hs.entries.length ∨ j = hs.entries.length + 1 := by omega
      · rw [add_item_entry_key, add_item_strings]
        exact (List.prefix_append _ _).length_le
      · rw [add_item_entry_val]
  · rw [add_item_length, HStore.start, if_neg (Nat.succ_ne_zero _)]
    exact congrArg HEntry.endpos add_item_entry_val
  · intro i hi
    by_cases hold : i < ps.length
    · rw [hb.slice_old (by omega), hb.keys i hold, old i hold hi]
    · obtain ⟨rfl, hp⟩ := new i hold hi
      rw [hp, ← hlen, hb.slice_key]
  · intro i hi
    unfold HStore.valisnull
    by_cases hold : i < ps.length
    · rw [add_item_entry_old (by omega), old i hold hi]
      exact hb.nulls i hold
    · obtain ⟨rfl, hp⟩ := new i hold hi
      rw [hp, ← hlen, add_item_entry_val]
  · intro i hi hnull
    by_cases hold : i < ps.length
    · rw [old i hold hi] at hnull ⊢
      rw [hb.slice_old (by omega), hb.vals i hold hnull]
    · obtain ⟨rfl, hp⟩ := new i hold hi
      rw [hp] at hnull ⊢
      rw [← hlen, slice_val hnull]

theorem foldl_add_item (hb : Built hs ps) (qs : List Pairs) :
    Built (qs.foldl hstore.add_item hs) (ps ++ qs) := by
  induction qs generalizing hs ps with
  | nil => rwa [List.append_nil]
  | cons q qs ih =>
    have := ih (hb.add_item q)
    rwa [List.append_assoc, List.singleton_append] at this

theorem finalize_endpos (hs : HStore) (j : Nat) :
    ((finalize hs).entry j).endpos = (hs.entry j).endpos := by
  obtain ⟨es, strings⟩ := hs
  cases es <;> cases j <;> rfl

theorem finalize_isnull (hs : HStore) (j : Nat) :
    ((finalize hs).entry j).isnull = (hs.entry j).isnull := by
  obtain ⟨es, strings⟩ := hs
  cases es <;> cases j <;> rfl

theorem finalize_isfirst_zero (h : 0 < hs.entries.length) :
    ((finalize hs).entry 0).isfirst = true := by
  obtain ⟨es, strings⟩ := hs
  cases es with
  | nil => exact absurd h (Nat.lt_irrefl 0)
  | cons e es => rfl

theorem finalize_isfirst_succ (hs : HStore) (j : Nat) :
    ((finalize hs).entry (j + 1)).isfirst = (hs.entry (j + 1)).isfirst := by
  obtain ⟨es, strings⟩ := hs
  cases es <;> rfl

/-- With its first entry marked the value is read as it has been built. -/
theorem Built.finalized_text (hb : Built hs ps) {j : Nat} (hj : j < hs.entries.length) :
    (finalize hs).text j = hs.slice j := by
  have strings : (finalize hs).strings = hs.strings := rfl
  unfold HStore.text HStore.slice HStore.off HStore.len
  cases j with
  | zero =>
    rw [finalize_isfirst_zero hj, if_pos rfl, if_pos rfl, finalize_endpos, strings]
    rfl
  | succ j =>
    rw [finalize_isfirst_succ, hb.unmarked, if_neg Bool.false_ne_true, if_neg Bool.false_ne_true,
      Nat.add_sub_cancel, finalize_endpos, finalize_endpos, strings]
    rfl

theorem Built.pairs (hb : Built hs ps) : (finalize hs).pairs = ps.map Pairs.pair := by
  have hlen := hb.length
  have count : (finalize hs).count = ps.length := by
    rw [HStore.count, finalize, List.length_modify, hlen]
    omega
  apply List.ext_getElem
  · simp [HStore.pairs, count]
  · intro i hi hi'
    rw [List.length_map] at hi'
    have hnull : (finalize hs).valisnull i = (ps.get ⟨i, hi'⟩).isnull :=
      (finalize_isnull hs _).trans (hb.nulls i hi')
    have hkey : (finalize hs).key i = (ps.get ⟨i, hi'⟩).key :=
      (hb.finalized_text (by omega)).trans (hb.keys i hi')
    have hval : (ps.get ⟨i, hi'⟩).isnull = false →
        (finalize hs).val i = (ps.get ⟨i, hi'⟩).val := fun h =>
      (hb.finalized_text (by omega)).trans (hb.vals i hi' h)
    have read : (finalize hs).pairs[i] = (ps.get ⟨i, hi'⟩).pair := by
      simp only [HStore.pairs, List.getElem_map, List.getElem_range, hnull, hkey, Pairs.pair]
      cases h : (ps.get ⟨i, hi'⟩).isnull with
      | true => rfl
      | false => rw [hval h]
    rw [List.getElem_map]
    exact read

end

theorem lay_out_pairs (ps : List Pairs) : (lay_out ps).pairs = ps.map Pairs.pair :=
  (foldl_add_item built_nil ps).pairs

/-! ## Sorting -/

/-- The pairs of an array that was made from these. -/
def Pairs.of (p : Bytes × Option Bytes) : Pairs := ⟨p.1, p.2.getD [], p.2.isNone, false⟩

@[simp] theorem of_pair (p : Bytes × Option Bytes) : (Pairs.of p).pair = p := by
  obtain ⟨k, v⟩ := p
  cases v <;> rfl

@[simp] theorem of_key (p : Bytes × Option Bytes) : (Pairs.of p).key = p.1 := rfl

theorem map_of_pair (ps : List (Bytes × Option Bytes)) : (ps.map Pairs.of).map Pairs.pair = ps := by
  rw [List.map_map]
  exact List.map_id'' of_pair ps

/-- Shorter keys come first, and keys of one length by their bytes. -/
def sort_key (b : Bytes) : ℕ ×ₗ List ℕ := toLex (b.length, b.map UInt8.toNat)

theorem sort_key_inj {a b : Bytes} (h : sort_key a = sort_key b) : a = b :=
  (List.map_injective_iff.mpr fun _ _ => UInt8.toNat_inj.mp) (congrArg (fun x => (ofLex x).2) h)

def key_le (p q : Bytes × Option Bytes) : Bool := decide (sort_key p.1 ≤ sort_key q.1)

def sorted (ps : List Pairs) : List Pairs := ((ps.map Pairs.pair).mergeSort key_le).map Pairs.of

theorem key_le_trans (p q r : Bytes × Option Bytes) (h : key_le p q = true)
    (h' : key_le q r = true) : key_le p r = true :=
  decide_eq_true (le_trans (of_decide_eq_true h) (of_decide_eq_true h'))

theorem key_le_total (p q : Bytes × Option Bytes) : (key_le p q || key_le q p) = true := by
  rw [Bool.or_eq_true]
  exact (le_total (sort_key p.1) (sort_key q.1)).imp decide_eq_true decide_eq_true

/-- Arrays of the same pairs are sorted into the same array if their keys are distinct. -/
theorem sorted_same {ps qs : List Pairs} (hnodup : (ps.map Pairs.key).Nodup)
    (hperm : (ps.map Pairs.pair).Perm (qs.map Pairs.pair)) : sorted ps = sorted qs := by
  have keys : ((ps.map Pairs.pair).map Prod.fst).Nodup := by
    rw [List.map_map]
    exact hnodup
  have hsort : (ps.map Pairs.pair).mergeSort key_le = (qs.map Pairs.pair).mergeSort key_le := by
    refine List.Perm.eq_of_pairwise ?_ (List.pairwise_mergeSort key_le_trans key_le_total _)
      (List.pairwise_mergeSort key_le_trans key_le_total _)
      ((List.mergeSort_perm _ _).trans (hperm.trans (List.mergeSort_perm _ _).symm))
    intro a b ha hb hab hba
    have hkey : a.1 = b.1 :=
      sort_key_inj (le_antisymm (of_decide_eq_true hab) (of_decide_eq_true hba))
    have ha' := (List.mergeSort_perm _ _).mem_iff.mp ha
    have hb' := hperm.mem_iff.mpr ((List.mergeSort_perm _ _).mem_iff.mp hb)
    exact List.inj_on_of_nodup_map keys ha' hb' hkey
  rw [sorted, sorted, hsort]

theorem sorted_pairs (ps : List Pairs) :
    (lay_out (sorted ps)).pairs.Perm (ps.map Pairs.pair) := by
  rw [lay_out_pairs, sorted, map_of_pair]
  exact List.mergeSort_perm _ _

end pllua.hstore
