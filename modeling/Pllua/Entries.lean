-- A table as the list of its entries in the order of a traversal: setting and getting a key.
import Mathlib.Data.List.Nodup
import Mathlib.Tactic.Common

namespace entries

variable {K V : Type} [DecidableEq K]

def get_entry (k : K) (es : List (K × V)) : Option V :=
  (es.find? fun e => e.1 = k).map Prod.snd

/-- The entries after an assignment to a key. -/
def set_entry (k : K) (v : V) : List (K × V) → List (K × V)
  | [] => [(k, v)]
  | e :: es => if e.1 = k then (k, v) :: es else e :: set_entry k v es

/-- A new key comes after the others. -/
theorem set_entry_new {k : K} {es : List (K × V)} (h : k ∉ es.map Prod.fst) (v : V) :
    set_entry k v es = es ++ [(k, v)] := by
  induction es with
  | nil => rfl
  | cons e es ih =>
    rw [List.map_cons, List.mem_cons, not_or] at h
    rw [set_entry, if_neg (Ne.symm h.1), ih h.2]
    rfl

theorem mem_set_entry {k : K} {v : V} {es : List (K × V)} {e : K × V}
    (h : e ∈ set_entry k v es) : e = (k, v) ∨ e ∈ es := by
  induction es with
  | nil => exact .inl (List.mem_singleton.mp h)
  | cons x es ih =>
    rw [set_entry] at h
    split at h
    · rcases List.mem_cons.mp h with h | h
      · exact .inl h
      · exact .inr (List.mem_cons_of_mem _ h)
    · rcases List.mem_cons.mp h with rfl | h
      · exact .inr (List.mem_cons_self ..)
      · exact (ih h).imp_right (List.mem_cons_of_mem _)

theorem get_entry_mem {k : K} {v : V} {es : List (K × V)} (h : get_entry k es = some v) :
    (k, v) ∈ es := by
  obtain ⟨⟨k', v'⟩, hfind, rfl⟩ := Option.map_eq_some_iff.mp h
  have hkey : k' = k := of_decide_eq_true (List.find?_some hfind :)
  exact hkey ▸ List.mem_of_find?_eq_some hfind

theorem get_set_entry_same (k : K) (v : V) (es : List (K × V)) :
    get_entry k (set_entry k v es) = some v := by
  induction es with
  | nil => simp [set_entry, get_entry]
  | cons e es ih =>
    rw [set_entry]
    split
    · simp [get_entry]
    · simpa [get_entry, List.find?_cons, *] using ih

theorem get_set_entry_other {k k' : K} (h : k' ≠ k) (v : V) (es : List (K × V)) :
    get_entry k' (set_entry k v es) = get_entry k' es := by
  induction es with
  | nil => simp [set_entry, get_entry, Ne.symm h]
  | cons e es ih =>
    rw [set_entry]
    unfold get_entry at ih ⊢
    split
    · subst k
      simp [Ne.symm h]
    · rw [List.find?_cons, List.find?_cons]
      split
      · rfl
      · exact ih

theorem get_entry_cons (k : K) (e : K × V) (es : List (K × V)) :
    get_entry k (e :: es) = if e.1 = k then some e.2 else get_entry k es := by
  unfold get_entry
  rw [List.find?_cons]
  split
  · rw [if_pos (of_decide_eq_true ‹_›)]
    rfl
  · rw [if_neg (of_decide_eq_false ‹_›)]

theorem get_entry_absent {k : K} {es : List (K × V)} (h : k ∉ es.map Prod.fst) :
    get_entry k es = none := by
  cases hget : get_entry k es with
  | none => rfl
  | some v => exact absurd (List.mem_map.mpr ⟨(k, v), get_entry_mem hget, rfl⟩) h

theorem get_entry_map (f : V → V) (k : K) (es : List (K × V)) :
    get_entry k (es.map fun e => (e.1, f e.2)) = (get_entry k es).map f := by
  induction es with
  | nil => rfl
  | cons e es ih =>
    rw [List.map_cons, get_entry_cons, get_entry_cons, ih]
    split <;> rfl

theorem get_entry_filter {es : List (K × V)} (hnodup : (es.map Prod.fst).Nodup) (k : K)
    (p : V → Bool) :
    get_entry k (es.filter fun e => p e.2) = (get_entry k es).filter p := by
  induction es with
  | nil => rfl
  | cons e es ih =>
    obtain ⟨hnotin, hrest⟩ := List.nodup_cons.mp hnodup
    rw [get_entry_cons, List.filter_cons]
    by_cases hk : e.1 = k
    · subst hk
      rw [if_pos rfl]
      split
      · rw [get_entry_cons, if_pos rfl]
        simp [Option.filter, *]
      · rw [ih hrest, get_entry_absent hnotin]
        simp [Option.filter, *]
    · rw [if_neg hk]
      split
      · rw [get_entry_cons, if_neg hk, ih hrest]
      · exact ih hrest

/-- New keys that are set one after another come in their order. -/
theorem foldl_set_entry {es ts : List (K × V)} (h : ((ts ++ es).map Prod.fst).Nodup) :
    es.foldl (fun t e => set_entry e.1 e.2 t) ts = ts ++ es := by
  induction es generalizing ts with
  | nil => exact (List.append_nil ts).symm
  | cons e es ih =>
    have hnew : e.1 ∉ ts.map Prod.fst := by
      intro hmem
      rw [List.map_append, List.map_cons] at h
      exact List.disjoint_of_nodup_append h hmem (List.mem_cons_self ..)
    have hassoc : ts ++ [e] ++ es = ts ++ e :: es := by
      rw [List.append_assoc, List.singleton_append]
    rw [List.foldl_cons, set_entry_new hnew, ih (by rwa [hassoc]), hassoc]

end entries
