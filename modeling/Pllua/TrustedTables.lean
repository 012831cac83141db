-- Tables of a Lua state, and the recursion of `trusted.c` that visits each table of a graph once
-- and makes another one for it, in the modes "copy" and "proxy".
import Pllua.Entries
import Mathlib.Data.List.Nodup
import Mathlib.Data.List.Perm.Subperm
import Mathlib.Logic.Function.Basic
import Mathlib.Logic.Relation
import Mathlib.Tactic.Common

open entries

namespace pllua.tables

/-! ## Tables -/

/-- A value. Functions and all that is neither a table, a string nor a boolean only have an identity
here, and `wrap` is the closure that the proxy mode makes of a function and its first argument. -/
inductive Val
  | table (t : Nat)
  | str (s : String)
  | bool (b : Bool)
  | func (f : Nat)
  | wrap (f self : Val)
  | other (n : Nat)
deriving DecidableEq

def Val.is_table : Val → Bool
  | .table _ => true
  | _ => false

/-- A table: its entries in the order of `lua_next`. -/
structure Table where
  entries : List (Val × Val)
  metatable : Option Nat

/-- The tables of a state. Those from `next` on are not in use. -/
structure Store where
  table : Nat → Table
  next : Nat

namespace Store

def rawget (s : Store) (t : Nat) (k : Val) : Option Val :=
  get_entry k (s.table t).entries

def update (s : Store) (t : Nat) (f : Table → Table) : Store :=
  { s with table := Function.update s.table t (f (s.table t)) }

def rawset (s : Store) (t : Nat) (k v : Val) : Store :=
  s.update t fun x => { x with entries := set_entry k v x.entries }

/-- `lua_newtable`: the new table is the one at `next`. -/
def newtable (s : Store) : Store :=
  { table := Function.update s.table s.next ⟨[], none⟩, next := s.next + 1 }

@[simp] theorem update_next (s : Store) (t : Nat) (f : Table → Table) :
    (s.update t f).next = s.next := rfl

@[simp] theorem update_same (s : Store) (t : Nat) (f : Table → Table) :
    (s.update t f).table t = f (s.table t) := by simp [update]

theorem update_other (s : Store) {t x : Nat} (h : x ≠ t) (f : Table → Table) :
    (s.update t f).table x = s.table x := by simp [update, h]

@[simp] theorem rawset_next (s : Store) (t : Nat) (k v : Val) : (s.rawset t k v).next = s.next :=
  rfl

@[simp] theorem rawset_entries (s : Store) (t : Nat) (k v : Val) :
    ((s.rawset t k v).table t).entries = set_entry k v (s.table t).entries := by simp [rawset]

@[simp] theorem rawset_metatable (s : Store) (t : Nat) (k v : Val) :
    ((s.rawset t k v).table t).metatable = (s.table t).metatable := by simp [rawset]

theorem rawset_other (s : Store) {t x : Nat} (h : x ≠ t) (k v : Val) :
    (s.rawset t k v).table x = s.table x := s.update_other h _

@[simp] theorem newtable_next (s : Store) : s.newtable.next = s.next + 1 := rfl

@[simp] theorem newtable_same (s : Store) : s.newtable.table s.next = ⟨[], none⟩ := by
  simp [newtable]

theorem newtable_other (s : Store) {x : Nat} (h : x < s.next) :
    s.newtable.table x = s.table x := by
  simp [newtable, Nat.ne_of_lt h]

end Store

/-- A state with tables whose values and metatables are tables in use, and whose keys are distinct. -/
structure Heap where
  store : Store
  closed : ∀ u < store.next, ∀ k v, (k, .table v) ∈ (store.table u).entries → v < store.next
  metatables : ∀ u < store.next, ∀ m, (store.table u).metatable = some m → m < store.next
  distinct : ∀ u < store.next, ((store.table u).entries.map Prod.fst).Nodup

def Val.in_use (next : Nat) : Val → Bool
  | .table u => u < next
  | _ => true

/-- The check that all tables of a state refer to tables in use and have distinct keys. -/
def Store.sound (s : Store) : Prop :=
  ∀ u < s.next, (∀ e ∈ (s.table u).entries, e.2.in_use s.next = true) ∧
    (s.table u).metatable.all (fun m => decide (m < s.next)) = true ∧
    ((s.table u).entries.map Prod.fst).Nodup

instance (s : Store) : Decidable s.sound := by
  unfold Store.sound
  infer_instance

def Heap.of (s : Store) (h : s.sound) : Heap where
  store := s
  closed := fun u hu _ _ hmem => of_decide_eq_true ((h u hu).1 _ hmem)
  metatables := fun u hu m hm => by
    have hall := (h u hu).2.1
    rw [hm] at hall
    exact of_decide_eq_true hall
  distinct := fun u hu => (h u hu).2.2

/-- The state with the tables of a list. -/
def Store.of (tables : List Table) : Store := ⟨fun u => tables.getD u ⟨[], none⟩, tables.length⟩

/-- A table has another one as a value. -/
def Store.Child (s : Store) (u v : Nat) : Prop := ∃ k, (k, .table v) ∈ (s.table u).entries

namespace Heap
variable (h : Heap)

def Child : Nat → Nat → Prop := h.store.Child

/-- A table that is a value of a value, and so on. -/
def Reach : Nat → Nat → Prop := Relation.ReflTransGen h.Child

/-- Calls within calls, each for another table than those before it, are fewer than the limit. -/
def Nests (limit root : Nat) : Prop :=
  ∀ p : List Nat, p.head? = some root → p.IsChain h.Child → p.Nodup → p.length < limit

theorem reach_in_use {root u : Nat} (hroot : root < h.store.next) (hu : h.Reach root u) :
    u < h.store.next := by
  induction hu with
  | refl => exact hroot
  | tail _ hchild ih =>
    obtain ⟨k, hk⟩ := hchild
    exact h.closed _ ih k _ hk

theorem chain_in_use {p : List Nat} (hchain : p.IsChain h.Child)
    (hhead : ∀ u, p.head? = some u → u < h.store.next) : ∀ v ∈ p, v < h.store.next := by
  induction p with
  | nil => exact fun v hv => (by cases hv)
  | cons u p ih =>
    have hu := hhead u rfl
    intro v hv
    rcases List.mem_cons.mp hv with rfl | hv
    · exact hu
    · refine ih hchain.of_cons (fun w hw => ?_) v hv
      cases p with
      | nil => cases hw
      | cons x p =>
        obtain rfl : x = w := Option.some.inj hw
        obtain ⟨k, hk⟩ := (List.isChain_cons_cons.mp hchain).1
        exact h.closed u hu k x hk

/-- Fewer tables than the limit never nest too deeply, whatever they refer to. -/
theorem nests_of_few {limit root : Nat} (hroot : root < h.store.next)
    (hfew : h.store.next < limit) : h.Nests limit root := by
  intro p hhead hchain hnodup
  have hin := h.chain_in_use hchain fun u hu => by
    obtain rfl : root = u := Option.some.inj (hhead.symm.trans hu)
    exact hroot
  have hsub : p ⊆ List.range h.store.next := fun v hv => List.mem_range.mpr (hin v hv)
  have hlen := (List.subperm_of_subset hnodup hsub).length_le
  rw [List.length_range] at hlen
  omega

end Heap

/-! ## The recursion -/

/-- The state with the memo table. -/
structure State where
  store : Store
  memo : Nat → Option Nat

def State.rawset (s : State) (t : Nat) (k v : Val) : State :=
  { s with store := s.store.rawset t k v }

/-- What the two modes do differently: the tables that are made for one of the module, of which the
first stands for it, and whether the values that are no tables are set in it. Where the C code has no
meaning nothing is made. -/
structure Mode where
  size : Nat
  make : Nat → Store → Option Store
  keep : Bool

variable (mode : Mode)

/-- The loop over the entries of a table, with the function that is called for a table. -/
def mode_entries (inner : Nat → State → Option (Nat × State)) (t : Nat) :
    List (Val × Val) → State → Option State
  | [], s => some s
  | (k, .table u) :: rest, s =>
    (inner u s).bind fun r => mode_entries inner t rest (r.2.rawset t k (.table r.1))
  | (k, v) :: rest, s => mode_entries inner t rest (if mode.keep then s.rawset t k v else s)

/-- What was made for a table is entered in the memo table. -/
def State.enter (s : State) (u : Nat) (made : Store) : State :=
  { store := made, memo := Function.update s.memo u (some s.store.next) }

/-- The function that is called for a table, with what is left of the depth of calls. -/
def mode_inner : Nat → Nat → State → Option (Nat × State)
  | 0, _, _ => none
  | depth + 1, u, s =>
    match s.memo u with
    | some t => some (t, s)
    | none => (mode.make u s.store).bind fun made =>
      (mode_entries mode (mode_inner depth) s.store.next (made.table u).entries
        (s.enter u made)).map fun s' => (s.store.next, s')

/-- The adapter: anything but a table is returned as it is, and a table with an empty memo table. -/
def mode_outer (limit : Nat) : Val → Store → Option (Val × Store)
  | .table u, s => (mode_inner mode limit u ⟨s, fun _ => none⟩).map fun r => (.table r.1, r.2.store)
  | v, s => some (v, s)

/-! ## What a new table is to be -/

/-- A value in a new table: the table that stands for it, if it is one. -/
def image (memo : Nat → Option Nat) : Val → Val
  | .table u =>
    match memo u with
    | some t => .table t
    | none => .table u
  | v => v

/-- The entries that are set in a new table. -/
def kept (es : List (Val × Val)) : List (Val × Val) :=
  es.filter fun e => mode.keep || e.2.is_table

def images (memo : Nat → Option Nat) (es : List (Val × Val)) : List (Val × Val) :=
  (kept mode es).map fun e => (e.1, image memo e.2)

/-- What is made for `u` with the first table at `t` is as `shape` says, whatever its entries. -/
structure Makes (h : Heap) (shape : Nat → Nat → Store → Prop) (root : Nat) : Prop where
  size_pos : 0 < mode.size
  next : ∀ u s made, mode.make u s = some made → made.next = s.next + mode.size
  frame : ∀ u s made x, mode.make u s = some made → x < s.next → made.table x = s.table x
  empty : ∀ u s made, mode.make u s = some made → (made.table s.next).entries = []
  makes : ∀ u s, u < h.store.next → h.Reach root u → h.store.next ≤ s.next →
    (∀ x < h.store.next, s.table x = h.store.table x) →
    ∃ made, mode.make u s = some made ∧ shape u s.next made
  stable : ∀ u t s s', shape u t s → (∀ x, t < x → x < t + mode.size → s'.table x = s.table x) →
    (s'.table t).metatable = (s.table t).metatable → shape u t s'

/-- The tables of the module are as they were, and each table in the memo table is one of them, with a
new table of its own. -/
structure Inv (h : Heap) (s : State) : Prop where
  originals : ∀ x < h.store.next, s.store.table x = h.store.table x
  next : h.store.next ≤ s.store.next
  domain : ∀ u t, s.memo u = some t →
    u < h.store.next ∧ h.store.next ≤ t ∧ t + mode.size ≤ s.store.next
  inj : ∀ u u' t, s.memo u = some t → s.memo u' = some t → u = u'
  apart : ∀ u u' t t', s.memo u = some t → s.memo u' = some t' → t < t' → t + mode.size ≤ t'
  covered : ∀ x, h.store.next ≤ x → x < s.store.next →
    ∃ u t, s.memo u = some t ∧ t ≤ x ∧ x < t + mode.size

/-- The new table is filled, and the tables it refers to are in the memo table. -/
structure Complete (h : Heap) (s : State) (u t : Nat) : Prop where
  entries : (s.store.table t).entries = images mode s.memo (h.store.table u).entries
  children : ∀ v, h.Child u v → (s.memo v).isSome

/-- What the calls leave from a state to a later one, when the table at `w` is being filled. -/
structure After (h : Heap) (shape : Nat → Nat → Store → Prop) (root w : Nat) (s s' : State) :
    Prop where
  inv : Inv mode h s'
  memo : ∀ u t, s.memo u = some t → s'.memo u = some t
  next : s.store.next ≤ s'.store.next
  frame : ∀ x < s.store.next, x ≠ w → s'.store.table x = s.store.table x
  fresh : ∀ u t, s.memo u = none → s'.memo u = some t →
    s.store.next ≤ t ∧ h.Reach root u ∧ Complete mode h s' u t ∧ shape u t s'.store

section
variable {mode} {h : Heap} {shape : Nat → Nat → Store → Prop} {root w : Nat}

theorem image_extends {memo memo' : Nat → Option Nat} (hext : ∀ u t, memo u = some t →
    memo' u = some t) {v : Val} (hv : ∀ u, v = .table u → (memo u).isSome) :
    image memo' v = image memo v := by
  cases v with
  | table u =>
    obtain ⟨t, ht⟩ := Option.isSome_iff_exists.mp (hv u rfl)
    simp only [image, ht, hext u t ht]
  | _ => rfl

/-- Entries whose tables are all known keep their images. -/
theorem images_extends {memo memo' : Nat → Option Nat} (hext : ∀ u t, memo u = some t →
    memo' u = some t) {es : List (Val × Val)}
    (hknown : ∀ k v, (k, .table v) ∈ es → (memo v).isSome) :
    images mode memo' es = images mode memo es := by
  unfold images
  apply List.map_congr_left
  intro e he
  have mem := (List.mem_filter.mp he).1
  have same := image_extends hext (v := e.2) fun v hv => hknown e.1 v (hv ▸ mem)
  rw [same]

theorem known_extends {memo memo' : Nat → Option Nat} (hext : ∀ u t, memo u = some t →
    memo' u = some t) {v : Nat} (hv : (memo v).isSome) : (memo' v).isSome := by
  obtain ⟨x, hx⟩ := Option.isSome_iff_exists.mp hv
  rw [hext v x hx]
  rfl

/-- A filled table stays filled where it is not written to. -/
theorem Complete.later {s s' : State} {u t : Nat} (hc : Complete mode h s u t)
    (hext : ∀ u t, s.memo u = some t → s'.memo u = some t)
    (hentries : (s'.store.table t).entries = (s.store.table t).entries) :
    Complete mode h s' u t where
  entries := by
    rw [hentries, hc.entries, images_extends hext fun k v hv => hc.children v ⟨k, hv⟩]
  children := fun v hv => known_extends hext (hc.children v hv)

/-! ## The invariant through the calls -/

/-- The invariant does not look at the entries of new tables. -/
theorem Inv.rawset {s : State} (hinv : Inv mode h s) {t : Nat} (ht : h.store.next ≤ t)
    (k v : Val) : Inv mode h (s.rawset t k v) where
  originals := fun x hx => by
    have hne : x ≠ t := by omega
    exact (s.store.rawset_other hne k v).trans (hinv.originals x hx)
  next := hinv.next
  domain := hinv.domain
  inj := hinv.inj
  apart := hinv.apart
  covered := hinv.covered

theorem Inv.enter (hmakes : Makes mode h shape root) {s : State} (hinv : Inv mode h s) {u : Nat}
    (hu : u < h.store.next) (hnone : s.memo u = none) {made : Store}
    (hmade : mode.make u s.store = some made) : Inv mode h (s.enter u made) := by
  have hnext : (s.enter u made).store.next = s.store.next + mode.size :=
    hmakes.next u s.store made hmade
  have hold (w t : Nat) (hw : s.memo w = some t) : t + mode.size ≤ s.store.next :=
    (hinv.domain w t hw).2.2
  have hpos := hmakes.size_pos
  -- a memo entry is the new one or an old one
  have cases_memo (w t : Nat) (hw : (s.enter u made).memo w = some t) :
      (w = u ∧ t = s.store.next) ∨ s.memo w = some t := by
    simp only [State.enter, Function.update_apply] at hw
    split at hw
    · exact .inl ⟨‹w = u›, (Option.some.inj hw).symm⟩
    · exact .inr hw
  refine ⟨?_, ?_, ?_, ?_, ?_, ?_⟩
  · intro x hx
    have hlt : x < s.store.next := Nat.lt_of_lt_of_le hx hinv.next
    exact (hmakes.frame u s.store made x hmade hlt).trans (hinv.originals x hx)
  · have := hinv.next
    omega
  · intro w t hw
    rcases cases_memo w t hw with ⟨rfl, rfl⟩ | hw
    · exact ⟨hu, hinv.next, by omega⟩
    · obtain ⟨h1, h2, h3⟩ := hinv.domain w t hw
      exact ⟨h1, h2, by omega⟩
  · intro w w' t hw hw'
    rcases cases_memo w t hw with ⟨rfl, rfl⟩ | hw <;>
      rcases cases_memo w' _ hw' with ⟨h1, h2⟩ | hw'
    · exact h1.symm
    · have := hold w' _ hw'
      omega
    · have := hold w t hw
      omega
    · exact hinv.inj w w' t hw hw'
  · intro w w' t t' hw hw' hlt
    rcases cases_memo w t hw with ⟨rfl, rfl⟩ | hw <;>
      rcases cases_memo w' t' hw' with ⟨h1, h2⟩ | hw'
    · omega
    · have := hold w' t' hw'
      omega
    · have := hold w t hw
      omega
    · exact hinv.apart w w' t t' hw hw' hlt
  · intro x hle hlt
    rw [hnext] at hlt
    by_cases hold' : x < s.store.next
    · obtain ⟨w, t, hw, hrange⟩ := hinv.covered x hle hold'
      have hne : w ≠ u := by
        rintro rfl
        rw [hnone] at hw
        cases hw
      exact ⟨w, t, (Function.update_of_ne hne _ _).trans hw, hrange⟩
    · exact ⟨u, s.store.next, Function.update_self .., by omega, hlt⟩

theorem After.refl {s : State} (hinv : Inv mode h s) : After mode h shape root w s s where
  inv := hinv
  memo := fun _ _ h => h
  next := Nat.le_refl _
  frame := fun _ _ _ => rfl
  fresh := fun u t hnone hsome => by
    rw [hnone] at hsome
    cases hsome

/-- A call that fills no table of the state leaves it the more when one is being filled. -/
theorem After.weaken {s s' : State} (ha : After mode h shape root s.store.next s s') (w : Nat) :
    After mode h shape root w s s' :=
  { ha with frame := fun x hx _ => ha.frame x hx (Nat.ne_of_lt hx) }

theorem After.trans (hmakes : Makes mode h shape root) {s₁ s₂ s₃ : State}
    (hw : w < s₁.store.next) (ha : After mode h shape root w s₁ s₂)
    (hb : After mode h shape root w s₂ s₃) : After mode h shape root w s₁ s₃ where
  inv := hb.inv
  memo := fun u t hu => hb.memo u t (ha.memo u t hu)
  next := Nat.le_trans ha.next hb.next
  frame := fun x hx hne =>
    (hb.frame x (Nat.lt_of_lt_of_le hx ha.next) hne).trans (ha.frame x hx hne)
  fresh := by
    intro u t hnone hsome
    have hnext := ha.next
    cases hu : s₂.memo u with
    | none =>
      obtain ⟨hle, hrest⟩ := hb.fresh u t hu hsome
      exact ⟨by omega, hrest⟩
    | some t₂ =>
      -- filled by the first part, and the second does not write to it
      obtain rfl : t₂ = t := Option.some.inj ((hb.memo u t₂ hu).symm.trans hsome)
      obtain ⟨hle, hreach, hcomplete, hshape⟩ := ha.fresh u t₂ hnone hu
      have hsize := (ha.inv.domain u t₂ hu).2.2
      have hpos := hmakes.size_pos
      have same (x : Nat) (h1 : t₂ ≤ x) (h2 : x < t₂ + mode.size) :
          s₃.store.table x = s₂.store.table x := hb.frame x (by omega) (by omega)
      have first := same t₂ (Nat.le_refl _) (by omega)
      exact ⟨hle, hreach, hcomplete.later hb.memo (by rw [first]),
        hmakes.stable u t₂ _ _ hshape (fun x h1 h2 => same x (by omega) h2) (by rw [first])⟩

/-- An entry is set in the table that is being filled. -/
theorem After.rawset {s : State} (hinv : Inv mode h s) (hw : h.store.next ≤ w) (k v : Val) :
    After mode h shape root w s (s.rawset w k v) where
  inv := hinv.rawset hw k v
  memo := fun _ _ h => h
  next := Nat.le_refl _
  frame := fun x _ hne => s.store.rawset_other hne k v
  fresh := fun u t hnone hsome => by
    rw [show (s.rawset w k v).memo u = s.memo u from rfl, hnone] at hsome
    cases hsome

/-! ## What a call makes -/

/-- A call for a table of the module returns the table that stands for it. -/
def InnerMakes (mode : Mode) (h : Heap) (shape : Nat → Nat → Store → Prop) (root : Nat)
    (inner : Nat → State → Option (Nat × State)) : Prop :=
  ∀ u s t s', u < h.store.next → h.Reach root u → Inv mode h s → inner u s = some (t, s') →
    After mode h shape root s.store.next s s' ∧ s'.memo u = some t

/-- What the loop leaves when it has set the entries `es` in the table at `w`. -/
structure Filled (mode : Mode) (h : Heap) (shape : Nat → Nat → Store → Prop) (root w : Nat)
    (es : List (Val × Val)) (s s' : State) : Prop where
  after : After mode h shape root w s s'
  entries : (s'.store.table w).entries = (s.store.table w).entries ++ images mode s'.memo es
  metatable : (s'.store.table w).metatable = (s.store.table w).metatable
  known : ∀ k v, (k, .table v) ∈ es → (s'.memo v).isSome

/-- The keys that are still to come are new to the table. -/
def NewKeys (s : State) (w : Nat) (es : List (Val × Val)) : Prop :=
  (((s.store.table w).entries ++ es).map Prod.fst).Nodup

theorem images_cons (memo : Nat → Option Nat) (e : Val × Val) (es : List (Val × Val)) :
    images mode memo (e :: es) =
      (if mode.keep || e.2.is_table then [(e.1, image memo e.2)] else []) ++
        images mode memo es := by
  unfold images kept
  rw [List.filter_cons]
  split <;> rfl

theorem NewKeys.skip {s : State} {e : Val × Val} {es : List (Val × Val)}
    (hnew : NewKeys s w (e :: es)) : NewKeys s w es := by
  unfold NewKeys at hnew ⊢
  rw [List.map_append, List.map_cons] at hnew
  rw [List.map_append]
  exact hnew.sublist ((List.Sublist.refl _).append (List.sublist_cons_self _ _))

theorem NewKeys.fresh {s : State} {k v : Val} {es : List (Val × Val)}
    (hnew : NewKeys s w ((k, v) :: es)) : k ∉ (s.store.table w).entries.map Prod.fst := by
  intro hmem
  unfold NewKeys at hnew
  rw [List.map_append, List.map_cons] at hnew
  exact (List.disjoint_of_nodup_append hnew) hmem (List.mem_cons_self ..)

theorem NewKeys.set {s : State} {k v : Val} {es : List (Val × Val)}
    (hnew : NewKeys s w ((k, v) :: es)) (v' : Val) : NewKeys (s.rawset w k v') w es := by
  have hfresh := hnew.fresh
  unfold NewKeys at hnew ⊢
  rw [State.rawset, Store.rawset_entries, set_entry_new hfresh]
  simpa only [List.map_append, List.map_cons, List.map_nil, List.append_assoc,
    List.singleton_append] using hnew

theorem Filled.nil {s : State} (hinv : Inv mode h s) : Filled mode h shape root w [] s s where
  after := .refl hinv
  entries := (List.append_nil _).symm
  metatable := rfl
  known := fun _ _ hmem => (by cases hmem)

/-- An entry is set, and the rest after it. -/
theorem Filled.set {s s' : State} {k v v' : Val} {es : List (Val × Val)} (hinv : Inv mode h s)
    (hmakes : Makes mode h shape root) (hw : h.store.next ≤ w) (hlt : w < s.store.next)
    (hnew : NewKeys s w ((k, v) :: es)) (hkept : (mode.keep || v.is_table) = true)
    (hf : Filled mode h shape root w es (s.rawset w k v') s')
    (himage : image s'.memo v = v') (hknown : ∀ u, v = .table u → (s'.memo u).isSome) :
    Filled mode h shape root w ((k, v) :: es) s s' where
  after := (After.rawset hinv hw k v').trans hmakes hlt hf.after
  entries := by
    rw [hf.entries, State.rawset, Store.rawset_entries, set_entry_new hnew.fresh, images_cons,
      if_pos hkept, himage, List.append_assoc]
  metatable := hf.metatable.trans (s.store.rawset_metatable w k v')
  known := by
    intro k' u hmem
    rcases List.mem_cons.mp hmem with heq | hmem
    · exact hknown u (Prod.mk.inj heq).2.symm
    · exact hf.known k' u hmem

/-- What a call left, and the entries that were set after it. -/
theorem Filled.before {s s₁ s' : State} {es : List (Val × Val)} (hmakes : Makes mode h shape root)
    (hlt : w < s.store.next) (ha : After mode h shape root s.store.next s s₁)
    (hf : Filled mode h shape root w es s₁ s') : Filled mode h shape root w es s s' where
  after := (ha.weaken w).trans hmakes hlt hf.after
  entries := by rw [hf.entries, ha.frame w hlt (Nat.ne_of_lt hlt)]
  metatable := by rw [hf.metatable, ha.frame w hlt (Nat.ne_of_lt hlt)]
  known := hf.known

theorem mode_entries_fills (hmakes : Makes mode h shape root)
    {inner : Nat → State → Option (Nat × State)} (hinner : InnerMakes mode h shape root inner)
    (hw : h.store.next ≤ w) {es : List (Val × Val)} {s s' : State}
    (hlt : w < s.store.next) (hinv : Inv mode h s) (hnew : NewKeys s w es)
    (hin : ∀ k v, (k, .table v) ∈ es → v < h.store.next ∧ h.Reach root v)
    (hrun : mode_entries mode inner w es s = some s') :
    Filled mode h shape root w es s s' := by
  induction es generalizing s with
  | nil =>
    obtain rfl : s = s' := Option.some.inj hrun
    exact .nil hinv
  | cons e es ih =>
    obtain ⟨k, v⟩ := e
    have hrest : ∀ k v, (k, .table v) ∈ es → v < h.store.next ∧ h.Reach root v :=
      fun k v hmem => hin k v (List.mem_cons_of_mem _ hmem)
    cases v with
    | table u =>
      obtain ⟨hu, hreach⟩ := hin k u (List.mem_cons_self ..)
      rw [mode_entries] at hrun
      obtain ⟨⟨t, s₁⟩, hcall, hrun⟩ := Option.bind_eq_some_iff.mp hrun
      obtain ⟨ha, hmemo⟩ := hinner u s t s₁ hu hreach hinv hcall
      -- the call has left the table that is being filled as it was
      have same : s₁.store.table w = s.store.table w := ha.frame w hlt (Nat.ne_of_lt hlt)
      have hlt₁ : w < s₁.store.next := Nat.lt_of_lt_of_le hlt ha.next
      have hnew₁ : NewKeys s₁ w ((k, .table u) :: es) := by
        unfold NewKeys
        rw [same]
        exact hnew
      have hf := ih (s := s₁.rawset w k (.table t)) hlt₁ (ha.inv.rawset hw _ _)
        (hnew₁.set (.table t)) hrest hrun
      have hmemo' : s'.memo u = some t := hf.after.memo u t hmemo
      refine .before hmakes hlt ha (.set ha.inv hmakes hw hlt₁ hnew₁ (by simp [Val.is_table]) hf ?_ ?_)
      · simp only [image, hmemo']
      · intro u' heq
        rw [← Val.table.inj heq, hmemo']
        rfl
    | _ =>
      rw [mode_entries] at hrun
      · cases hkeep : mode.keep with
        | true =>
          rw [hkeep, if_pos rfl] at hrun
          have hf := ih (s := s.rawset w k _) hlt (hinv.rawset hw _ _) (hnew.set _) hrest hrun
          exact .set hinv hmakes hw hlt hnew (by simp [hkeep]) hf rfl fun u heq => (by cases heq)
        | false =>
          rw [hkeep, if_neg Bool.false_ne_true] at hrun
          have hf := ih hlt hinv hnew.skip hrest hrun
          refine ⟨hf.after, ?_, hf.metatable, ?_⟩
          · rw [hf.entries, images_cons, hkeep]
            rfl
          · intro k' u hmem
            rcases List.mem_cons.mp hmem with heq | hmem
            · cases heq
            · exact hf.known k' u hmem
      · intro u heq
        cases heq

/-- The entries of a table of the module, in a state where the module is as it was. -/
theorem made_entries (hmakes : Makes mode h shape root) {s : State} (hinv : Inv mode h s)
    {u : Nat} (hu : u < h.store.next) {made : Store} (hmade : mode.make u s.store = some made) :
    made.table u = h.store.table u :=
  (hmakes.frame u s.store made u hmade (Nat.lt_of_lt_of_le hu hinv.next)).trans
    (hinv.originals u hu)

/-- A new table has no entries yet, and those of the module's table have different keys. -/
theorem entered_keys (hmakes : Makes mode h shape root) {s : State} {u : Nat}
    (hu : u < h.store.next) {made : Store} (hmade : mode.make u s.store = some made) :
    NewKeys (s.enter u made) s.store.next (h.store.table u).entries := by
  have empty : ((s.enter u made).store.table s.store.next).entries = [] :=
    hmakes.empty u s.store made hmade
  unfold NewKeys
  rw [empty]
  exact h.distinct u hu

/-- What a call for a table leaves that is not in the memo table. -/
theorem After.entered (hmakes : Makes mode h shape root) {s s' : State} {u : Nat}
    (hu : u < h.store.next) (hreach : h.Reach root u) (hinv : Inv mode h s)
    (hnone : s.memo u = none) {made : Store} (hmade : mode.make u s.store = some made)
    (hf : Filled mode h shape root s.store.next (h.store.table u).entries (s.enter u made) s') :
    After mode h shape root s.store.next s s' ∧ s'.memo u = some s.store.next := by
  have hpos := hmakes.size_pos
  have hnext : (s.enter u made).store.next = s.store.next + mode.size :=
    hmakes.next u s.store made hmade
  have hle := hf.after.next
  have hmemo : s'.memo u = some s.store.next :=
    hf.after.memo u _ (by simp [State.enter])
  have frame (x : Nat) (hx : x < s.store.next + mode.size) (hne : x ≠ s.store.next) :
      s'.store.table x = made.table x := hf.after.frame x (by omega) hne
  have old (v : Nat) (hne : v ≠ u) : (s.enter u made).memo v = s.memo v :=
    Function.update_of_ne hne _ _
  refine ⟨⟨hf.after.inv, ?_, by omega, ?_, ?_⟩, hmemo⟩
  · intro v t hv
    have hne : v ≠ u := by
      rintro rfl
      rw [hnone] at hv
      cases hv
    exact hf.after.memo v t ((old v hne).trans hv)
  · intro x hx _
    exact (frame x (by omega) (by omega)).trans (hmakes.frame u s.store made x hmade hx)
  · intro v t hv hsome
    by_cases hne : v = u
    · subst hne
      obtain rfl : s.store.next = t := Option.some.inj (hmemo.symm.trans hsome)
      have empty : ((s.enter v made).store.table s.store.next).entries = [] :=
        hmakes.empty v s.store made hmade
      obtain ⟨made', hmade', hshape⟩ := hmakes.makes v s.store hu hreach hinv.next hinv.originals
      obtain rfl : made' = made := Option.some.inj (hmade'.symm.trans hmade)
      refine ⟨Nat.le_refl _, hreach, ⟨?_, fun w' hw' => ?_⟩, ?_⟩
      · rw [hf.entries, empty, List.nil_append]
      · obtain ⟨k, hk⟩ := hw'
        exact hf.known k w' hk
      · exact hmakes.stable v _ _ _ hshape (fun x h1 h2 => frame x h2 (by omega)) hf.metatable
    · obtain ⟨h1, hrest⟩ := hf.after.fresh v t ((old v hne).trans hv) hsome
      exact ⟨by omega, hrest⟩

theorem mode_inner_makes (hmakes : Makes mode h shape root) (depth : Nat) :
    InnerMakes mode h shape root (mode_inner mode depth) := by
  induction depth with
  | zero =>
    intro u s t s' _ _ _ hrun
    cases hrun
  | succ depth ih =>
    intro u s t s' hu hreach hinv hrun
    rw [mode_inner] at hrun
    cases hmemo : s.memo u with
    | some t' =>
      rw [hmemo] at hrun
      obtain ⟨rfl, rfl⟩ := Prod.mk.inj (Option.some.inj hrun)
      exact ⟨.refl hinv, hmemo⟩
    | none =>
      simp only [hmemo] at hrun
      obtain ⟨made, hmade, hrun⟩ := Option.bind_eq_some_iff.mp hrun
      obtain ⟨s'', hloop, hret⟩ := Option.map_eq_some_iff.mp hrun
      obtain ⟨rfl, rfl⟩ := Prod.mk.inj hret
      rw [made_entries hmakes hinv hu hmade] at hloop
      have hlt : s.store.next < (s.enter u made).store.next := by
        have hpos := hmakes.size_pos
        have hnext : (s.enter u made).store.next = s.store.next + mode.size :=
          hmakes.next u s.store made hmade
        omega
      have hf := mode_entries_fills hmakes ih hinv.next hlt (hinv.enter hmakes hu hmemo hmade)
        (entered_keys hmakes hu hmade)
        (fun k v hmem => ⟨h.closed u hu k v hmem, hreach.tail ⟨k, hmem⟩⟩) hloop
      exact After.entered hmakes hu hreach hinv hmemo hmade hf

/-! ## The depth of the calls -/

/-- Tables that are not known yet, each a value of the one before, are fewer than the depth. -/
def Shallow (h : Heap) (depth : Nat) (memo : Nat → Option Nat) (u : Nat) : Prop :=
  0 < depth ∧ ∀ p : List Nat, p.head? = some u → p.IsChain h.Child → p.Nodup →
    (∀ v ∈ p, memo v = none) → p.length < depth

theorem Shallow.later {depth u : Nat} {memo memo' : Nat → Option Nat}
    (hs : Shallow h depth memo u) (hext : ∀ u t, memo u = some t → memo' u = some t) :
    Shallow h depth memo' u := by
  refine ⟨hs.1, fun p hhead hchain hnodup hnew => hs.2 p hhead hchain hnodup fun v hv => ?_⟩
  cases hmemo : memo v with
  | none => rfl
  | some t => rw [← hnew v hv, hext v t hmemo]

theorem Shallow.child {depth u v : Nat} {memo : Nat → Option Nat} (t : Nat)
    (hs : Shallow h (depth + 1) memo u) (hu : memo u = none) (hchild : h.Child u v) :
    Shallow h depth (Function.update memo u (some t)) v := by
  constructor
  · have := hs.2 [u] rfl (.singleton u) (List.nodup_singleton u) (by simpa using hu)
    simpa using this
  · intro p hhead hchain hnodup hnew
    -- the table itself is known now, so it can stand before the others
    have hnotin : u ∉ p := fun hmem => by
      have := hnew u hmem
      rw [Function.update_self] at this
      cases this
    have hlen := hs.2 (u :: p) rfl ?_ (List.nodup_cons.mpr ⟨hnotin, hnodup⟩) ?_
    · rw [List.length_cons] at hlen
      omega
    · cases p with
      | nil => exact .singleton u
      | cons x p =>
        obtain rfl : x = v := Option.some.inj hhead
        exact .cons_cons hchild hchain
    · intro w hw
      rcases List.mem_cons.mp hw with rfl | hw
      · exact hu
      · have hne : w ≠ u := fun heq => hnotin (heq ▸ hw)
        rw [← hnew w hw, Function.update_of_ne hne]

theorem mode_entries_returns
    {inner : Nat → State → Option (Nat × State)} (hinner : InnerMakes mode h shape root inner)
    {depth : Nat} (hreturns : ∀ v s, v < h.store.next → h.Reach root v → Inv mode h s →
      Shallow h depth s.memo v → (inner v s).isSome)
    (hw : h.store.next ≤ w) {es : List (Val × Val)} {s : State} (hinv : Inv mode h s)
    (hin : ∀ k v, (k, .table v) ∈ es →
      v < h.store.next ∧ h.Reach root v ∧ Shallow h depth s.memo v) :
    (mode_entries mode inner w es s).isSome := by
  induction es generalizing s with
  | nil => rfl
  | cons e es ih =>
    obtain ⟨k, v⟩ := e
    cases v with
    | table u =>
      obtain ⟨hu, hreach, hshallow⟩ := hin k u (List.mem_cons_self ..)
      obtain ⟨⟨t, s₁⟩, hcall⟩ := Option.isSome_iff_exists.mp (hreturns u s hu hreach hinv hshallow)
      have ha := (hinner u s t s₁ hu hreach hinv hcall).1
      rw [mode_entries, hcall, Option.bind_some]
      apply ih (ha.inv.rawset hw _ _)
      intro k' v hmem
      obtain ⟨h1, h2, h3⟩ := hin k' v (List.mem_cons_of_mem _ hmem)
      exact ⟨h1, h2, h3.later ha.memo⟩
    | _ =>
      rw [mode_entries]
      · apply ih
        · split
          · exact hinv.rawset hw _ _
          · exact hinv
        · intro k' v hmem
          have := hin k' v (List.mem_cons_of_mem _ hmem)
          split <;> exact this
      · intro u heq
        cases heq

theorem mode_inner_returns (hmakes : Makes mode h shape root) (depth : Nat) : ∀ u s,
    u < h.store.next → h.Reach root u → Inv mode h s → Shallow h depth s.memo u →
      (mode_inner mode depth u s).isSome := by
  induction depth with
  | zero =>
    intro u s _ _ _ hs
    exact absurd hs.1 (Nat.lt_irrefl 0)
  | succ depth ih =>
    intro u s hu hreach hinv hs
    rw [mode_inner]
    cases hmemo : s.memo u with
    | some t => rfl
    | none =>
      obtain ⟨made, hmade, -⟩ := hmakes.makes u s.store hu hreach hinv.next hinv.originals
      simp only [hmade, Option.bind_some, Option.isSome_map]
      rw [made_entries hmakes hinv hu hmade]
      exact mode_entries_returns (mode_inner_makes hmakes depth) ih hinv.next
        (hinv.enter hmakes hu hmemo hmade) fun k v hmem => ⟨h.closed u hu k v hmem,
          hreach.tail ⟨k, hmem⟩, hs.child s.store.next hmemo ⟨k, hmem⟩⟩

end

/-! ## From an empty memo table -/

/-- The state of the first call. -/
def Heap.start (h : Heap) : State := ⟨h.store, fun _ => none⟩

/-- The memo table renames the tables that are reachable, each to a new one, and the new tables have
the entries of the old ones with the names changed. -/
structure Renames (mode : Mode) (h : Heap) (shape : Nat → Nat → Store → Prop) (root t : Nat)
    (s : State) : Prop where
  inv : Inv mode h s
  returned : s.memo root = some t
  domain : ∀ u, (s.memo u).isSome ↔ h.Reach root u
  entries : ∀ u t, s.memo u = some t →
    (s.store.table t).entries = images mode s.memo (h.store.table u).entries
  shaped : ∀ u t, s.memo u = some t → shape u t s.store

theorem start_inv (mode : Mode) (h : Heap) : Inv mode h h.start where
  originals := fun _ _ => rfl
  next := Nat.le_refl _
  domain := fun _ _ hu => (by cases hu)
  inj := fun _ _ _ hu => (by cases hu)
  apart := fun _ _ _ _ hu => (by cases hu)
  covered := fun _ hle hlt => absurd hlt (Nat.not_lt.mpr hle)

theorem mode_inner_renames {mode : Mode} {h : Heap} {shape : Nat → Nat → Store → Prop}
    {limit root : Nat} (hmakes : Makes mode h shape root) (hroot : root < h.store.next)
    (hnests : h.Nests limit root) :
    ∃ t s, mode_inner mode limit root h.start = some (t, s) ∧
      Renames mode h shape root t s := by
  have hinv := start_inv mode h
  have hshallow : Shallow h limit h.start.memo root :=
    ⟨Nat.lt_of_le_of_lt (Nat.zero_le _) (hnests [root] rfl (.singleton _) (List.nodup_singleton _)),
      fun p hhead hchain hnodup _ => hnests p hhead hchain hnodup⟩
  obtain ⟨⟨t, s⟩, hrun⟩ := Option.isSome_iff_exists.mp
    (mode_inner_returns hmakes limit root h.start hroot .refl hinv hshallow)
  obtain ⟨ha, hmemo⟩ := mode_inner_makes hmakes limit root h.start t s hroot .refl hinv hrun
  have fresh (u t : Nat) (hu : s.memo u = some t) := ha.fresh u t rfl hu
  refine ⟨t, s, hrun, ha.inv, hmemo, fun u => ⟨fun hu => ?_, fun hu => ?_⟩, ?_, ?_⟩
  · obtain ⟨t', ht⟩ := Option.isSome_iff_exists.mp hu
    exact (fresh u t' ht).2.1
  · -- the tables of the memo table are closed under values
    induction hu with
    | refl =>
      rw [hmemo]
      rfl
    | tail _ hchild ih =>
      obtain ⟨t', ht⟩ := Option.isSome_iff_exists.mp ih
      exact (fresh _ t' ht).2.2.1.children _ hchild
  · intro u t' ht
    exact (fresh u t' ht).2.2.1.entries
  · intro u t' ht
    exact (fresh u t' ht).2.2.2

end pllua.tables
