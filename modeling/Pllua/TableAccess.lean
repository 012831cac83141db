-- Accesses to tables as the Lua manual describes them: a read, an assignment or a call goes on at
-- the handlers in the metatables until something settles it. The programs that run between them
-- change tables in few ways, and cannot change a metatable that they cannot get at.
import Pllua.TrustedTables

open entries

namespace pllua.tables

/-! ## Accesses -/

/-- A field of the metatable of a table. -/
def Store.metafield (s : Store) (t : Nat) (name : String) : Option Val :=
  (s.table t).metatable.bind fun m => s.rawget m (.str name)

def Val.is_function : Val → Bool
  | .func _ | .wrap _ _ => true
  | _ => false

/-- What an access comes to, with `none` for nil. -/
inductive Act
  | value (v : Option Val)
  | call (f : Nat) (args : List (Option Val))
  | set (t : Nat) (k : Val) (v : Option Val)
  /-- It is up to a value that is no table with a handler: an error, or a type with a metatable. -/
  | outside (v : Val)

/-- A call. A closure of the proxy mode puts its own value in the place of the first argument, or
there if it has no arguments. A table hands itself to its handler. -/
inductive Calls (s : Store) : Val → List (Option Val) → Act → Prop
  | func {f : Nat} {args : List (Option Val)} : Calls s (.func f) args (.call f args)
  | wrap {f self : Val} {args : List (Option Val)} {a : Act}
      (hcall : Calls s f (some self :: args.tail) a) : Calls s (.wrap f self) args a
  | handler {t : Nat} {f : Val} {args : List (Option Val)} {a : Act}
      (hf : s.metafield t "__call" = some f) (hcall : Calls s f (some (.table t) :: args) a) :
      Calls s (.table t) args a
  | absent {t : Nat} {args : List (Option Val)} (hf : s.metafield t "__call" = none) :
      Calls s (.table t) args (.outside (.table t))
  | outside {v : Val} {args : List (Option Val)} (htable : v.is_table = false)
      (hfunction : v.is_function = false) : Calls s v args (.outside v)

/-- A read of a key. -/
inductive Reads (s : Store) (k : Val) : Val → Act → Prop
  | raw {t : Nat} {v : Val} (hraw : s.rawget t k = some v) : Reads s k (.table t) (.value (some v))
  | absent {t : Nat} (hraw : s.rawget t k = none) (hindex : s.metafield t "__index" = none) :
      Reads s k (.table t) (.value none)
  | call {t : Nat} {f : Val} {a : Act} (hraw : s.rawget t k = none)
      (hindex : s.metafield t "__index" = some f) (hf : f.is_function = true)
      (hcall : Calls s f [some (.table t), some k] a) : Reads s k (.table t) a
  | index {t : Nat} {f : Val} {a : Act} (hraw : s.rawget t k = none)
      (hindex : s.metafield t "__index" = some f) (hf : f.is_function = false)
      (hread : Reads s k f a) : Reads s k (.table t) a
  | outside {v : Val} (htable : v.is_table = false) : Reads s k v (.outside v)

/-- An assignment to a key. -/
inductive Assigns (s : Store) (k : Val) (v : Option Val) : Val → Act → Prop
  | raw {t : Nat} (hraw : (s.rawget t k).isSome) : Assigns s k v (.table t) (.set t k v)
  | absent {t : Nat} (hraw : s.rawget t k = none) (hnewindex : s.metafield t "__newindex" = none) :
      Assigns s k v (.table t) (.set t k v)
  | call {t : Nat} {f : Val} {a : Act} (hraw : s.rawget t k = none)
      (hnewindex : s.metafield t "__newindex" = some f) (hf : f.is_function = true)
      (hcall : Calls s f [some (.table t), some k, v] a) : Assigns s k v (.table t) a
  | newindex {t : Nat} {f : Val} {a : Act} (hraw : s.rawget t k = none)
      (hnewindex : s.metafield t "__newindex" = some f) (hf : f.is_function = false)
      (hassign : Assigns s k v f a) : Assigns s k v (.table t) a
  | outside {x : Val} (htable : x.is_table = false) : Assigns s k v x (.outside x)

section
variable {s : Store} {t : Nat} {k f : Val} {v : Option Val} {args : List (Option Val)} {a : Act}

theorem calls_func_iff {f : Nat} : Calls s (.func f) args a ↔ a = .call f args := by
  constructor
  · rintro (_ | _ | _ | _ | ⟨_, hfunction⟩)
    · rfl
    · cases hfunction
  · rintro rfl
    exact .func

theorem calls_wrap_iff {self : Val} :
    Calls s (.wrap f self) args a ↔ Calls s f (some self :: args.tail) a := by
  constructor
  · rintro (_ | hcall | _ | _ | ⟨_, hfunction⟩)
    · exact hcall
    · cases hfunction
  · exact .wrap

theorem calls_handler_iff (hf : s.metafield t "__call" = some f) :
    Calls s (.table t) args a ↔ Calls s f (some (.table t) :: args) a := by
  constructor
  · intro h
    cases h with
    | handler hf' hcall =>
      obtain rfl := Option.some.inj (hf.symm.trans hf')
      exact hcall
    | absent hf' =>
      rw [hf] at hf'
      cases hf'
    | outside htable => cases htable
  · exact .handler hf

theorem calls_absent_iff (hf : s.metafield t "__call" = none) :
    Calls s (.table t) args a ↔ a = .outside (.table t) := by
  constructor
  · intro h
    cases h with
    | handler hf' =>
      rw [hf] at hf'
      cases hf'
    | absent => rfl
    | outside htable => cases htable
  · rintro rfl
    exact .absent hf

/-- No call is itself an assignment. -/
theorem Calls.not_set (h : Calls s f args a) (t : Nat) (k : Val) (v : Option Val) :
    a ≠ .set t k v := by
  induction h with
  | wrap _ ih => exact ih
  | handler _ _ ih => exact ih
  | _ => exact fun heq => (by cases heq)

theorem reads_raw_iff {x : Val} (hraw : s.rawget t k = some x) :
    Reads s k (.table t) a ↔ a = .value (some x) := by
  constructor
  · intro h
    cases h with
    | raw hraw' => rw [← hraw', hraw]
    | absent hraw' => cases hraw.symm.trans hraw'
    | call hraw' => cases hraw.symm.trans hraw'
    | index hraw' => cases hraw.symm.trans hraw'
    | outside htable => cases htable
  · rintro rfl
    exact .raw hraw

/-- A table that has not got the key is read as the value of `__index` is. -/
theorem reads_index_iff (hraw : s.rawget t k = none) (hindex : s.metafield t "__index" = some f)
    (hf : f.is_function = false) : Reads s k (.table t) a ↔ Reads s k f a := by
  constructor
  · intro h
    cases h with
    | raw hraw' => cases hraw.symm.trans hraw'
    | absent _ hindex' => cases hindex.symm.trans hindex'
    | call _ hindex' hf' =>
      obtain rfl := Option.some.inj (hindex.symm.trans hindex')
      cases hf.symm.trans hf'
    | index _ hindex' _ hread =>
      obtain rfl := Option.some.inj (hindex.symm.trans hindex')
      exact hread
    | outside htable => cases htable
  · exact .index hraw hindex hf

theorem assigns_raw_iff (hraw : (s.rawget t k).isSome) :
    Assigns s k v (.table t) a ↔ a = .set t k v := by
  have some_ne (h : s.rawget t k = none) : False := by
    rw [h] at hraw
    cases hraw
  constructor
  · intro h
    cases h with
    | raw => rfl
    | absent hraw' => exact (some_ne hraw').elim
    | call hraw' => exact (some_ne hraw').elim
    | newindex hraw' => exact (some_ne hraw').elim
    | outside htable => cases htable
  · rintro rfl
    exact .raw hraw

theorem assigns_absent_iff (hnewindex : s.metafield t "__newindex" = none) :
    Assigns s k v (.table t) a ↔ a = .set t k v := by
  cases hraw : s.rawget t k with
  | some x => exact assigns_raw_iff (by rw [hraw]; rfl)
  | none =>
    constructor
    · intro h
      cases h with
      | raw => rfl
      | absent => rfl
      | call _ hnewindex' => cases hnewindex.symm.trans hnewindex'
      | newindex _ hnewindex' => cases hnewindex.symm.trans hnewindex'
      | outside htable => cases htable
    · rintro rfl
      exact .absent hraw hnewindex

/-- A table that has not got the key leaves it to the handler for new keys. -/
theorem assigns_handler_iff (hraw : s.rawget t k = none)
    (hnewindex : s.metafield t "__newindex" = some f) :
    Assigns s k v (.table t) a ↔
      if f.is_function then Calls s f [some (.table t), some k, v] a else Assigns s k v f a := by
  constructor
  · intro h
    cases h with
    | raw hraw' =>
      rw [hraw] at hraw'
      cases hraw'
    | absent _ hnewindex' => cases hnewindex.symm.trans hnewindex'
    | call _ hnewindex' hf hcall =>
      obtain rfl := Option.some.inj (hnewindex.symm.trans hnewindex')
      rwa [if_pos hf]
    | newindex _ hnewindex' hf hassign =>
      obtain rfl := Option.some.inj (hnewindex.symm.trans hnewindex')
      rwa [hf, if_neg Bool.false_ne_true]
    | outside htable => cases htable
  · split
    · exact .call hraw hnewindex ‹_›
    · exact .newindex hraw hnewindex (Bool.eq_false_iff.mpr ‹_›)

/-- A call comes to one thing at most. -/
theorem Calls.unique {b : Act} (ha : Calls s f args a) (hb : Calls s f args b) : a = b := by
  induction ha with
  | func => exact (calls_func_iff.mp hb).symm
  | wrap _ ih => exact ih (calls_wrap_iff.mp hb)
  | handler hf _ ih => exact ih ((calls_handler_iff hf).mp hb)
  | absent hf => exact ((calls_absent_iff hf).mp hb).symm
  | outside htable hfunction =>
    cases hb with
    | outside => rfl
    | func => cases hfunction
    | wrap => cases hfunction
    | handler => cases htable
    | absent => cases htable

theorem Assigns.unique {x : Val} {b : Act} (ha : Assigns s k v x a) (hb : Assigns s k v x b) :
    a = b := by
  induction ha with
  | raw hraw => exact ((assigns_raw_iff hraw).mp hb).symm
  | absent _ hnewindex => exact ((assigns_absent_iff hnewindex).mp hb).symm
  | call hraw hnewindex hf hcall =>
    rw [assigns_handler_iff hraw hnewindex, if_pos hf] at hb
    exact hcall.unique hb
  | newindex hraw hnewindex hf _ ih =>
    rw [assigns_handler_iff hraw hnewindex, hf, if_neg Bool.false_ne_true] at hb
    exact ih hb
  | outside htable =>
    cases hb with
    | outside => rfl
    | _ => cases htable

end

/-! ## Programs -/

/-- The raw assignment, which takes the key away if the value is nil. -/
def Store.assign (s : Store) (t : Nat) (k : Val) : Option Val → Store
  | some v => s.rawset t k v
  | none => s.update t fun x => { x with entries := x.entries.filter fun e => e.1 ≠ k }

/-- A table that a program can get at, when those that are `hidden` are in no variable of it. -/
def Known (hidden : Nat → Prop) (s : Store) (t : Nat) : Prop := t < s.next ∧ ¬hidden t

/-- A change that a program makes to the tables, with what it can get at. `setmetatable` refuses a
table whose metatable has a field `__metatable`. -/
inductive Step (hidden : Nat → Prop) (s : Store) : Store → Prop
  | assign {x t : Nat} {k : Val} {v : Option Val} (hx : Known hidden s x)
      (hv : ∀ u, v = some (.table u) → Known hidden s u)
      (hset : Assigns s k v (.table x) (.set t k v)) : Step hidden s (s.assign t k v)
  | rawset {t : Nat} {k : Val} {v : Option Val} (ht : Known hidden s t)
      (hv : ∀ u, v = some (.table u) → Known hidden s u) : Step hidden s (s.assign t k v)
  | newtable : Step hidden s s.newtable
  | setmetatable {t : Nat} {m : Option Nat} (ht : Known hidden s t)
      (hm : ∀ u, m = some u → Known hidden s u) (hfree : s.metafield t "__metatable" = none) :
      Step hidden s (s.update t fun x => { x with metatable := m })

/-- What programs leave as it was: the tables that are hidden, and that these are the metatables of
the tables they guard. -/
structure Kept (hidden : Nat → Prop) (base s : Store) : Prop where
  next : base.next ≤ s.next
  values : ∀ x < s.next, ∀ k u, (k, .table u) ∈ (s.table x).entries → Known hidden s u
  metatables : ∀ x < s.next, ∀ m, (s.table x).metatable = some m → m < s.next
  contents : ∀ m, hidden m → m < base.next ∧ s.table m = base.table m
  guarded : ∀ p m, hidden m → p < base.next → (base.table p).metatable = some m →
    (base.rawget m (.str "__metatable")).isSome → (s.table p).metatable = some m

section
variable {hidden : Nat → Prop} {base s : Store}

theorem Known.later {s' : Store} {t : Nat} (ht : Known hidden s t) (hnext : s.next ≤ s'.next) :
    Known hidden s' t := ⟨Nat.lt_of_lt_of_le ht.1 hnext, ht.2⟩

theorem Kept.metafield_known (hk : Kept hidden base s) {x u : Nat} {name : String}
    (hx : x < s.next) (hf : s.metafield x name = some (.table u)) : Known hidden s u := by
  obtain ⟨m, hm, hget⟩ := Option.bind_eq_some_iff.mp hf
  exact hk.values m (hk.metatables x hx m hm) _ u (get_entry_mem hget)

/-- An assignment ends at a table that the program can get at. -/
theorem Kept.assigns_known (hk : Kept hidden base s) {k : Val} {v : Option Val} {x : Val} {a : Act}
    (h : Assigns s k v x a) (hx : ∀ u, x = .table u → Known hidden s u) {t : Nat}
    (ha : a = .set t k v) : Known hidden s t := by
  induction h with
  | raw =>
    obtain ⟨rfl, -⟩ := Act.set.inj ha
    exact hx _ rfl
  | absent =>
    obtain ⟨rfl, -⟩ := Act.set.inj ha
    exact hx _ rfl
  | call _ _ _ hcall => exact absurd ha (hcall.not_set t k v)
  | newindex _ hnewindex _ _ ih =>
    refine ih (fun u hu => ?_) ha
    exact hk.metafield_known (hx _ rfl).1 (hu ▸ hnewindex)
  | outside => cases ha

/-- The values after an assignment are the ones before and the new one. -/
theorem Kept.assigned_value (hk : Kept hidden base s) {t x u : Nat} {k key : Val} {v : Option Val}
    (hx : x < s.next) (hv : ∀ u, v = some (.table u) → Known hidden s u)
    (hmem : (key, .table u) ∈ ((s.assign t k v).table x).entries) : Known hidden s u := by
  by_cases hxt : x = t
  · subst hxt
    cases v with
    | some v =>
      rw [Store.assign, Store.rawset_entries] at hmem
      rcases mem_set_entry hmem with heq | hmem
      · exact hv u (congrArg some (Prod.mk.inj heq).2.symm)
      · exact hk.values x hx key u hmem
    | none =>
      rw [Store.assign, Store.update_same] at hmem
      exact hk.values x hx key u (List.mem_filter.mp hmem).1
  · cases v with
    | some v =>
      rw [Store.assign, Store.rawset_other s hxt] at hmem
      exact hk.values x hx key u hmem
    | none =>
      rw [Store.assign, Store.update_other s hxt] at hmem
      exact hk.values x hx key u hmem

theorem assign_next (s : Store) (t : Nat) (k : Val) (v : Option Val) :
    (s.assign t k v).next = s.next := by
  cases v <;> rfl

theorem assign_metatable (s : Store) (t x : Nat) (k : Val) (v : Option Val) :
    ((s.assign t k v).table x).metatable = (s.table x).metatable := by
  by_cases hxt : x = t
  · subst hxt
    cases v <;> simp [Store.assign]
  · cases v with
    | some v => rw [Store.assign, Store.rawset_other s hxt]
    | none => rw [Store.assign, Store.update_other s hxt]

theorem assign_other (s : Store) {t x : Nat} (hxt : x ≠ t) (k : Val) (v : Option Val) :
    (s.assign t k v).table x = s.table x := by
  cases v with
  | some v => rw [Store.assign, Store.rawset_other s hxt]
  | none => rw [Store.assign, Store.update_other s hxt]

theorem Kept.assign (hk : Kept hidden base s) {t : Nat} {k : Val} {v : Option Val}
    (ht : Known hidden s t) (hv : ∀ u, v = some (.table u) → Known hidden s u) :
    Kept hidden base (s.assign t k v) where
  next := by
    rw [assign_next]
    exact hk.next
  values := by
    intro x hx key u hmem
    rw [assign_next] at hx
    exact (hk.assigned_value hx hv hmem).later (Nat.le_of_eq (assign_next s t k v).symm)
  metatables := by
    intro x hx m hm
    rw [assign_next] at hx ⊢
    rw [assign_metatable] at hm
    exact hk.metatables x hx m hm
  contents := by
    intro m hm
    have hne : m ≠ t := fun heq => ht.2 (heq ▸ hm)
    rw [assign_other s hne]
    exact hk.contents m hm
  guarded := by
    intro p m hm hp hmeta hfield
    rw [assign_metatable]
    exact hk.guarded p m hm hp hmeta hfield

theorem Kept.newtable (hk : Kept hidden base s) : Kept hidden base s.newtable where
  next := Nat.le_succ_of_le hk.next
  values := by
    intro x hx k u hmem
    rcases Nat.lt_succ_iff_lt_or_eq.mp hx with hx | rfl
    · rw [s.newtable_other hx] at hmem
      exact (hk.values x hx k u hmem).later (Nat.le_succ _)
    · rw [s.newtable_same] at hmem
      cases hmem
  metatables := by
    intro x hx m hm
    rcases Nat.lt_succ_iff_lt_or_eq.mp hx with hx | rfl
    · rw [s.newtable_other hx] at hm
      exact Nat.lt_succ_of_lt (hk.metatables x hx m hm)
    · rw [s.newtable_same] at hm
      cases hm
  contents := by
    intro m hm
    obtain ⟨hlt, hsame⟩ := hk.contents m hm
    exact ⟨hlt, (s.newtable_other (Nat.lt_of_lt_of_le hlt hk.next)).trans hsame⟩
  guarded := by
    intro p m hm hp hmeta hfield
    rw [s.newtable_other (Nat.lt_of_lt_of_le hp hk.next)]
    exact hk.guarded p m hm hp hmeta hfield

theorem Kept.setmetatable (hk : Kept hidden base s) {t : Nat} {m' : Option Nat}
    (ht : Known hidden s t) (hm' : ∀ u, m' = some u → Known hidden s u)
    (hfree : s.metafield t "__metatable" = none) :
    Kept hidden base (s.update t fun x => { x with metatable := m' }) where
  next := hk.next
  values := by
    intro x hx k u hmem
    have same : ((s.update t fun x => { x with metatable := m' }).table x).entries =
        (s.table x).entries := by
      by_cases hxt : x = t
      · subst hxt
        rw [s.update_same]
      · rw [s.update_other hxt]
    rw [same] at hmem
    exact hk.values x hx k u hmem
  metatables := by
    intro x hx m hm
    by_cases hxt : x = t
    · subst hxt
      rw [s.update_same] at hm
      exact (hm' m hm).1
    · rw [s.update_other hxt] at hm
      exact hk.metatables x hx m hm
  contents := by
    intro m hm
    have hne : m ≠ t := fun heq => ht.2 (heq ▸ hm)
    rw [s.update_other hne]
    exact hk.contents m hm
  guarded := by
    intro p m hm hp hmeta hfield
    have hold := hk.guarded p m hm hp hmeta hfield
    -- the field of the hidden metatable is there still, so the table is not the one that changes
    have hne : p ≠ t := by
      rintro rfl
      rw [Store.metafield, hold, Option.bind_some, Store.rawget, (hk.contents m hm).2] at hfree
      rw [Store.rawget, hfree] at hfield
      cases hfield
    rw [s.update_other hne]
    exact hold

theorem Kept.step {s' : Store} (hk : Kept hidden base s) (h : Step hidden s s') :
    Kept hidden base s' := by
  cases h with
  | assign hx hv hset =>
    refine hk.assign (hk.assigns_known hset (fun u hu => ?_) rfl) hv
    exact Val.table.inj hu ▸ hx
  | rawset ht hv => exact hk.assign ht hv
  | newtable => exact hk.newtable
  | setmetatable ht hm hfree => exact hk.setmetatable ht hm hfree

/-- Whatever programs do one after another. -/
theorem Kept.run {s' : Store} (hk : Kept hidden base s)
    (h : Relation.ReflTransGen (Step hidden) s s') : Kept hidden base s' := by
  induction h with
  | refl => exact hk
  | tail _ hstep ih => exact ih.step hstep

end

end pllua.tables
