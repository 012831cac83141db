-- The mode "proxy" of `trusted.c`: for each table of a module an empty table is made whose metatable
-- sends reads, calls and assignments on to the module's table, each with the handlers that the
-- module's own metatable has.
import Pllua.TableAccess
import Pllua.TrustedCopies

open entries

namespace pllua.tables

/-! ## The mode -/

/-- What the loop over the old metatable does for an entry, with what the new metatable has so far. A
key that is no string has no meaning there: `strcmp` gets no text for it. -/
def proxy_metafield (ot : Nat) (mt : List (Val × Val)) : Val × Val → Option (List (Val × Val))
  | (.str keyname, v) =>
    if keyname = "__index" then some mt
    else if keyname = "__newindex" then some (set_entry (.str keyname) v mt)
    else if keyname = "__call" then some (set_entry (.str keyname) (.wrap v (.table ot)) mt)
    else some (set_entry (.str keyname) v mt)
  | _ => none

def pllua_trusted_mode_proxy_metatable (s : Store) (ot : Nat) (mt : List (Val × Val)) :
    Option (List (Val × Val)) :=
  match (s.table ot).metatable with
  | none => some mt
  | some m => (s.table m).entries.foldlM (proxy_metafield ot) mt

/-- The metatable of the proxy of a table. -/
def proxy_fields (s : Store) (u : Nat) : Option (List (Val × Val)) :=
  (pllua_trusted_mode_proxy_metatable s u (set_entry (.str "__metatable") (.bool true) [])).map
    (set_entry (.str "__index") (.table u))

/-- The proxy and its metatable. -/
def make_proxy (u : Nat) (s : Store) : Option Store :=
  (proxy_fields s u).map fun mt =>
    (s.newtable.newtable.update (s.next + 1) fun x => { x with entries := mt }).update s.next
      fun x => { x with metatable := some (s.next + 1) }

/-- Two new tables for each, in which only the values that are tables are set. -/
def proxying : Mode where
  size := 2
  make := make_proxy
  keep := false

def pllua_trusted_mode_proxy_inner : Nat → Nat → State → Option (Nat × State) :=
  mode_inner proxying

/-- `pllua_trusted_mode_outer` with true as its upvalue. -/
def proxy_outer : Nat → Val → Store → Option (Val × Store) := mode_outer proxying

/-! ## The metatable of a proxy -/

/-- A field of the metatable of the proxy of `u`, by the field of the module's metatable. -/
def proxied_field (u : Nat) (name : String) (old : Option Val) : Option Val :=
  if name = "__index" then some (.table u)
  else match old with
    | some v => some (if name = "__call" then .wrap v (.table u) else v)
    | none => if name = "__metatable" then some (.bool true) else none

theorem proxied_index (u : Nat) (old : Option Val) :
    proxied_field u "__index" old = some (.table u) := if_pos rfl

theorem proxied_other (u : Nat) {name : String} (hname : name ≠ "__index") (old : Option Val) :
    proxied_field u name old = match old with
      | some v => some (if name = "__call" then .wrap v (.table u) else v)
      | none => if name = "__metatable" then some (.bool true) else none := if_neg hname

def StringKeys (s : Store) (u : Nat) : Prop :=
  ∀ m, (s.table u).metatable = some m → ∀ e ∈ (s.table m).entries, ∃ name, e.1 = .str name

/-- One turn of the loop: all keys but `__index` are set, and `__call` to a closure. -/
theorem proxy_metafield_sets (u : Nat) (mt : List (Val × Val)) (key : String) (v : Val) :
    proxy_metafield u mt (.str key, v) = if key = "__index" then some mt
      else some (set_entry (.str key) (if key = "__call" then .wrap v (.table u) else v) mt) := by
  rw [proxy_metafield]
  split
  · rfl
  · split
    · subst key
      rfl
    · split <;> rfl

theorem get_entry_set (key name : String) (v : Val) (mt : List (Val × Val)) :
    get_entry (.str name) (set_entry (.str key) v mt) =
      if key = name then some v else get_entry (.str name) mt := by
  split
  · subst key
    exact get_set_entry_same ..
  · rename_i hne
    exact get_set_entry_other (fun heq => hne (Val.str.inj heq).symm) ..

/-- One turn of the loop for any other field than `__index`. -/
theorem proxy_metafield_get {u : Nat} {mt mt' : List (Val × Val)} {key name : String} {v : Val}
    (h : proxy_metafield u mt (.str key, v) = some mt') (hname : name ≠ "__index") :
    get_entry (.str name) mt' =
      if key = name then some (if name = "__call" then .wrap v (.table u) else v)
      else get_entry (.str name) mt := by
  rw [proxy_metafield_sets] at h
  split at h
  · obtain rfl := Option.some.inj h
    rw [if_neg]
    rintro rfl
    exact hname ‹key = "__index"›
  · obtain rfl := Option.some.inj h
    rw [get_entry_set]
    by_cases hkey : key = name
    · subst hkey
      rfl
    · rw [if_neg hkey, if_neg hkey]

/-- The loop gives each field of the old metatable to the new one, but `__index`. -/
theorem proxy_loop_fields (u : Nat) {es : List (Val × Val)} (hnodup : (es.map Prod.fst).Nodup)
    (hkeys : ∀ e ∈ es, ∃ name, e.1 = .str name) (mt : List (Val × Val)) :
    ∃ mt', es.foldlM (proxy_metafield u) mt = some mt' ∧
      ∀ name, name ≠ "__index" → get_entry (.str name) mt' =
        match get_entry (.str name) es with
        | some v => some (if name = "__call" then .wrap v (.table u) else v)
        | none => get_entry (.str name) mt := by
  induction es generalizing mt with
  | nil => exact ⟨mt, rfl, fun _ _ => rfl⟩
  | cons e es ih =>
    obtain ⟨k, v⟩ := e
    obtain ⟨key, hkey⟩ := hkeys (k, v) (List.mem_cons_self ..)
    obtain rfl : k = .str key := hkey
    obtain ⟨hnotin, hrest⟩ := List.nodup_cons.mp hnodup
    obtain ⟨mt₁, hturn⟩ : ∃ mt₁, proxy_metafield u mt (.str key, v) = some mt₁ := by
      rw [proxy_metafield_sets]
      split <;> exact ⟨_, rfl⟩
    obtain ⟨mt', hloop, hfields⟩ :=
      ih hrest (fun e he => hkeys e (List.mem_cons_of_mem _ he)) mt₁
    refine ⟨mt', ?_, fun name hname => ?_⟩
    · rw [List.foldlM_cons, hturn]
      exact hloop
    · rw [hfields name hname, get_entry_cons, proxy_metafield_get hturn hname]
      by_cases heq : key = name
      · -- no later entry has the same key
        subst heq
        rw [get_entry_absent hnotin, if_pos rfl, if_pos rfl]
      · rw [if_neg fun h => heq (Val.str.inj h), if_neg heq]

/-- The fields of the metatable of a proxy. -/
theorem proxy_fields_field {h : Heap} {u : Nat} (hu : u < h.store.next)
    (hkeys : StringKeys h.store u) : ∃ mt, proxy_fields h.store u = some mt ∧
      ∀ name, get_entry (.str name) mt = proxied_field u name (h.store.metafield u name) := by
  have first (name : String) :
      get_entry (Val.str name) (set_entry (.str "__metatable") (Val.bool true) []) =
        if name = "__metatable" then some (.bool true) else none := by
    rw [get_entry_set]
    by_cases hname : name = "__metatable"
    · rw [if_pos hname, if_pos hname.symm]
    · rw [if_neg hname, if_neg (Ne.symm hname)]
      rfl
  have last (mt : List (Val × Val)) (hmt : ∀ name, name ≠ "__index" → get_entry (.str name) mt =
      proxied_field u name (h.store.metafield u name)) (name : String) :
      get_entry (.str name) (set_entry (.str "__index") (.table u) mt) =
        proxied_field u name (h.store.metafield u name) := by
    rw [get_entry_set]
    by_cases hname : name = "__index"
    · rw [if_pos hname.symm, hname, proxied_index]
    · rw [if_neg (Ne.symm hname), hmt name hname]
  cases hm : (h.store.table u).metatable with
  | none =>
    refine ⟨_, by rw [proxy_fields, pllua_trusted_mode_proxy_metatable, hm]; rfl, last _ ?_⟩
    intro name hname
    rw [first, proxied_other u hname, Store.metafield, hm]
    rfl
  | some m =>
    have hlt := h.metatables u hu m hm
    obtain ⟨mt, hloop, hfields⟩ := proxy_loop_fields u (h.distinct m hlt) (hkeys m hm)
      (set_entry (.str "__metatable") (.bool true) [])
    refine ⟨_, by rw [proxy_fields, pllua_trusted_mode_proxy_metatable, hm]; simp only [hloop]; rfl,
      last mt fun name hname => ?_⟩
    have hfield : h.store.metafield u name = get_entry (.str name) (h.store.table m).entries := by
      rw [Store.metafield, hm]
      rfl
    rw [hfields name hname, hfield, proxied_other u hname, first]

/-! ## The tables that are made -/

/-- The first table that is made for `u` has the second one as its metatable. -/
def guarded (h : Heap) (u t : Nat) (s : Store) : Prop :=
  (s.table t).metatable = some (t + 1) ∧
    ∃ mt, proxy_fields h.store u = some mt ∧ s.table (t + 1) = ⟨mt, none⟩

/-- What is made depends on the table and its metatable only. -/
theorem proxy_fields_same {h : Heap} {s : Store} {u : Nat} (hu : u < h.store.next)
    (hsame : ∀ x < h.store.next, s.table x = h.store.table x) :
    proxy_fields s u = proxy_fields h.store u := by
  unfold proxy_fields pllua_trusted_mode_proxy_metatable
  rw [hsame u hu]
  cases hm : (h.store.table u).metatable with
  | none => rfl
  | some m => simp only [hsame m (h.metatables u hu m hm)]

theorem make_proxy_made {u : Nat} {s made : Store} (h : make_proxy u s = some made) :
    made.next = s.next + 2 ∧ (∀ x < s.next, made.table x = s.table x) ∧
      made.table s.next = ⟨[], some (s.next + 1)⟩ ∧
      ∃ mt, proxy_fields s u = some mt ∧ made.table (s.next + 1) = ⟨mt, none⟩ := by
  obtain ⟨mt, hmt, rfl⟩ := Option.map_eq_some_iff.mp h
  have next : s.newtable.next = s.next + 1 := rfl
  have new : s.newtable.newtable.table s.next = ⟨[], none⟩ := by
    rw [Store.newtable_other _ (by omega), Store.newtable_same]
  have new' : s.newtable.newtable.table (s.next + 1) = ⟨[], none⟩ := s.newtable.newtable_same
  refine ⟨rfl, fun x hx => ?_, ?_, mt, hmt, ?_⟩
  · rw [Store.update_other _ (by omega), Store.update_other _ (by omega),
      Store.newtable_other _ (by omega), Store.newtable_other _ hx]
  · rw [Store.update_same, Store.update_other _ (by omega), new]
  · rw [Store.update_other _ (by omega), Store.update_same, new']

theorem proxying_makes (h : Heap) (root : Nat)
    (hkeys : ∀ u, h.Reach root u → StringKeys h.store u) :
    Makes proxying h (guarded h) root where
  size_pos := Nat.two_pos
  next := fun _ _ _ hmade => (make_proxy_made hmade).1
  frame := fun _ _ _ x hmade hx => (make_proxy_made hmade).2.1 x hx
  empty := fun _ _ _ hmade => by rw [(make_proxy_made hmade).2.2.1]
  makes := by
    intro u s hu hreach _ hsame
    obtain ⟨mt, hmt, -⟩ := proxy_fields_field hu (hkeys u hreach)
    have hmt' : proxy_fields s u = some mt := (proxy_fields_same hu hsame).trans hmt
    obtain ⟨made, hmade⟩ : ∃ made, make_proxy u s = some made := by
      rw [make_proxy, hmt']
      exact ⟨_, rfl⟩
    obtain ⟨-, -, h1, mt', h2, h3⟩ := make_proxy_made hmade
    refine ⟨made, hmade, ?_, mt', ?_, h3⟩
    · rw [h1]
    · rw [← h2, proxy_fields_same hu hsame]
  stable := by
    intro u t s s' hg hsame hmeta
    have two : proxying.size = 2 := rfl
    obtain ⟨h1, mt, hmt, h2⟩ := hg
    exact ⟨hmeta.trans h1, mt, hmt, (hsame (t + 1) (by omega) (by omega)).trans h2⟩

/-- The proxies of the tables that are reachable from the module, with `φ u` as the one of `u`. -/
structure Proxies (h : Heap) (root : Nat) (φ : Nat → Nat) (s : Store) : Prop where
  fresh : ∀ u, h.Reach root u → h.store.next ≤ φ u ∧ φ u + 1 < s.next
  inj : ∀ u v, h.Reach root u → h.Reach root v → φ u = φ v → u = v
  apart : ∀ u v, h.Reach root u → h.Reach root v → φ u ≠ φ v + 1
  only : ∀ x, h.store.next ≤ x → x < s.next → ∃ u, h.Reach root u ∧ (x = φ u ∨ x = φ u + 1)
  originals : ∀ x < h.store.next, s.table x = h.store.table x
  entries : ∀ u, h.Reach root u → (s.table (φ u)).entries =
    ((h.store.table u).entries.filter fun e => e.2.is_table).map fun e => (e.1, e.2.rename φ)
  metatable : ∀ u, h.Reach root u → (s.table (φ u)).metatable = some (φ u + 1)
  guarded : ∀ u, h.Reach root u →
    ∃ mt, proxy_fields h.store u = some mt ∧ s.table (φ u + 1) = ⟨mt, none⟩

theorem Renames.proxies {h : Heap} {root t : Nat} {s : State}
    (hr : Renames proxying h (guarded h) root t s) : Proxies h root (named s.memo) s.store where
  fresh := fun u hu => by
    have two : proxying.size = 2 := rfl
    obtain ⟨-, h1, h2⟩ := hr.inv.domain u _ (hr.memo_named hu)
    exact ⟨h1, by omega⟩
  inj := fun u v hu hv heq => hr.inv.inj u v _ (hr.memo_named hu) (heq ▸ hr.memo_named hv)
  apart := fun u v hu hv heq => by
    have two : proxying.size = 2 := rfl
    have := hr.inv.apart v u _ _ (hr.memo_named hv) (hr.memo_named hu) (by omega)
    omega
  only := fun x hle hlt => by
    have two : proxying.size = 2 := rfl
    obtain ⟨u, t', ht, h1, h2⟩ := hr.inv.covered x hle hlt
    refine ⟨u, (hr.domain u).mp (by rw [ht]; rfl), ?_⟩
    rw [named_of_memo ht]
    omega
  originals := hr.inv.originals
  entries := fun u hu => by
    rw [hr.entries u _ (hr.memo_named hu)]
    exact List.map_congr_left fun e _ => by rw [image_named]
  metatable := fun u hu => (hr.shaped u _ (hr.memo_named hu)).1
  guarded := fun u hu => (hr.shaped u _ (hr.memo_named hu)).2

/-! ## What a proxy has -/

section
variable {h : Heap} {root : Nat} {φ : Nat → Nat} {base : Store}

theorem Proxies.metafield (hp : Proxies h root φ base) (hroot : root < h.store.next)
    (hkeys : ∀ u, h.Reach root u → StringKeys h.store u) {u : Nat} (hu : h.Reach root u)
    (name : String) :
    base.metafield (φ u) name = proxied_field u name (h.store.metafield u name) := by
  obtain ⟨mt, hmt, htable⟩ := hp.guarded u hu
  obtain ⟨mt', hmt', hfields⟩ := proxy_fields_field (h.reach_in_use hroot hu) (hkeys u hu)
  obtain rfl : mt = mt' := Option.some.inj (hmt.symm.trans hmt')
  rw [← hfields name, Store.metafield, hp.metatable u hu, Option.bind_some, Store.rawget, htable]

/-- A proxy has the keys of the values that are tables, and their proxies there. -/
theorem Proxies.rawget (hp : Proxies h root φ base) (hroot : root < h.store.next) {u : Nat}
    (hu : h.Reach root u) (k : Val) : base.rawget (φ u) k =
      ((h.store.rawget u k).filter Val.is_table).map (Val.rename φ) := by
  have hnodup := h.distinct u (h.reach_in_use hroot hu)
  rw [Store.rawget, hp.entries u hu, get_entry_map (Val.rename φ), get_entry_filter hnodup]
  rfl

/-- The metatables of the proxies, which no variable of a program holds. -/
def hidden (h : Heap) (root : Nat) (φ : Nat → Nat) (m : Nat) : Prop :=
  ∃ u, h.Reach root u ∧ m = φ u + 1

/-- A table in the new metatable is the module's table or comes from the old metatable. -/
theorem proxy_loop_value {u : Nat} {es mt mt' : List (Val × Val)}
    (h : es.foldlM (proxy_metafield u) mt = some mt') {k : Val} {x : Nat}
    (hmem : (k, .table x) ∈ mt') :
    (k, .table x) ∈ mt ∨ ∃ k', (k', .table x) ∈ es := by
  induction es generalizing mt with
  | nil =>
    obtain rfl : mt = mt' := Option.some.inj h
    exact .inl hmem
  | cons e es ih =>
    rw [List.foldlM_cons] at h
    obtain ⟨mt₁, hturn, hrest⟩ := Option.bind_eq_some_iff.mp h
    rcases ih hrest with hmem | ⟨k', hmem⟩
    · obtain ⟨key, v⟩ := e
      cases key with
      | str key =>
        rw [proxy_metafield_sets] at hturn
        split at hturn
        · obtain rfl := Option.some.inj hturn
          exact .inl hmem
        · obtain rfl := Option.some.inj hturn
          rcases mem_set_entry hmem with heq | hmem
          · have hvalue := (Prod.mk.inj heq).2
            split at hvalue
            · cases hvalue
            · exact .inr ⟨.str key, hvalue ▸ List.mem_cons_self ..⟩
          · exact .inl hmem
      | _ => cases hturn
    · exact .inr ⟨k', List.mem_cons_of_mem _ hmem⟩

theorem proxy_fields_value {h : Heap} {u : Nat} (hu : u < h.store.next) {mt : List (Val × Val)}
    (hmt : proxy_fields h.store u = some mt) {k : Val} {x : Nat} (hmem : (k, .table x) ∈ mt) :
    x < h.store.next := by
  obtain ⟨mt₀, hloop, rfl⟩ := Option.map_eq_some_iff.mp hmt
  have first {k : Val} (hmem : (k, Val.table x) ∈ set_entry (.str "__metatable") (.bool true) []) :
      False := by
    rcases mem_set_entry hmem with heq | hmem
    · cases (Prod.mk.inj heq).2
    · cases hmem
  rcases mem_set_entry hmem with heq | hmem
  · obtain rfl : x = u := Val.table.inj (Prod.mk.inj heq).2
    exact hu
  · rw [pllua_trusted_mode_proxy_metatable] at hloop
    cases hm : (h.store.table u).metatable with
    | none =>
      simp only [hm] at hloop
      obtain rfl := Option.some.inj hloop
      exact (first hmem).elim
    | some m =>
      simp only [hm] at hloop
      rcases proxy_loop_value hloop hmem with hmem | ⟨k', hmem⟩
      · exact (first hmem).elim
      · exact h.closed m (h.metatables u hu m hm) k' x hmem

theorem Proxies.next (hp : Proxies h root φ base) : h.store.next < base.next := by
  have := hp.fresh root .refl
  omega

theorem Proxies.original_known (hp : Proxies h root φ base) {x : Nat} (hx : x < h.store.next) :
    Known (hidden h root φ) base x := by
  refine ⟨Nat.lt_trans hx hp.next, ?_⟩
  rintro ⟨u, hu, rfl⟩
  have := (hp.fresh u hu).1
  omega

theorem Proxies.proxy_known (hp : Proxies h root φ base) {u : Nat} (hu : h.Reach root u) :
    Known (hidden h root φ) base (φ u) := by
  refine ⟨Nat.lt_of_succ_lt (hp.fresh u hu).2, ?_⟩
  rintro ⟨v, hv, heq⟩
  exact hp.apart u v hu hv heq

/-- What programs are to keep holds when the proxies have been made. -/
theorem Proxies.kept (hp : Proxies h root φ base) (hroot : root < h.store.next) :
    Kept (hidden h root φ) base base where
  next := Nat.le_refl _
  values := by
    intro x hx k y hmem
    by_cases hold : x < h.store.next
    · rw [hp.originals x hold] at hmem
      exact hp.original_known (h.closed x hold k y hmem)
    · obtain ⟨u, hu, rfl | rfl⟩ := hp.only x (Nat.not_lt.mp hold) hx
      · rw [hp.entries u hu] at hmem
        obtain ⟨⟨k', v⟩, hentry, heq⟩ := List.mem_map.mp hmem
        have hvalue := (Prod.mk.inj heq).2
        cases v with
        | table v =>
          obtain rfl : φ v = y := Val.table.inj hvalue
          exact hp.proxy_known (hu.tail ⟨k', (List.mem_filter.mp hentry).1⟩)
        | _ => cases hvalue
      · obtain ⟨mt, hmt, htable⟩ := hp.guarded u hu
        rw [htable] at hmem
        exact hp.original_known (proxy_fields_value (h.reach_in_use hroot hu) hmt hmem)
  metatables := by
    intro x hx m hm
    by_cases hold : x < h.store.next
    · rw [hp.originals x hold] at hm
      exact Nat.lt_trans (h.metatables x hold m hm) hp.next
    · obtain ⟨u, hu, rfl | rfl⟩ := hp.only x (Nat.not_lt.mp hold) hx
      · rw [hp.metatable u hu] at hm
        obtain rfl := Option.some.inj hm
        exact (hp.fresh u hu).2
      · obtain ⟨mt, -, htable⟩ := hp.guarded u hu
        rw [htable] at hm
        cases hm
  contents := by
    rintro m ⟨u, hu, rfl⟩
    exact ⟨(hp.fresh u hu).2, rfl⟩
  guarded := fun _ _ _ _ hmeta _ => hmeta

end

/-! ## The laws of proxies -/

/-- A state that programs have come to. -/
def Later (h : Heap) (root : Nat) (φ : Nat → Nat) (base s : Store) : Prop :=
  Relation.ReflTransGen (Step (hidden h root φ)) base s

/-- The module's tables are as they were. -/
def Untouched (h : Heap) (s : Store) : Prop := ∀ x < h.store.next, s.table x = h.store.table x

/-- What a proxy is to do. A key is not assigned locally when the proxy has for it what it was made
with, and a key is new when the proxy has nothing for it. It is new to the table as well only as
long as nothing is assigned to the table itself. -/
structure Behaves (h : Heap) (root : Nat) (φ : Nat → Nat) (base s : Store) : Prop where
  reads_table : ∀ u v k a, h.Reach root u → s.rawget (φ u) k = base.rawget (φ u) k →
    h.store.rawget u k = some (.table v) →
    (Reads s k (.table (φ u)) a ↔ a = .value (some (.table (φ v))))
  reads : ∀ u k a, h.Reach root u → s.rawget (φ u) k = base.rawget (φ u) k →
    (∀ v, h.store.rawget u k ≠ some (.table v)) →
    (Reads s k (.table (φ u)) a ↔ Reads s k (.table u) a)
  calls : ∀ u f args a, h.Reach root u → h.store.metafield u "__call" = some f →
    (Calls s (.table (φ u)) args a ↔ Calls s f (some (.table u) :: args) a)
  forwards : Untouched h s → ∀ u k v a, h.Reach root u →
    (h.store.metafield u "__newindex").isSome → s.rawget (φ u) k = none →
    (Assigns s k v (.table (φ u)) a ↔ Assigns s k v (.table u) a)
  keeps : ∀ u k v a, h.Reach root u → h.store.metafield u "__newindex" = none →
    s.rawget (φ u) k = none → (Assigns s k v (.table (φ u)) a ↔ a = .set (φ u) k v) ∧
      ∀ x < h.store.next, (s.assign (φ u) k v).table x = s.table x

/-- A handler for new keys that does the same for the proxy as for the table `u` itself: it is no
function of the module, which is told the table it is called for, and for a key that the table has
got already an assignment on it ends at that table. -/
def Forwardable (h : Heap) (u : Nat) (f : Val) : Prop :=
  (∀ n, f ≠ .func n) ∧ ∀ k, (h.store.rawget u k).isSome → f.is_function = false ∧
    ∀ v a, Assigns h.store k v f a ↔ a = .set u k v

section
variable {h : Heap} {root : Nat} {φ : Nat → Nat} {base s s' : Store}

/-- The fields of a proxy's metatable are for ever those it was made with. -/
theorem Later.proxy_field (hl : Later h root φ base s) (hp : Proxies h root φ base)
    (hroot : root < h.store.next) (hkeys : ∀ u, h.Reach root u → StringKeys h.store u) {u : Nat}
    (hu : h.Reach root u) (name : String) :
    s.metafield (φ u) name = proxied_field u name (h.store.metafield u name) := by
  have hk := (hp.kept hroot).run hl
  have hhidden : hidden h root φ (φ u + 1) := ⟨u, hu, rfl⟩
  have field := hp.metafield hroot hkeys hu
  have locked : (base.rawget (φ u + 1) (.str "__metatable")).isSome := by
    have := field "__metatable"
    rw [Store.metafield, hp.metatable u hu, Option.bind_some] at this
    rw [this, proxied_other u (by decide)]
    cases h.store.metafield u "__metatable" <;> rfl
  have hmeta := hk.guarded (φ u) (φ u + 1) hhidden (hp.proxy_known hu).1 (hp.metatable u hu) locked
  rw [← field name, Store.metafield, Store.metafield, hmeta, hp.metatable u hu, Option.bind_some,
    Option.bind_some, Store.rawget, Store.rawget, (hk.contents _ hhidden).2]

theorem same_metafield (hsame : Untouched h s) {u : Nat}
    (hu : u < h.store.next) (name : String) : s.metafield u name = h.store.metafield u name := by
  unfold Store.metafield Store.rawget
  rw [hsame u hu]
  cases hm : (h.store.table u).metatable with
  | none => rfl
  | some m => rw [Option.bind_some, Option.bind_some, hsame m (h.metatables u hu m hm)]

theorem same_rawget (hsame : Untouched h s) {u : Nat}
    (hu : u < h.store.next) (k : Val) : s.rawget u k = h.store.rawget u k := by
  rw [Store.rawget, Store.rawget, hsame u hu]

theorem Heap.metafield_in_use (h : Heap) {u x : Nat} {name : String} (hu : u < h.store.next)
    (hf : h.store.metafield u name = some (.table x)) : x < h.store.next := by
  obtain ⟨m, hm, hget⟩ := Option.bind_eq_some_iff.mp hf
  exact h.closed m (h.metatables u hu m hm) _ x (get_entry_mem hget)

/-- An assignment that ends at a table goes through the module's tables only. -/
theorem Assigns.same_module (hs : Untouched h s) (hs' : Untouched h s') {k x : Val} {v : Option Val} {a : Act}
    (hx : ∀ u, x = .table u → u < h.store.next) (ha : Assigns s k v x a) {t : Nat}
    (hset : a = .set t k v) : Assigns s' k v x a := by
  induction ha with
  | raw hraw =>
    have hu := hx _ rfl
    rw [same_rawget hs hu] at hraw
    exact .raw (by rwa [same_rawget hs' hu])
  | absent hraw hnewindex =>
    have hu := hx _ rfl
    rw [same_rawget hs hu] at hraw
    rw [same_metafield hs hu] at hnewindex
    exact .absent (by rwa [same_rawget hs' hu]) (by rwa [same_metafield hs' hu])
  | call _ _ _ hcall => exact absurd hset (hcall.not_set t k v)
  | newindex hraw hnewindex hf _ ih =>
    have hu := hx _ rfl
    rw [same_rawget hs hu] at hraw
    rw [same_metafield hs hu] at hnewindex
    refine .newindex (by rwa [same_rawget hs' hu]) (by rwa [same_metafield hs' hu]) hf
      (ih (fun x heq => ?_) hset)
    exact h.metafield_in_use hu (heq ▸ hnewindex)
  | outside htable => exact .outside htable

/-! ### Reading and calling -/

theorem Proxies.reads_table (hp : Proxies h root φ base)
    (hroot : root < h.store.next) {u v : Nat} {k : Val} (hu : h.Reach root u)
    (hlocal : s.rawget (φ u) k = base.rawget (φ u) k) (hv : h.store.rawget u k = some (.table v))
    (a : Act) : Reads s k (.table (φ u)) a ↔ a = .value (some (.table (φ v))) := by
  apply reads_raw_iff
  rw [hlocal, hp.rawget hroot hu, hv]
  rfl

theorem Later.reads (hl : Later h root φ base s) (hp : Proxies h root φ base)
    (hroot : root < h.store.next) (hkeys : ∀ u, h.Reach root u → StringKeys h.store u) {u : Nat}
    {k : Val} (hu : h.Reach root u) (hlocal : s.rawget (φ u) k = base.rawget (φ u) k)
    (hv : ∀ v, h.store.rawget u k ≠ some (.table v)) (a : Act) :
    Reads s k (.table (φ u)) a ↔ Reads s k (.table u) a := by
  apply reads_index_iff ?_ ((hl.proxy_field hp hroot hkeys hu _).trans (proxied_index u _)) rfl
  rw [hlocal, hp.rawget hroot hu]
  cases hraw : h.store.rawget u k with
  | none => rfl
  | some x =>
    cases x with
    | table v => exact absurd hraw (hv v)
    | _ => rfl

theorem Later.calls (hl : Later h root φ base s) (hp : Proxies h root φ base)
    (hroot : root < h.store.next) (hkeys : ∀ u, h.Reach root u → StringKeys h.store u) {u : Nat}
    {f : Val} (hu : h.Reach root u) (hf : h.store.metafield u "__call" = some f)
    (args : List (Option Val)) (a : Act) :
    Calls s (.table (φ u)) args a ↔ Calls s f (some (.table u) :: args) a := by
  have hcall : s.metafield (φ u) "__call" = some (.wrap f (.table u)) := by
    rw [hl.proxy_field hp hroot hkeys hu, hf]
    rfl
  rw [calls_handler_iff hcall, calls_wrap_iff, List.tail_cons]

/-! ### Assigning -/

theorem Later.forwards (hl : Later h root φ base s) (hsame : Untouched h s)
    (hp : Proxies h root φ base)
    (hroot : root < h.store.next) (hkeys : ∀ u, h.Reach root u → StringKeys h.store u) {u : Nat}
    {f : Val} (hu : h.Reach root u) (hf : h.store.metafield u "__newindex" = some f)
    (hforward : Forwardable h u f) {k : Val} (hnew : s.rawget (φ u) k = none) (v : Option Val)
    (a : Act) : Assigns s k v (.table (φ u)) a ↔ Assigns s k v (.table u) a := by
  have hlt := h.reach_in_use hroot hu
  have field : s.metafield (φ u) "__newindex" = some f := by
    rw [hl.proxy_field hp hroot hkeys hu, hf]
    rfl
  have field' : s.metafield u "__newindex" = some f := by rw [same_metafield hsame hlt, hf]
  obtain ⟨hnofunc, hraws⟩ := hforward
  cases hraw : h.store.rawget u k with
  | some x =>
    -- the handler ends at the table itself, where the key is
    obtain ⟨hnot, hends⟩ := hraws k (by rw [hraw]; rfl)
    have hself : Assigns s k v f (.set u k v) := by
      refine ((hends v _).mpr rfl).same_module (fun _ _ => rfl) hsame (fun x hx => ?_) rfl
      exact h.metafield_in_use hlt (hx ▸ hf)
    have hsome : (s.rawget u k).isSome := by
      rw [same_rawget hsame hlt, hraw]
      rfl
    rw [assigns_handler_iff hnew field, hnot, if_neg Bool.false_ne_true, assigns_raw_iff hsome]
    constructor
    · exact fun ha => ha.unique hself
    · rintro rfl
      exact hself
  | none =>
    have hnone : s.rawget u k = none := (same_rawget hsame hlt k).trans hraw
    rw [assigns_handler_iff hnew field, assigns_handler_iff hnone field']
    cases f with
    | func n => exact absurd rfl (hnofunc n)
    | wrap g self =>
      -- the closure has a first argument of its own
      simp only [Val.is_function, if_true, calls_wrap_iff, List.tail_cons]
    | _ => rfl

theorem Later.keeps (hl : Later h root φ base s) (hp : Proxies h root φ base)
    (hroot : root < h.store.next) (hkeys : ∀ u, h.Reach root u → StringKeys h.store u) {u : Nat}
    (hu : h.Reach root u) (hf : h.store.metafield u "__newindex" = none) (k : Val)
    (v : Option Val) (a : Act) : (Assigns s k v (.table (φ u)) a ↔ a = .set (φ u) k v) ∧
      ∀ x < h.store.next, (s.assign (φ u) k v).table x = s.table x := by
  have field : s.metafield (φ u) "__newindex" = none := by
    rw [hl.proxy_field hp hroot hkeys hu, hf]
    rfl
  refine ⟨assigns_absent_iff field, fun x hx => assign_other s ?_ k v⟩
  have := (hp.fresh u hu).1
  omega

/-- A key is taken away from a proxy. -/
theorem Later.clear (hp : Proxies h root φ base) {u : Nat} (hu : h.Reach root u) (k : Val) :
    Later h root φ base (base.assign (φ u) k none) :=
  .single (.rawset (hp.proxy_known hu) fun _ hv => (by cases hv))

theorem untouched_clear (hp : Proxies h root φ base) {u : Nat} (hu : h.Reach root u) (k : Val) :
    Untouched h (base.assign (φ u) k none) := by
  intro x hx
  have := (hp.fresh u hu).1
  exact (assign_other base (by omega) k none).trans (hp.originals x hx)

theorem rawget_clear (s : Store) (t : Nat) (k : Val) : (s.assign t k none).rawget t k = none := by
  rw [Store.rawget, Store.assign, Store.update_same]
  apply get_entry_absent
  intro hmem
  obtain ⟨e, he, hkey⟩ := List.mem_map.mp hmem
  exact of_decide_eq_true (List.mem_filter.mp he).2 hkey

/-- Some key is in no entry. -/
theorem exists_new_key (es : List (Val × Val)) : ∃ k, get_entry k es = none := by
  by_contra hall
  have hsub : (List.range (es.length + 1)).map Val.other ⊆ es.map Prod.fst := by
    intro k _
    by_contra hnot
    exact hall ⟨k, get_entry_absent hnot⟩
  have hnodup : ((List.range (es.length + 1)).map Val.other).Nodup :=
    List.nodup_range.map fun a b heq => Val.other.inj heq
  have hlen := (List.subperm_of_subset hnodup hsub).length_le
  rw [List.length_map, List.length_map, List.length_range] at hlen
  omega

/-- A handler that proxies pass on rightly in every later state is one of the good ones. -/
theorem Proxies.forwardable (hp : Proxies h root φ base) (hroot : root < h.store.next)
    (hkeys : ∀ u, h.Reach root u → StringKeys h.store u)
    (hlaws : ∀ s, Later h root φ base s → Behaves h root φ base s) {u : Nat} {f : Val}
    (hu : h.Reach root u) (hf : h.store.metafield u "__newindex" = some f) :
    Forwardable h u f := by
  have hlt := h.reach_in_use hroot hu
  have hsome : (h.store.metafield u "__newindex").isSome := by
    rw [hf]
    rfl
  have field (s : Store) (hl : Later h root φ base s) :
      s.metafield (φ u) "__newindex" = some f := by
    rw [hl.proxy_field hp hroot hkeys hu, hf]
    rfl
  constructor
  · -- a function is told the proxy where it should be told the table
    rintro n rfl
    obtain ⟨k, hnew⟩ := exists_new_key (base.table (φ u)).entries
    have hl : Later h root φ base base := .refl
    have hproxy : Assigns base k none (.table (φ u))
        (.call n [some (.table (φ u)), some k, none]) :=
      .call hnew (field base hl) rfl .func
    have htable := ((hlaws base hl).forwards hp.originals u k none _ hu hsome hnew).mp hproxy
    have hne : φ u ≠ u := by
      have := (hp.fresh u hu).1
      omega
    cases htable with
    | call _ hnewindex _ hcall =>
      rw [same_metafield hp.originals hlt, hf] at hnewindex
      obtain rfl := Option.some.inj hnewindex
      injection calls_func_iff.mp hcall with _ hargs
      injection hargs with hself _
      exact hne (Val.table.inj (Option.some.inj hself))
    | newindex _ hnewindex hnot _ =>
      rw [same_metafield hp.originals hlt, hf] at hnewindex
      obtain rfl := Option.some.inj hnewindex
      cases hnot
  · -- a key of the table is made new to the proxy
    intro k hraw
    have hl := Later.clear hp hu k
    have hsame := untouched_clear hp hu k
    have hraw' : ((base.assign (φ u) k none).rawget u k).isSome := by
      rwa [same_rawget hsame hlt]
    have law (v : Option Val) (a : Act) :
        (if f.is_function then Calls (base.assign (φ u) k none) f [some (.table (φ u)), some k, v] a
          else Assigns (base.assign (φ u) k none) k v f a) ↔ a = .set u k v := by
      rw [← assigns_handler_iff (rawget_clear base (φ u) k) (field _ hl), ← assigns_raw_iff hraw']
      exact (hlaws _ hl).forwards hsame u k v a hu hsome (rawget_clear base (φ u) k)
    cases hfunction : f.is_function with
    | true =>
      have := (law none _).mpr rfl
      rw [hfunction, if_pos rfl] at this
      exact absurd rfl (this.not_set u k none)
    | false =>
      refine ⟨rfl, fun v a => ?_⟩
      have hself := (law v _).mpr rfl
      rw [hfunction, if_neg Bool.false_ne_true] at hself
      have hmodule : Assigns h.store k v f (.set u k v) := by
        refine hself.same_module hsame (fun _ _ => rfl) (fun x hx => ?_) rfl
        exact h.metafield_in_use hlt (hx ▸ hf)
      constructor
      · exact fun ha => ha.unique hmodule
      · rintro rfl
        exact hmodule

end

/-- A module that nests within the limit gets one proxy for each of its tables, and in all that
programs do afterwards they behave as they are to if and only if the handlers for new keys in the
module's metatables are forwardable. -/
theorem proxies_behave_iff (h : Heap) (limit root : Nat) (hroot : root < h.store.next)
    (hnests : h.Nests limit root) (hkeys : ∀ u, h.Reach root u → StringKeys h.store u) :
    ∃ φ base, proxy_outer limit (.table root) h.store = some (.table (φ root), base) ∧
      Proxies h root φ base ∧
      ((∀ s, Later h root φ base s → Behaves h root φ base s) ↔
        ∀ u f, h.Reach root u → h.store.metafield u "__newindex" = some f →
          Forwardable h u f) := by
  obtain ⟨t, s, hrun, hr⟩ := mode_inner_renames (proxying_makes h root hkeys) hroot hnests
  have hp := hr.proxies
  refine ⟨named s.memo, s.store, ?_, hp, fun hlaws u f hu hf => ?_, fun hforward s' hl => ?_⟩
  · have hrun' : mode_inner proxying limit root ⟨h.store, fun _ => none⟩ = some (t, s) := hrun
    rw [proxy_outer, mode_outer, hrun', Option.map_some, named_of_memo hr.returned]
  · exact hp.forwardable hroot hkeys hlaws hu hf
  · refine ⟨?_, ?_, ?_, ?_, ?_⟩
    · exact fun u v k a hu hlocal hv => hp.reads_table hroot hu hlocal hv a
    · exact fun u k a hu hlocal hv => hl.reads hp hroot hkeys hu hlocal hv a
    · exact fun u f args a hu hf => hl.calls hp hroot hkeys hu hf args a
    · intro hsame u k v a hu hsome hnew
      obtain ⟨f, hf⟩ := Option.isSome_iff_exists.mp hsome
      exact hl.forwards hsame hp hroot hkeys hu hf (hforward u f hu hf) hnew v a
    · exact fun u k v a hu hf _ => hl.keeps hp hroot hkeys hu hf k v a

/-- A module with a table in it that refers back to it, and handlers. -/
def counter : Heap :=
  .of (.of [⟨[(.str "inner", .table 1), (.str "n", .other 7)], some 2⟩,
    ⟨[(.str "up", .table 0)], none⟩,
    ⟨[(.str "__index", .table 1), (.str "__newindex", .table 0), (.str "__call", .func 0)], none⟩])
    (by decide)

theorem counter_keys (u : Nat) (hu : counter.Reach 0 u) : StringKeys counter.store u := by
  intro m hm e he
  have hlt : u < 3 := counter.reach_in_use (by decide) hu
  obtain rfl | rfl | rfl : u = 0 ∨ u = 1 ∨ u = 2 := by omega
  · obtain rfl : 2 = m := Option.some.inj hm
    have keys : ∀ e ∈ (counter.store.table 2).entries, e.1 = .str "__index" ∨
        e.1 = .str "__newindex" ∨ e.1 = .str "__call" := by decide
    obtain h | h | h := keys e he <;> exact ⟨_, h⟩
  · cases hm
  · cases hm

theorem counter_proxies :
    ∃ φ base, proxy_outer 200 (.table 0) counter.store = some (.table (φ 0), base) ∧
      Proxies counter 0 φ base ∧
      ((∀ s, Later counter 0 φ base s → Behaves counter 0 φ base s) ↔
        ∀ u f, counter.Reach 0 u → counter.store.metafield u "__newindex" = some f →
          Forwardable counter u f) :=
  proxies_behave_iff counter 200 0 (by decide) (counter.nests_of_few (by decide) (by decide))
    counter_keys

/-- An empty module whose handler for new keys is a function. -/
def logged : Heap :=
  .of (.of [⟨[], some 1⟩, ⟨[(.str "__newindex", .func 0)], none⟩]) (by decide)

theorem logged_keys (u : Nat) (hu : logged.Reach 0 u) : StringKeys logged.store u := by
  intro m hm e he
  have hlt : u < 2 := logged.reach_in_use (by decide) hu
  obtain rfl | rfl : u = 0 ∨ u = 1 := by omega
  · obtain rfl : 1 = m := Option.some.inj hm
    have keys : ∀ e ∈ (logged.store.table 1).entries, e.1 = .str "__newindex" := by decide
    exact ⟨_, keys e he⟩
  · cases hm

/-- Its function is called with the proxy. -/
theorem logged_told_proxy :
    ¬ ∀ (h : Heap) (limit root : Nat), root < h.store.next → h.Nests limit root →
      (∀ u, h.Reach root u → StringKeys h.store u) →
      ∃ φ base, proxy_outer limit (.table root) h.store = some (.table (φ root), base) ∧
        Proxies h root φ base ∧ ∀ s, Later h root φ base s → Behaves h root φ base s := by
  intro holds
  obtain ⟨φ, base, -, hp, hlaws⟩ := holds logged 200 0 (by decide)
    (logged.nests_of_few (by decide) (by decide)) logged_keys
  have hforward := hp.forwardable (by decide) logged_keys hlaws .refl
    (show logged.store.metafield 0 "__newindex" = some (.func 0) by decide)
  exact hforward.1 0 rfl

end pllua.tables
