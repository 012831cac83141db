-- The typmods of the interned types. A column is assigned through a lookup of
-- its type with the typmod of the column, and that typmod is interned where the
-- lookup builds the type anew.
import Pllua.Runs
import Pllua.TypeCache

open pllua.catalog pllua.runs

namespace pllua.typeinfo

/-! ## A session on one interpreter -/

/-- The catalogs, and the cache of the interpreter. -/
structure Session where
  cat : Catalog
  cache : Cache

inductive Op
  /-- `pllua_typeinfo_lookup`, with the C calls that Lua still allows -/
  | lookup (depth : Nat) (oid : Oid) (typmod : Int)
  /-- an assignment to column `attno` of a row of the type `id`, as far as its own lookup: the
  conversion of the value looks up no type by the typmod of the column -/
  | assign (depth : Nat) (id : ObjId) (attno : Nat)
  | invalidate (inval : CacheInval)
  /-- the catalogs change -/
  | change (cat : Catalog)

/-- The column that `pllua_datum_row_newindex` assigns to, unless it is dropped. -/
def column (t : Typeinfo) (attno : Nat) : Option Attribute :=
  (t.tupdesc.bind fun d => if attno = 0 then none else d.attrs[attno - 1]?).filter
    fun att => !att.attisdropped

/-- The lookup that an operation makes: the depth, the type and the typmod. -/
def looks (s : Session) : Op → Option (Nat × Oid × Int)
  | .lookup depth oid typmod => some (depth, oid, typmod)
  | .assign depth id attno =>
    (column (s.cache.objs id) attno).map fun att => (depth, att.atttypid, att.atttypmod)
  | _ => none

def apply (s : Session) (op : Op) : Session :=
  match op with
  | .invalidate inval => { s with cache := pllua_typeinfo_invalidate inval s.cache }
  | .change cat => { s with cat }
  | op =>
    match looks s op with
    | some (depth, oid, typmod) =>
      { s with cache := (pllua_typeinfo_lookup s.cat depth oid typmod s.cache).2 }
    | none => s

/-- The typmod of the interned type. `fromstring` hands it to the input function, and so does the
constructor for a string that `pllua_datum_from_value` does not take itself, as it does those of
`text` and `varchar`. -/
def input_typmod (c : Cache) (oid : Oid) : Option Int :=
  (c.types.lookup oid).map fun id => (c.objs id).typmod

/-! ## The laws -/

/-- No interned type but RECORD has a typmod. -/
structure Unmodded (c : Cache) : Prop where
  types_lt : ∀ e ∈ c.types, e.2 < c.next
  typmod : ∀ e ∈ c.types, e.1 ≠ RECORDOID → (c.objs e.2).typmod = -1

/-- A lookup of a type but RECORD does what it does without a typmod: it gives the
same object, and changes the cache in the same way. -/
def IgnoresTypmod (s : Session) (op : Op) : Prop :=
  ∀ depth oid typmod, looks s op = some (depth, oid, typmod) → oid ≠ RECORDOID →
    pllua_typeinfo_lookup s.cat depth oid typmod s.cache =
      pllua_typeinfo_lookup s.cat depth oid (-1) s.cache

/-- A lookup with a typmod builds no object: the type is interned and not flagged,
or does not exist. -/
def BuildsNone (s : Session) (oid : Oid) : Prop :=
  oid = InvalidOid ∨ (∃ id, s.cache.types.lookup oid = some id ∧
    (s.cache.objs id).revalidate = false) ∨ s.cat.pg_type oid = none

/-- After the operation no input function gets a typmod from the cache. -/
def TypmodIndependent (s : Session) (op : Op) : Prop :=
  IgnoresTypmod s op ∧ Unmodded (apply s op).cache ∧
    ∀ oid typmod, oid ≠ RECORDOID → input_typmod (apply s op).cache oid = some typmod → typmod = -1

/-- The lookup of the operation raises no error. -/
def Returns (s : Session) (op : Op) : Prop :=
  ∀ depth oid typmod, looks s op = some (depth, oid, typmod) →
    ∃ r, (pllua_typeinfo_lookup s.cat depth oid typmod s.cache).1 = .ok r

/-- The condition of a step. -/
def TypmodUnused (s : Session) (op : Op) : Prop :=
  ∀ depth oid typmod, looks s op = some (depth, oid, typmod) →
    Plain oid typmod ∨ BuildsNone s oid

/-! ## A lookup -/

/-- Objects are only added, and keep their typmod. -/
structure KeepsTypmods (c c' : Cache) : Prop where
  next_le : c.next ≤ c'.next
  typmod : ∀ id < c.next, (c'.objs id).typmod = (c.objs id).typmod

theorem KeepsTypmods.refl (c : Cache) : KeepsTypmods c c := ⟨Nat.le_refl _, fun _ _ => rfl⟩

theorem KeepsTypmods.trans {a b c : Cache} (h1 : KeepsTypmods a b) (h2 : KeepsTypmods b c) :
    KeepsTypmods a c := by
  refine ⟨Nat.le_trans h1.next_le h2.next_le, ?_⟩
  intro id hid
  rw [h2.typmod id (Nat.lt_of_lt_of_le hid h1.next_le), h1.typmod id hid]

theorem read_catalog_typmod {cat : Catalog} {oid : Oid} {typmod : Int}
    {d : Option TupleDesc} {t : Typeinfo} (h : read_catalog cat oid typmod d = some t) :
    t.typmod = typmod := by
  unfold read_catalog at h
  split at h
  · split at h
    · obtain ⟨r, -, rfl⟩ := Option.map_eq_some_iff.mp h
      rfl
    · cases h
      rfl
  · obtain ⟨pt, -, rfl⟩ := Option.map_eq_some_iff.mp h
    rfl

theorem unmodded_alloc {c : Cache} (t : Typeinfo) (h : Unmodded c) :
    Unmodded (alloc t c).2 ∧ KeepsTypmods c (alloc t c).2 := by
  have hold : ∀ id < c.next, (alloc t c).2.objs id = c.objs id := by
    intro id hid
    simp [alloc, Function.update_of_ne (Nat.ne_of_lt hid)]
  refine ⟨⟨?_, ?_⟩, ⟨Nat.le_succ _, ?_⟩⟩
  · intro e he
    exact Nat.lt_succ_of_lt (h.types_lt e he)
  · intro e he hrec
    rw [hold e.2 (h.types_lt e he)]
    exact h.typmod e he hrec
  · intro id hid
    rw [hold id hid]

/-- A change of one object that keeps its typmod. -/
theorem unmodded_modify {c : Cache} (o : ObjId) (f : Typeinfo → Typeinfo) (h : Unmodded c)
    (hf : ∀ t, (f t).typmod = t.typmod) :
    Unmodded (c.modify o f) ∧ KeepsTypmods c (c.modify o f) := by
  have hsame : ∀ id, ((c.modify o f).objs id).typmod = (c.objs id).typmod := by
    intro id
    by_cases hid : id = o
    · rw [hid, modify_self, hf]
    · rw [modify_of_ne _ _ hid]
  refine ⟨⟨h.types_lt, ?_⟩, ⟨Nat.le_refl _, fun id _ => hsame id⟩⟩
  intro e he hrec
  rw [hsame]
  exact h.typmod e he hrec

theorem mem_store {c : Cache} {oid : Oid} {typmod : Int} {nobj : Option ObjId}
    {e : Oid × ObjId} (he : e ∈ (c.store oid typmod nobj).types) :
    e ∈ c.types ∨ ∃ n, nobj = some n ∧ e = (oid, n) := by
  unfold Cache.store at he
  split at he
  · exact Or.inl he
  · unfold rawseti at he
    rcases List.mem_append.mp he with he | he
    · cases nobj with
      | none => simp at he
      | some n => exact Or.inr ⟨n, rfl, by simpa using he⟩
    · exact Or.inl (List.mem_filter.mp he).1

theorem store_objs (c : Cache) (oid : Oid) (typmod : Int) (nobj : Option ObjId) :
    (c.store oid typmod nobj).objs = c.objs ∧ (c.store oid typmod nobj).next = c.next := by
  unfold Cache.store
  split <;> exact ⟨rfl, rfl⟩

/-- An object without a typmod is interned. -/
theorem unmodded_store {c : Cache} (oid : Oid) (typmod : Int) (nobj : Option ObjId)
    (h : Unmodded c)
    (hn : ∀ n, nobj = some n → n < c.next ∧ (oid ≠ RECORDOID → (c.objs n).typmod = -1)) :
    Unmodded (c.store oid typmod nobj) ∧ KeepsTypmods c (c.store oid typmod nobj) := by
  obtain ⟨hobjs, hnext⟩ := store_objs c oid typmod nobj
  refine ⟨⟨?_, ?_⟩, ⟨Nat.le_of_eq hnext.symm, fun id _ => by rw [hobjs]⟩⟩
  · intro e he
    rw [hnext]
    rcases mem_store he with he | ⟨n, hs, rfl⟩
    · exact h.types_lt e he
    · exact (hn n hs).1
  · intro e he hrec
    rw [hobjs]
    rcases mem_store he with he | ⟨n, hs, rfl⟩
    · exact h.typmod e he hrec
    · exact (hn n hs).2 hrec

theorem unmodded_settle {c : Cache} {oid : Oid} (typmod : Int) (obj : Option ObjId)
    {nobj : Option ObjId} (h : Unmodded c)
    (hn : ∀ n, nobj = some n → n < c.next ∧ (oid ≠ RECORDOID → (c.objs n).typmod = -1)) :
    Unmodded (settle oid typmod obj nobj c).2 ∧ KeepsTypmods c (settle oid typmod obj nobj c).2 := by
  unfold settle
  split
  · rename_i o n
    split
    · exact unmodded_modify o (fun t => t.refresh (c.objs n)) h (fun _ => rfl)
    · obtain ⟨h1, h2⟩ := unmodded_modify o Typeinfo.replaced h (fun _ => rfl)
      have hn' : ∀ k, some n = some k → k < (c.modify o Typeinfo.replaced).next ∧
          (oid ≠ RECORDOID → ((c.modify o Typeinfo.replaced).objs k).typmod = -1) := by
        intro k hk
        obtain ⟨hlt, hmod⟩ := hn k hk
        exact ⟨hlt, fun hrec => by rw [h2.typmod k hlt]; exact hmod hrec⟩
      obtain ⟨h3, h4⟩ := unmodded_store oid typmod (some n) h1 hn'
      exact ⟨h3, h2.trans h4⟩
  · rename_i o
    obtain ⟨h1, h2⟩ := unmodded_modify o Typeinfo.dropped h (fun _ => rfl)
    obtain ⟨h3, h4⟩ := unmodded_store oid typmod none h1 (by simp)
    exact ⟨h3, h2.trans h4⟩
  · exact unmodded_store oid typmod _ h hn

/-- What a lookup that builds the type can intern. -/
theorem unmodded_newtypeinfo (cat : Catalog) {lookup : Oid → Int → LuaFn Looked}
    (hl : ∀ oid typmod, Plain oid typmod → Preserves Unmodded KeepsTypmods (lookup oid typmod))
    (oid : Oid) (typmod : Int) (c : Cache) (hc : Unmodded c) :
    Unmodded (pllua_newtypeinfo lookup cat oid typmod c).2 ∧
      KeepsTypmods c (pllua_newtypeinfo lookup cat oid typmod c).2 ∧
      ∀ n, (pllua_newtypeinfo lookup cat oid typmod c).1 = .ok (some n) →
        n < (pllua_newtypeinfo lookup cat oid typmod c).2.next ∧
        ((pllua_newtypeinfo lookup cat oid typmod c).2.objs n).typmod = typmod := by
  obtain ⟨c1, h1, h2, ⟨hcache, hnone⟩ | ⟨t, c2, ids, hr, heq⟩⟩ := newtypeinfo_cases cat
    KeepsTypmods.refl (fun _ _ _ => KeepsTypmods.trans) hl oid typmod c hc
  · rw [hcache]
    exact ⟨h1, h2, fun n hn => absurd hn (hnone n)⟩
  · obtain ⟨h3, h4⟩ := unmodded_alloc (with_columns t c2 ids) h1
    rw [heq]
    refine ⟨h3, h2.trans h4, ?_⟩
    intro n hn
    cases hn
    refine ⟨Nat.lt_succ_self _, ?_⟩
    have htm := read_catalog_typmod hr
    simpa [alloc, with_columns] using htm

/-- A plain lookup interns no typmod. -/
theorem unmodded_lookup (cat : Catalog) (depth : Nat) (oid : Oid) (typmod : Int)
    (hp : Plain oid typmod) :
    Preserves Unmodded KeepsTypmods (pllua_typeinfo_lookup cat depth oid typmod) := by
  induction depth generalizing oid typmod with
  | zero => exact fun c hc => ⟨hc, KeepsTypmods.refl c⟩
  | succ depth ih =>
    intro c hc
    unfold pllua_typeinfo_lookup
    split
    · exact ⟨hc, KeepsTypmods.refl c⟩
    simp only
    split
    · exact ⟨hc, KeepsTypmods.refl c⟩
    · obtain ⟨h1, h2, h3⟩ := unmodded_newtypeinfo cat ih oid typmod c hc
      split
      · rename_i heq
        rw [heq] at h1 h2
        exact ⟨h1, h2⟩
      · rename_i nobj c1 heq
        rw [heq] at h1 h2 h3
        have hn : ∀ n, nobj = some n → n < c1.next ∧ (oid ≠ RECORDOID → (c1.objs n).typmod = -1) := by
          intro n hn
          obtain ⟨hlt, hmod⟩ := h3 n (congrArg Except.ok hn)
          exact ⟨hlt, fun hrec => hmod.trans (hp.resolve_right hrec)⟩
        obtain ⟨h4, h5⟩ := unmodded_settle typmod (c.find oid typmod) h1 hn
        exact ⟨h4, h2.trans h5⟩

/-- A lookup that builds nothing does the same with and without a typmod. -/
theorem lookup_of_buildsNone (s : Session) (depth : Nat) {oid : Oid} (typmod : Int)
    (hrec : oid ≠ RECORDOID) (h : BuildsNone s oid) :
    pllua_typeinfo_lookup s.cat depth oid typmod s.cache =
      pllua_typeinfo_lookup s.cat depth oid (-1) s.cache := by
  cases depth with
  | zero => rfl
  | succ depth =>
    have hfind : ∀ m, s.cache.find oid m = s.cache.types.lookup oid := by
      intro m
      simp [Cache.find, is_record, hrec]
    unfold pllua_typeinfo_lookup
    rw [hfind, hfind]
    by_cases hinv : oid = InvalidOid
    · rw [if_pos hinv, if_pos hinv]
    rw [if_neg hinv, if_neg hinv]
    rcases h with h | ⟨id, hid, hflag⟩ | h
    · exact absurd h hinv
    · simp [hid, Option.filter, hflag]
    · have hnone : ∀ m c, pllua_newtypeinfo (pllua_typeinfo_lookup s.cat depth) s.cat oid m c =
          (.ok none, c) := by
        intro m c
        simp [pllua_newtypeinfo, pllua_newtypeinfo_raw, read_catalog, hrec, h]
      have hstore : ∀ m (c : Cache) n, c.store oid m n = c.store oid (-1) n := by
        intro m c n
        simp [Cache.store, is_record, hrec]
      have hsettle : ∀ obj c, settle oid typmod obj none c = settle oid (-1) obj none c := by
        intro obj c
        cases obj with
        | none => simp [settle, hstore typmod]
        | some o => simp [settle, hstore typmod]
      simp only [hnone, hsettle]

theorem mem_of_lookup {tab : List (Oid × ObjId)} {oid : Oid} {id : ObjId}
    (h : tab.lookup oid = some id) : (oid, id) ∈ tab := by
  induction tab with
  | nil => simp at h
  | cons e tab ih =>
    by_cases he : oid = e.1
    · rw [he, List.lookup_cons_self] at h
      cases h
      rw [he]
      exact List.mem_cons_self
    · have hne : (oid == e.1) = false := by simp [he]
      rw [List.lookup_cons, hne] at h
      exact List.mem_cons_of_mem _ (ih h)

theorem newtypeinfo_none {lookup : Oid → Int → LuaFn Looked} {cat : Catalog} {oid : Oid}
    {typmod : Int} {c : Cache} (h : (pllua_newtypeinfo lookup cat oid typmod c).1 = .ok none) :
    read_catalog cat oid typmod none = none := by
  unfold pllua_newtypeinfo pllua_newtypeinfo_raw at h
  cases hr : read_catalog cat oid typmod none with
  | none => rfl
  | some t =>
    simp only [hr] at h
    split at h
    · simp at h
    split at h
    · simp at h
    split at h <;> simp at h

/-- Where a lookup with a typmod builds the type, it interns the typmod. -/
theorem lookup_interns_typmod (s : Session) (hs : Unmodded s.cache) (depth : Nat) {oid : Oid}
    {typmod : Int} (hp : ¬ Plain oid typmod) (hb : ¬ BuildsNone s oid)
    (hr : ∃ r, (pllua_typeinfo_lookup s.cat depth oid typmod s.cache).1 = .ok r) :
    ¬ Unmodded (pllua_typeinfo_lookup s.cat depth oid typmod s.cache).2 := by
  obtain ⟨hmod, hrec⟩ := not_or.mp hp
  obtain ⟨hinv, hb⟩ := not_or.mp hb
  obtain ⟨hfresh, hex⟩ := not_or.mp hb
  have hfind : s.cache.find oid typmod = s.cache.types.lookup oid := by
    simp [Cache.find, is_record, hrec]
  have hstored : ∀ (c : Cache) n, (c.objs n).typmod = typmod →
      ¬ Unmodded (c.store oid typmod (some n)) := by
    intro c n hn h
    have hmem : (oid, n) ∈ (c.store oid typmod (some n)).types := by
      simp [Cache.store, is_record, hrec, rawseti]
    have hval := h.typmod _ hmem hrec
    rw [(store_objs c oid typmod (some n)).1] at hval
    exact hmod (hn.symm.trans hval)
  cases depth with
  | zero =>
    obtain ⟨r, hr⟩ := hr
    simp [pllua_typeinfo_lookup] at hr
  | succ depth =>
    unfold pllua_typeinfo_lookup at hr ⊢
    rw [if_neg hinv] at hr ⊢
    rw [hfind] at hr ⊢
    simp only at hr ⊢
    split at hr
    · -- the type is interned, and not flagged
      rename_i o ho
      obtain ⟨hlk, hflag⟩ := Option.filter_eq_some_iff.mp ho
      exact absurd ⟨o, hlk, by simpa using hflag⟩ hfresh
    obtain ⟨h1, h2, h3⟩ := unmodded_newtypeinfo s.cat
      (fun o m hp => unmodded_lookup s.cat depth o m hp) oid typmod s.cache hs
    split at hr
    · obtain ⟨r, hr⟩ := hr
      simp at hr
    rename_i nobj c1 heq
    rw [heq] at h1 h2 h3
    simp only
    cases nobj with
    | none =>
      have hnone := newtypeinfo_none (congrArg Prod.fst heq)
      exact absurd (by simpa [read_catalog, hrec] using hnone) hex
    | some n =>
      have hn : (c1.objs n).typmod = typmod := (h3 n rfl).2
      unfold settle
      split
      · rename_i o k hlk hk
        cases hk
        -- the object of the table has no typmod, so it differs from the new one
        have hmem := mem_of_lookup hlk
        have ho : (c1.objs o).typmod = -1 :=
          (h2.typmod o (hs.types_lt _ hmem)).trans (hs.typmod _ hmem hrec)
        have hdiff : ¬ (o = n ∨ pllua_typeinfo_eq (c1.objs o) (c1.objs n) = true) := by
          rintro (rfl | heq)
          · exact hmod (hn.symm.trans ho)
          · have hne : (-1 : Int) ≠ typmod := by omega
            simp [pllua_typeinfo_eq, ho, hn, hne] at heq
        rw [if_neg hdiff]
        apply hstored
        by_cases hno : n = o
        · rw [hno] at hn ⊢
          simpa [Typeinfo.replaced] using hn
        · rw [modify_of_ne _ _ hno]
          exact hn
      · rename_i hk
        cases hk
      · exact hstored c1 n hn

/-! ## A session -/

/-- An operation is its lookup, if it makes one. -/
theorem apply_looks {s : Session} {op : Op} {depth : Nat} {oid : Oid} {typmod : Int}
    (h : looks s op = some (depth, oid, typmod)) :
    apply s op = { s with cache := (pllua_typeinfo_lookup s.cat depth oid typmod s.cache).2 } := by
  cases op with
  | lookup => simp [apply, h]
  | assign => simp [apply, h]
  | invalidate => simp [looks] at h
  | change => simp [looks] at h

theorem unmodded_flag_each (test : Typeinfo → Bool) (es : List (Oid × ObjId)) {c : Cache}
    (h : Unmodded c) : Unmodded (flag_each test es c) := by
  induction es generalizing c with
  | nil => exact h
  | cons e es ih =>
    apply ih
    split
    · exact (unmodded_modify e.2 Typeinfo.flag h (fun _ => rfl)).1
    · exact h

theorem unmodded_invalidate (inval : CacheInval) {c : Cache} (h : Unmodded c) :
    Unmodded (pllua_typeinfo_invalidate inval c) := by
  have htype : Unmodded (invalidate_type inval c) := by
    unfold invalidate_type
    split
    · split
      · split
        · rename_i id _
          exact (unmodded_modify id Typeinfo.flag h (fun _ => rfl)).1
        · exact h
      · exact unmodded_flag_each _ _ h
    · exact h
  unfold pllua_typeinfo_invalidate invalidate_rel
  split
  · exact unmodded_flag_each _ _ htype
  · exact htype

/-- A lookup under the condition does what the lookup without the typmod does. -/
theorem lookup_ignores_typmod {s : Session} {op : Op} (h : TypmodUnused s op) :
    IgnoresTypmod s op := by
  intro depth oid typmod hl hrec
  rcases h depth oid typmod hl with (rfl | hr) | hb
  · rfl
  · exact absurd hr hrec
  · exact lookup_of_buildsNone s depth typmod hrec hb

theorem step_unmodded {s : Session} {op : Op} (hs : Unmodded s.cache) (h : TypmodUnused s op) :
    Unmodded (apply s op).cache := by
  have hlooks : ∀ depth oid typmod, looks s op = some (depth, oid, typmod) →
      Unmodded (apply s op).cache := by
    intro depth oid typmod hl
    rw [apply_looks hl]
    by_cases hrec : oid = RECORDOID
    · exact (unmodded_lookup s.cat depth oid typmod (Or.inr hrec) s.cache hs).1
    · rw [lookup_ignores_typmod h depth oid typmod hl hrec]
      exact (unmodded_lookup s.cat depth oid (-1) (Or.inl rfl) s.cache hs).1
  cases op with
  | lookup depth oid typmod => exact hlooks depth oid typmod rfl
  | assign depth id attno =>
    cases hl : looks s (.assign depth id attno) with
    | none => simpa [apply, hl] using hs
    | some l => exact hlooks _ _ _ hl
  | invalidate inval => exact unmodded_invalidate inval hs
  | change cat => exact hs

theorem unmodded_input {c : Cache} (h : Unmodded c) {oid : Oid} {typmod : Int}
    (hrec : oid ≠ RECORDOID) (hi : input_typmod c oid = some typmod) : typmod = -1 := by
  obtain ⟨id, hlk, rfl⟩ := Option.map_eq_some_iff.mp hi
  exact h.typmod _ (mem_of_lookup hlk) hrec

/-- In a session where no lookup with a typmod builds the type, no type but RECORD gets
one. A lookup that does build the type interns the typmod with it. -/
theorem typmods_stay_out_where_no_lookup_builds_with_one (cat : Catalog) (ops : List Op) :
    (Each apply TypmodUnused ⟨cat, Cache.empty unbuilt⟩ ops →
      Each apply TypmodIndependent ⟨cat, Cache.empty unbuilt⟩ ops) ∧
    ∀ (s : Session) (op : Op), Unmodded s.cache → Returns s op →
      (Unmodded (apply s op).cache ↔ TypmodUnused s op) := by
  constructor
  · intro h
    have hempty : Unmodded (Session.mk cat (Cache.empty unbuilt)).cache := by
      constructor <;> simp [Cache.empty]
    have hstep : ∀ s op, Unmodded s.cache → TypmodUnused s op → Unmodded (apply s op).cache :=
      fun s op => step_unmodded
    refine each_of_invariant hstep ?_ hempty h
    intro s op hs hop
    have hafter := step_unmodded hs hop
    exact ⟨lookup_ignores_typmod hop, hafter, fun _ _ hrec hi => unmodded_input hafter hrec hi⟩
  · intro s op hs hret
    refine ⟨?_, step_unmodded hs⟩
    intro hafter depth oid typmod hl
    by_contra hno
    obtain ⟨hp, hb⟩ := not_or.mp hno
    rw [apply_looks hl] at hafter
    exact lookup_interns_typmod s hs depth hp hb (hret depth oid typmod hl) hafter

/-! ## A varchar column -/

/-- A table 100 with a row type 101, and a column of `varchar(10)`. -/
def one_varchar : Catalog where
  pg_type oid :=
    if oid = 101 then some ⟨101, -1, 0, .composite, 100, 0, 0, 0⟩
    else if oid = 1043 then some ⟨1043, -1, 0, .base, 0, 0, 0, 0⟩
    else none
  io oid := ⟨-1, false, 'i', ',', oid, 1047⟩
  relations := fun relid =>
    if relid = 100 then some ⟨[⟨"a", 1043, 14, false⟩], false⟩ else none
  records _ := none
  own_base := by
    intro oid t h hrel
    split at h
    · cases h; simp_all
    · split at h
      · cases h; simp_all
      · cases h

/-- The row type is looked up, every type is flagged, and the column of the row type
is assigned. -/
def assigned_after_flagging : List Op :=
  [.lookup 8 101 (-1), .invalidate ⟨true, false, false, 0, 0⟩, .assign 8 1 1]

/-- The assignment takes another object than a lookup without the typmod would,
interns it with the length of the column, and marks the old one as modified. -/
theorem an_assignment_interns_the_length_of_its_column :
    ¬ Each apply TypmodIndependent ⟨one_varchar, Cache.empty unbuilt⟩ assigned_after_flagging ∧
    (let s := run apply ⟨one_varchar, Cache.empty unbuilt⟩ assigned_after_flagging
     input_typmod s.cache 1043 = some 14 ∧ (s.cache.objs 0).modified = true) := by
  constructor
  · rintro ⟨-, -, ⟨-, -, h⟩, -⟩
    exact absurd (h 1043 14 (by decide) (by decide)) (by decide)
  · decide

/-- With the type looked up after the flagging, the assignment builds nothing. -/
theorem an_assignment_after_a_lookup_builds_nothing :
    Each apply TypmodIndependent ⟨one_varchar, Cache.empty unbuilt⟩
      [.lookup 8 101 (-1), .invalidate ⟨true, false, false, 0, 0⟩, .lookup 8 1043 (-1),
        .assign 8 1 1] := by
  refine (typmods_stay_out_where_no_lookup_builds_with_one _ _).1 ⟨?_, ?_, ?_, ?_, trivial⟩
  · intro depth oid typmod h
    cases h
    exact Or.inl (Or.inl rfl)
  · intro depth oid typmod h
    cases h
  · intro depth oid typmod h
    cases h
    exact Or.inl (Or.inl rfl)
  · intro depth oid typmod h
    have hlook : some (8, 1043, 14) = some (depth, oid, typmod) := h
    cases hlook
    exact Or.inr (Or.inr (Or.inl ⟨0, by decide, by decide⟩))

end pllua.typeinfo
