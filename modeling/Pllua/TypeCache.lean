-- The law of the type cache: a row type that a lookup gives without building
-- it again has the descriptor that its relation has now. The callback that
-- PostgreSQL makes for a relation is to flag the entries of the relation.
import Mathlib.Tactic.Basic
import Pllua.Runs
import Pllua.TypeInfo

open pllua.catalog pllua.runs

namespace pllua.typeinfo

/-! ## The interpreters and the callbacks -/

/-- `pllua_interpreter`, as far as the callbacks use it. -/
structure Interp where
  addr : Nat
  /-- `interp->L` is not null -/
  is_open : Bool
  inval : CacheInval
  cache : Cache

/-- `pllua_interpreter_hashent`. -/
structure HashEnt where
  user_id : Oid
  interp : Option Interp

/-- The backend: the catalogs and the hash table of the interpreters. -/
structure Backend where
  cat : Catalog
  hash : List HashEnt

/-- The interpreters that a broadcast reaches: all of them, or the one of `arg`. -/
def Reached (arg : Option Nat) (i : Interp) : Prop :=
  i.is_open = true ∧ (arg = none ∨ arg = some i.addr)

instance (arg : Option Nat) (i : Interp) : Decidable (Reached arg i) :=
  inferInstanceAs (Decidable (_ ∧ _))

/-- `pllua_callback_broadcast`. The Lua function raises no error here. -/
def pllua_callback_broadcast (arg : Option Nat) (cfunc : CacheInval → Cache → Cache)
    (inval : CacheInval) (b : Backend) : Backend :=
  { b with hash := b.hash.map fun ent =>
      { ent with interp := ent.interp.map fun i =>
          if Reached arg i then { i with inval, cache := cfunc inval i.cache } else i } }

/-- `pllua_relcache_callback`. -/
def pllua_relcache_callback (arg : Option Nat) (_relid : Oid) (b : Backend) : Backend :=
  pllua_callback_broadcast arg pllua_typeinfo_invalidate
    { inval_type := false, inval_rel := true, inval_cast := false
      inval_typeoid := InvalidOid, inval_reloid := InvalidOid } b

/-- `pllua_syscache_typeoid_callback`. -/
def pllua_syscache_typeoid_callback (arg : Option Nat) (b : Backend) : Backend :=
  pllua_callback_broadcast arg pllua_typeinfo_invalidate
    { inval_type := true, inval_rel := false, inval_cast := false
      inval_typeoid := InvalidOid, inval_reloid := InvalidOid } b

/-! ## The runs of a session -/

inductive Action
  /-- `ALTER TABLE`, with the callback that PostgreSQL makes for it -/
  | alter_table (relid : Oid) (d : Option TupleDesc)
  /-- a callback for a relation, or for all of them, with no change -/
  | relcache (arg : Option Nat) (relid : Oid)
  /-- a change of the types, with its callback -/
  | alter_type (cat : Catalog)
  /-- a new interpreter, with empty tables -/
  | newstate (user_id : Oid) (addr : Nat)
  /-- a lookup in the interpreter at place `k` of the hash table -/
  | lookup (k : Nat) (depth : Nat) (oid : Oid) (typmod : Int)

def Cache.empty (t : Typeinfo) : Cache := ⟨fun _ => t, 0, [], []⟩

/-- What stands in a slot of the object memory before an object is built there. -/
def unbuilt : Typeinfo :=
  { typeoid := 0, typmod := -1, arity := 1, natts := -1, tupdesc := none, reloid := 0
    basetype := 0, basetypmod := -1, elemtype := 0, rangetype := 0, hasoid := false
    is_array := false, is_range := false, is_enum := false, is_anonymous_record := false
    nested_unknowns := false, nested_composites := false, revalidate := false
    modified := false, obsolete := false, io := ⟨0, false, 'i', ',', 0, 0⟩
    fromsql := 0, tosql := 0, attrtypes := [] }

/-- The lookup of an action, in the cache of its interpreter. -/
def lookup_in (b : Backend) (depth : Nat) (oid : Oid) (typmod : Int) (i : Interp) :
    Except String Looked × Cache :=
  pllua_typeinfo_lookup b.cat depth oid typmod i.cache

def step (b : Backend) : Action → Backend
  | .alter_table relid d =>
    pllua_relcache_callback none relid { b with cat := b.cat.alter relid d }
  | .relcache arg relid => pllua_relcache_callback arg relid b
  | .alter_type cat =>
    pllua_syscache_typeoid_callback none { b with cat := { cat with relations := b.cat.relations } }
  | .newstate user_id addr =>
    { b with hash := b.hash ++ [⟨user_id, some ⟨addr, true, ⟨false, false, false, 0, 0⟩,
        Cache.empty unbuilt⟩⟩] }
  | .lookup k depth oid typmod =>
    { b with hash := b.hash.modify k fun ent =>
        { ent with interp := ent.interp.map fun i =>
            { i with cache := (lookup_in b depth oid typmod i).2 } } }

/-! ## The laws to be kept -/

/-- The entries of a cache that a callback for the relation is about: those of the
relation, or those of every relation for `InvalidOid`. -/
def Concerned (relid : Oid) (t : Typeinfo) : Prop :=
  if relid = InvalidOid then t.reloid ≠ InvalidOid else t.reloid = relid

instance (relid : Oid) (t : Typeinfo) : Decidable (Concerned relid t) :=
  inferInstanceAs (Decidable
    (if relid = InvalidOid then t.reloid ≠ InvalidOid else t.reloid = relid))

/-- Every interned row type of the relation is flagged. -/
def Flagged (relid : Oid) (c : Cache) : Prop :=
  ∀ e ∈ c.types, Concerned relid (c.objs e.2) → (c.objs e.2).revalidate = true

instance (relid : Oid) (c : Cache) : Decidable (Flagged relid c) :=
  inferInstanceAs (Decidable (∀ e ∈ c.types, _ → _))

/-- The same in every interpreter that the callback reaches. -/
def AllFlagged (arg : Option Nat) (relid : Oid) (b : Backend) : Prop :=
  ∀ ent ∈ b.hash, ∀ i, ent.interp = some i → Reached arg i → Flagged relid i.cache

/-- A row type has the descriptor that its relation has now. -/
def Current (cat : Catalog) (t : Typeinfo) : Prop :=
  t.reloid ≠ InvalidOid → t.tupdesc = cat.relations t.reloid

instance (cat : Catalog) (t : Typeinfo) : Decidable (Current cat t) :=
  inferInstanceAs (Decidable (_ → _))

/-- A lookup gives no row type with an outdated descriptor, unless it has compared it
with a new one. -/
def NeverStale (b : Backend) : Action → Prop
  | .lookup k depth oid typmod =>
    ∀ ent ∈ b.hash[k]?, ∀ i, ent.interp = some i →
      ∀ r c, lookup_in b depth oid typmod i = (.ok r, c) →
        ∀ o, r.obj = some o → ¬ Current b.cat (c.objs o) → r.compared = true
  | _ => True

/-! ## What an invalidation changes -/

theorem flag_each_frame (test : Typeinfo → Bool) (es : List (Oid × ObjId)) (c : Cache) :
    (flag_each test es c).types = c.types ∧ (flag_each test es c).records = c.records ∧
      (flag_each test es c).next = c.next := by
  induction es generalizing c with
  | nil => exact ⟨rfl, rfl, rfl⟩
  | cons e es ih =>
    simp only [flag_each]
    split
    · exact ih _
    · exact ih _

/-- An object that the loop passes is flagged when the test accepts it, and is
otherwise unchanged. -/
theorem flag_each_objs (test : Typeinfo → Bool) (es : List (Oid × ObjId)) (c : Cache)
    (id : ObjId) : (flag_each test es c).objs id =
      if test (c.objs id) && es.any (·.2 == id) then (c.objs id).flag else c.objs id := by
  induction es generalizing c with
  | nil => simp [flag_each]
  | cons e es ih =>
    rw [flag_each, ih, List.any_cons]
    by_cases he : e.2 = id
    · subst he
      by_cases ht : test (c.objs e.2) = true
      · simp [ht, Typeinfo.flag]
      · simp [ht]
    · have hid : (if test (c.objs e.2) then c.modify e.2 Typeinfo.flag else c).objs id =
          c.objs id := by
        split
        · exact modify_of_ne _ _ (Ne.symm he)
        · rfl
      rw [hid, beq_false_of_ne he, Bool.false_or]

/-- The cache `c'` is `c` with some objects flagged. -/
structure Flagging (c c' : Cache) : Prop where
  types : c'.types = c.types
  records : c'.records = c.records
  next : c'.next = c.next
  objs : ∀ id, c'.objs id = c.objs id ∨ c'.objs id = (c.objs id).flag

theorem Flagging.refl (c : Cache) : Flagging c c := ⟨rfl, rfl, rfl, fun _ => Or.inl rfl⟩

theorem Flagging.trans {a b c : Cache} (h1 : Flagging a b) (h2 : Flagging b c) : Flagging a c := by
  refine ⟨h2.types.trans h1.types, h2.records.trans h1.records, h2.next.trans h1.next, ?_⟩
  intro id
  rcases h1.objs id with h | h <;> rcases h2.objs id with h' | h' <;>
    simp [h', h, Typeinfo.flag]

theorem flagging_modify (c : Cache) (id : ObjId) : Flagging c (c.modify id Typeinfo.flag) := by
  refine ⟨rfl, rfl, rfl, fun k => ?_⟩
  by_cases h : k = id
  · subst h; exact Or.inr (modify_self c k _)
  · exact Or.inl (modify_of_ne c _ h)

theorem flagging_flag_each (test : Typeinfo → Bool) (es : List (Oid × ObjId)) (c : Cache) :
    Flagging c (flag_each test es c) := by
  obtain ⟨h1, h2, h3⟩ := flag_each_frame test es c
  refine ⟨h1, h2, h3, fun id => ?_⟩
  rw [flag_each_objs]
  split
  · exact Or.inr rfl
  · exact Or.inl rfl

theorem flagging_invalidate (inval : CacheInval) (c : Cache) :
    Flagging c (pllua_typeinfo_invalidate inval c) := by
  have h1 : Flagging c (invalidate_type inval c) := by
    unfold invalidate_type
    split
    · split
      · split
        · exact flagging_modify _ _
        · exact Flagging.refl c
      · exact flagging_flag_each _ _ _
    · exact Flagging.refl c
  refine h1.trans ?_
  unfold pllua_typeinfo_invalidate invalidate_rel
  split
  · exact flagging_flag_each _ _ _
  · exact Flagging.refl _

/-- The callback for a relation flags only objects with no relation. -/
theorem relcache_flags_no_row_type (c : Cache) (id : ObjId)
    (h : (c.objs id).reloid ≠ InvalidOid) :
    (pllua_typeinfo_invalidate ⟨false, true, false, InvalidOid, InvalidOid⟩ c).objs id =
      c.objs id := by
  simp [pllua_typeinfo_invalidate, invalidate_rel, invalidate_type, flag_each_objs, h]

/-- The callback for the types flags every interned object. -/
theorem typeoid_flags_all (c : Cache) :
    ∀ e ∈ c.types, ((pllua_typeinfo_invalidate ⟨true, false, false, InvalidOid, InvalidOid⟩
      c).objs e.2).revalidate = true := by
  intro e he
  have hany : c.types.any (·.2 == e.2) = true := List.any_eq_true.mpr ⟨e, he, by simp⟩
  simp [pllua_typeinfo_invalidate, invalidate_rel, invalidate_type, flag_each_objs, hany,
    Typeinfo.flag]

/-! ## The cache is coherent -/

/-- The invariant of a cache. An entry that is not flagged has the current
descriptor. The other laws say which object may stand under which key. -/
structure Coherent (cat : Catalog) (c : Cache) : Prop where
  types_lt : ∀ e ∈ c.types, e.2 < c.next
  records_lt : ∀ e ∈ c.records, e.2 < c.next
  types_oid : ∀ e ∈ c.types, (c.objs e.2).typeoid = e.1
  records_oid : ∀ e ∈ c.records, (c.objs e.2).typeoid = RECORDOID
  record_rel : ∀ id < c.next, (c.objs id).typeoid = RECORDOID → (c.objs id).reloid = InvalidOid
  current : ∀ e ∈ c.types, (c.objs e.2).revalidate = false → Current cat (c.objs e.2)

theorem coherent_empty (cat : Catalog) (t : Typeinfo) : Coherent cat (Cache.empty t) := by
  refine ⟨?_, ?_, ?_, ?_, ?_, ?_⟩ <;> simp [Cache.empty]

theorem Coherent.flagging {cat : Catalog} {c c' : Cache} (h : Coherent cat c)
    (hf : Flagging c c') : Coherent cat c' := by
  have hsame : ∀ id, (c'.objs id).typeoid = (c.objs id).typeoid ∧
      (c'.objs id).reloid = (c.objs id).reloid ∧ (c'.objs id).tupdesc = (c.objs id).tupdesc := by
    intro id
    rcases hf.objs id with h1 | h1 <;> rw [h1] <;> exact ⟨rfl, rfl, rfl⟩
  refine ⟨?_, ?_, ?_, ?_, ?_, ?_⟩
  · rw [hf.types, hf.next]; exact h.types_lt
  · rw [hf.records, hf.next]; exact h.records_lt
  · intro e he
    rw [(hsame e.2).1]
    exact h.types_oid e (hf.types ▸ he)
  · intro e he
    rw [(hsame e.2).1]
    exact h.records_oid e (hf.records ▸ he)
  · intro id hid ho
    rw [(hsame id).2.1]
    exact h.record_rel id (hf.next ▸ hid) ((hsame id).1 ▸ ho)
  · intro e he hr hrel
    rw [(hsame e.2).2.2]
    rw [(hsame e.2).2.1] at hrel ⊢
    have hr' : (c.objs e.2).revalidate = false := by
      rcases hf.objs e.2 with h1 | h1
      · rw [← h1]; exact hr
      · rw [h1] at hr; simp [Typeinfo.flag] at hr
    exact h.current e (hf.types ▸ he) hr' hrel

/-- A change of a relation keeps the invariant when the entries of the relation are
flagged before it. -/
theorem Coherent.alter {cat : Catalog} {c : Cache} {relid : Oid} (d : Option TupleDesc)
    (h : Coherent cat c)
    (hf : Flagged relid c) : Coherent (cat.alter relid d) c := by
  refine ⟨h.types_lt, h.records_lt, h.types_oid, h.records_oid, h.record_rel, ?_⟩
  intro e he hr hrel
  have hne : (c.objs e.2).reloid ≠ relid := by
    intro heq
    have hconc : Concerned relid (c.objs e.2) := by
      unfold Concerned
      split
      · exact hrel
      · exact heq
    rw [hf e he hconc] at hr
    cases hr
  rw [h.current e he hr hrel]
  simp [Catalog.alter, Function.update_of_ne hne]

/-! ## A lookup keeps the cache coherent -/

/-- Objects are only added, and keep their type. -/
structure Grows (c c' : Cache) : Prop where
  next_le : c.next ≤ c'.next
  oid : ∀ id < c.next, (c'.objs id).typeoid = (c.objs id).typeoid

theorem Grows.refl (c : Cache) : Grows c c := ⟨Nat.le_refl _, fun _ _ => rfl⟩

theorem Grows.trans {a b c : Cache} (h1 : Grows a b) (h2 : Grows b c) : Grows a c :=
  ⟨Nat.le_trans h1.next_le h2.next_le, fun id hid => by
    rw [h2.oid id (Nat.lt_of_lt_of_le hid h1.next_le), h1.oid id hid]⟩

/-- What each function that works on the cache keeps. -/
def Keeps {α : Type} (cat : Catalog) (f : LuaFn α) : Prop :=
  ∀ c, Coherent cat c → Coherent cat (f c).2 ∧ Grows c (f c).2

/-- The catalogs' own reading of a type has the current descriptor. -/
theorem read_catalog_current {cat : Catalog} {oid : Oid} {typmod : Int}
    {d : Option TupleDesc} {t : Typeinfo} (h : read_catalog cat oid typmod d = some t) :
    t.typeoid = oid ∧ (oid = RECORDOID → t.reloid = InvalidOid) ∧ Current cat t := by
  unfold read_catalog at h
  split at h
  · split at h
    · simp only [Option.map_eq_some_iff] at h
      obtain ⟨r, -, rfl⟩ := h
      exact ⟨rfl, fun _ => rfl, fun hr => absurd rfl hr⟩
    · cases h
      exact ⟨rfl, fun _ => rfl, fun hr => absurd rfl hr⟩
  · rename_i hne
    simp only [Option.map_eq_some_iff] at h
    obtain ⟨pt, hpt, rfl⟩ := h
    refine ⟨rfl, fun ho => absurd ho hne, ?_⟩
    intro hrel
    by_cases hcomp : pt.typtype = .composite
    · cases hd : cat.rowdesc pt.basetype with
      | none => simp [hcomp, hd] at hrel
      | some d =>
        simp only [hcomp, hd, if_true, Option.isSome_some] at hrel ⊢
        rw [cat.own_base oid pt hpt hrel] at hd
        simpa [Catalog.rowdesc, hpt] using hd.symm
    · simp [hcomp] at hrel

section
variable {cat : Catalog} {lookup : Oid → Int → LuaFn Looked}

/-- A new object is not interned, and does not touch the others. -/
theorem coherent_alloc {c : Cache} {t : Typeinfo} (h : Coherent cat c)
    (ht : t.typeoid = RECORDOID → t.reloid = InvalidOid) :
    Coherent cat (alloc t c).2 ∧ Grows c (alloc t c).2 := by
  have hold : ∀ id < c.next, (alloc t c).2.objs id = c.objs id := by
    intro id hid
    simp [alloc, Function.update_of_ne (Nat.ne_of_lt hid)]
  refine ⟨⟨?_, ?_, ?_, ?_, ?_, ?_⟩, ⟨Nat.le_succ _, fun id hid => by rw [hold id hid]⟩⟩
  · exact fun e he => Nat.lt_succ_of_lt (h.types_lt e he)
  · exact fun e he => Nat.lt_succ_of_lt (h.records_lt e he)
  · intro e he
    rw [hold _ (h.types_lt e he)]
    exact h.types_oid e he
  · intro e he
    rw [hold _ (h.records_lt e he)]
    exact h.records_oid e he
  · intro id hid ho
    rcases Nat.lt_succ_iff_lt_or_eq.mp hid with h1 | h1
    · rw [hold id h1] at ho ⊢
      exact h.record_rel id h1 ho
    · subst h1
      simp only [alloc, Function.update_self] at ho ⊢
      exact ht ho
  · intro e he
    rw [hold _ (h.types_lt e he)]
    exact h.current e he

/-- What `pllua_newtypeinfo` gives: an object that is in no table, of the type
asked for, with the current descriptor. -/
structure New (cat : Catalog) (oid : Oid) (c : Cache) (n : ObjId) : Prop where
  lt : n < c.next
  types : ∀ e ∈ c.types, e.2 ≠ n
  records : ∀ e ∈ c.records, e.2 ≠ n
  typeoid : (c.objs n).typeoid = oid
  current : Current cat (c.objs n)

theorem new_alloc {c : Cache} {t : Typeinfo} (h : Coherent cat c) (ht : Current cat t) :
    New cat t.typeoid (alloc t c).2 (alloc t c).1 := by
  refine ⟨Nat.lt_succ_self _, ?_, ?_, by simp [alloc], by simpa [alloc] using ht⟩
  · exact fun e he => Nat.ne_of_lt (h.types_lt e he)
  · exact fun e he => Nat.ne_of_lt (h.records_lt e he)

theorem newtypeinfo_spec (hl : ∀ oid typmod, Keeps cat (lookup oid typmod)) (oid : Oid)
    (typmod : Int) (c : Cache) (hc : Coherent cat c) :
    Coherent cat (pllua_newtypeinfo lookup cat oid typmod c).2 ∧
      Grows c (pllua_newtypeinfo lookup cat oid typmod c).2 ∧
      ∀ n, (pllua_newtypeinfo lookup cat oid typmod c).1 = .ok (some n) →
        New cat oid (pllua_newtypeinfo lookup cat oid typmod c).2 n := by
  obtain ⟨c1, h1, h2, ⟨hcache, hnone⟩ | ⟨t, c2, ids, hr, heq⟩⟩ := newtypeinfo_cases cat
    Grows.refl (fun _ _ _ => Grows.trans) (fun oid typmod _ => hl oid typmod) oid typmod c hc
  · rw [hcache]
    exact ⟨h1, h2, fun n hn => absurd hn (hnone n)⟩
  · obtain ⟨hoid, hrec, hcur⟩ := read_catalog_current hr
    have h4 := coherent_alloc (t := with_columns t c2 ids) h1 (fun ho => hrec (hoid ▸ ho))
    rw [heq]
    refine ⟨h4.1, h2.trans h4.2, ?_⟩
    intro n hn
    cases hn
    have hnew := new_alloc (t := with_columns t c2 ids) h1 hcur
    exact hoid ▸ hnew

theorem mem_rawseti {key : Nat} {id : Option ObjId} {tab : List (Nat × ObjId)}
    {e : Nat × ObjId} (h : e ∈ rawseti key id tab) :
    (∃ n, id = some n ∧ e = (key, n)) ∨ e ∈ tab ∧ e.1 ≠ key := by
  unfold rawseti at h
  rcases List.mem_append.mp h with h | h
  · cases id with
    | none => simp at h
    | some n => exact Or.inl ⟨n, rfl, by simpa using h⟩
  · exact Or.inr (by simpa using h)

/-- A new object under the key of its type. -/
theorem coherent_store {c : Cache} {oid : Oid} (typmod : Int) {nobj : Option ObjId}
    (h : Coherent cat c) (hn : ∀ n, nobj = some n → New cat oid c n) :
    Coherent cat (c.store oid typmod nobj) ∧ Grows c (c.store oid typmod nobj) := by
  unfold Cache.store
  split
  · rename_i hrec
    simp only [is_record, Bool.and_eq_true, decide_eq_true_eq] at hrec
    refine ⟨⟨h.types_lt, ?_, h.types_oid, ?_, h.record_rel, h.current⟩,
      ⟨Nat.le_refl _, fun _ _ => rfl⟩⟩
    · intro e he
      rcases mem_rawseti he with ⟨n, hs, rfl⟩ | ⟨he, -⟩
      · exact (hn n hs).lt
      · exact h.records_lt e he
    · intro e he
      rcases mem_rawseti he with ⟨n, hs, rfl⟩ | ⟨he, -⟩
      · exact (hn n hs).typeoid.trans hrec.1
      · exact h.records_oid e he
  · refine ⟨⟨?_, h.records_lt, ?_, h.records_oid, h.record_rel, ?_⟩,
      ⟨Nat.le_refl _, fun _ _ => rfl⟩⟩
    · intro e he
      rcases mem_rawseti he with ⟨n, hs, rfl⟩ | ⟨he, -⟩
      · exact (hn n hs).lt
      · exact h.types_lt e he
    · intro e he
      rcases mem_rawseti he with ⟨n, hs, rfl⟩ | ⟨he, -⟩
      · exact (hn n hs).typeoid
      · exact h.types_oid e he
    · intro e he hr
      rcases mem_rawseti he with ⟨n, hs, rfl⟩ | ⟨he, -⟩
      · exact (hn n hs).current
      · exact h.current e he hr

/-- A change of one object that keeps its type and relation. If the object is
interned, it must have the current descriptor after the change. -/
theorem coherent_modify {c : Cache} {o : ObjId} {f : Typeinfo → Typeinfo} (h : Coherent cat c)
    (hf : (f (c.objs o)).typeoid = (c.objs o).typeoid ∧ (f (c.objs o)).reloid = (c.objs o).reloid)
    (hcur : (∃ e ∈ c.types, e.2 = o) → Current cat (f (c.objs o))) :
    Coherent cat (c.modify o f) ∧ Grows c (c.modify o f) := by
  have hsame : ∀ id, ((c.modify o f).objs id).typeoid = (c.objs id).typeoid ∧
      ((c.modify o f).objs id).reloid = (c.objs id).reloid := by
    intro id
    by_cases hid : id = o
    · subst hid; rw [modify_self]; exact hf
    · rw [modify_of_ne _ _ hid]; exact ⟨rfl, rfl⟩
  refine ⟨⟨h.types_lt, h.records_lt, ?_, ?_, ?_, ?_⟩, ⟨Nat.le_refl _, fun id _ => (hsame id).1⟩⟩
  · intro e he
    rw [(hsame e.2).1]
    exact h.types_oid e he
  · intro e he
    rw [(hsame e.2).1]
    exact h.records_oid e he
  · intro id hid ho
    rw [(hsame id).1] at ho
    rw [(hsame id).2]
    exact h.record_rel id hid ho
  · intro e he hr
    by_cases hid : e.2 = o
    · rw [hid, modify_self]
      exact hcur ⟨e, he, hid⟩
    · rw [modify_of_ne _ _ hid] at hr ⊢
      exact h.current e he hr

theorem store_modify (c : Cache) (o : ObjId) (f : Typeinfo → Typeinfo) (oid : Oid) (typmod : Int)
    (nobj : Option ObjId) :
    (c.modify o f).store oid typmod nobj = (c.store oid typmod nobj).modify o f := by
  unfold Cache.store
  split <;> rfl

/-- The old object leaves its key, and the new one, if any, takes it. -/
theorem coherent_replace {c : Cache} {oid : Oid} {o : ObjId} (typmod : Int) (nobj : Option ObjId)
    (f : Typeinfo → Typeinfo) (h : Coherent cat c)
    (hf : (f (c.objs o)).typeoid = (c.objs o).typeoid ∧ (f (c.objs o)).reloid = (c.objs o).reloid)
    (hlt : o < c.next) (ho : (c.objs o).typeoid = oid)
    (hn : ∀ n, nobj = some n → New cat oid c n ∧ n ≠ o) :
    Coherent cat ((c.modify o f).store oid typmod nobj) ∧
      Grows c ((c.modify o f).store oid typmod nobj) := by
  have hs := coherent_store typmod h (fun n hn' => (hn n hn').1)
  rw [store_modify]
  have hobjs : (c.store oid typmod nobj).objs = c.objs := by unfold Cache.store; split <;> rfl
  have hm := coherent_modify (o := o) (f := f) hs.1 (by rw [hobjs]; exact hf) (by
    rintro ⟨e, he, rfl⟩ hrel
    rw [hobjs, hf.2] at hrel
    unfold Cache.store at he
    split at he
    · rename_i hrec
      simp only [is_record, Bool.and_eq_true, decide_eq_true_eq] at hrec
      exact absurd (h.record_rel _ hlt (ho.trans hrec.1)) hrel
    · -- any other key of the table holds an object of another type
      rcases mem_rawseti he with ⟨n, hs', rfl⟩ | ⟨he', hkey⟩
      · exact absurd rfl (hn n hs').2
      · exact absurd ((h.types_oid e he').symm.trans ho) hkey)
  exact ⟨hm.1, hs.2.trans hm.2⟩

theorem eq_current {a b : Typeinfo} (h : pllua_typeinfo_eq a b = true) (hb : Current cat b) :
    Current cat a := by
  simp only [pllua_typeinfo_eq, Bool.and_eq_true, beq_iff_eq] at h
  obtain ⟨⟨⟨⟨⟨⟨-, htup⟩, hrel⟩, -⟩, -⟩, -⟩, -⟩ := h
  unfold Current
  rw [htup, hrel]
  exact hb

theorem settle_spec {c : Cache} {oid : Oid} (typmod : Int) {obj nobj : Option ObjId}
    (h : Coherent cat c) (ho : ∀ o, obj = some o → o < c.next ∧ (c.objs o).typeoid = oid)
    (hn : ∀ n, nobj = some n → New cat oid c n) :
    Coherent cat (settle oid typmod obj nobj c).2 ∧ Grows c (settle oid typmod obj nobj c).2 ∧
      (settle oid typmod obj nobj c).1.compared = true := by
  unfold settle
  split
  · rename_i o n
    have hnew := hn n rfl
    split
    · rename_i heq
      have hcur : Current cat (c.objs o) := by
        rcases heq with heq | heq
        · exact heq ▸ hnew.current
        · exact eq_current heq hnew.current
      have hm := coherent_modify (o := o) (f := fun t => t.refresh (c.objs n)) h ⟨rfl, rfl⟩
        (fun _ => hcur)
      exact ⟨hm.1, hm.2, rfl⟩
    · rename_i hne
      have hm := coherent_replace typmod (some n) Typeinfo.replaced h
        ⟨rfl, rfl⟩ (ho o rfl).1 (ho o rfl).2 (by
          rintro k ⟨⟩
          exact ⟨hnew, fun hk => hne (Or.inl hk.symm)⟩)
      exact ⟨hm.1, hm.2, rfl⟩
  · rename_i o
    have hm := coherent_replace typmod none Typeinfo.dropped h
      ⟨rfl, rfl⟩ (ho o rfl).1 (ho o rfl).2 (by simp)
    exact ⟨hm.1, hm.2, rfl⟩
  · have hs := coherent_store typmod h hn
    exact ⟨hs.1, hs.2, rfl⟩

theorem lookup_mem {tab : List (Nat × ObjId)} {key : Nat} {o : ObjId}
    (h : tab.lookup key = some o) : (key, o) ∈ tab := by
  induction tab with
  | nil => cases h
  | cons e es ih =>
    rw [List.lookup_cons] at h
    split at h
    · rename_i hk
      cases h
      rw [beq_iff_eq.mp hk]
      exact List.mem_cons_self
    · exact List.mem_cons_of_mem _ (ih h)

/-- What the table holds for a type: an object of that type, which has the current
descriptor when it is not flagged. -/
theorem find_spec {c : Cache} {oid : Oid} {typmod : Int} {o : ObjId} (h : Coherent cat c)
    (hf : c.find oid typmod = some o) :
    o < c.next ∧ (c.objs o).typeoid = oid ∧
      ((c.objs o).revalidate = false → Current cat (c.objs o)) := by
  unfold Cache.find at hf
  split at hf
  · rename_i hrec
    simp only [is_record, Bool.and_eq_true, decide_eq_true_eq] at hrec
    have hm := lookup_mem hf
    have hlt := h.records_lt _ hm
    refine ⟨hlt, (h.records_oid _ hm).trans hrec.1.symm, ?_⟩
    intro _ hrel
    exact absurd (h.record_rel _ hlt (h.records_oid _ hm)) hrel
  · have hm := lookup_mem hf
    exact ⟨h.types_lt _ hm, h.types_oid _ hm, h.current _ hm⟩

end

/-- A lookup keeps the invariant. When it has not compared, what it gives has the
current descriptor. -/
theorem lookup_spec (cat : Catalog) (depth : Nat) (oid : Oid) (typmod : Int) (c : Cache)
    (hc : Coherent cat c) :
    Coherent cat (pllua_typeinfo_lookup cat depth oid typmod c).2 ∧
      Grows c (pllua_typeinfo_lookup cat depth oid typmod c).2 ∧
      ∀ r, (pllua_typeinfo_lookup cat depth oid typmod c).1 = .ok r → r.compared = false →
        ∀ o, r.obj = some o →
          Current cat ((pllua_typeinfo_lookup cat depth oid typmod c).2.objs o) := by
  induction depth generalizing oid typmod c with
  | zero => exact ⟨hc, Grows.refl c, by simp [pllua_typeinfo_lookup]⟩
  | succ depth ih =>
    unfold pllua_typeinfo_lookup
    split
    · exact ⟨hc, Grows.refl c, by simp⟩
    simp only
    split
    · rename_i o ho
      refine ⟨hc, Grows.refl c, ?_⟩
      rintro r ⟨⟩ - k ⟨⟩
      obtain ⟨hfind, hflag⟩ := Option.filter_eq_some_iff.mp ho
      exact (find_spec hc hfind).2.2 (by simpa using hflag)
    · have hk : ∀ oid typmod, Keeps cat (pllua_typeinfo_lookup cat depth oid typmod) :=
        fun oid typmod c hc => ⟨(ih oid typmod c hc).1, (ih oid typmod c hc).2.1⟩
      obtain ⟨h1, h2, h3⟩ := newtypeinfo_spec hk oid typmod c hc
      split
      · rename_i heq
        rw [heq] at h1 h2
        exact ⟨h1, h2, by simp⟩
      · rename_i nobj c1 heq
        rw [heq] at h1 h2 h3
        have hobj : ∀ o, c.find oid typmod = some o → o < c1.next ∧ (c1.objs o).typeoid = oid := by
          intro o ho
          obtain ⟨hlt, hoid, -⟩ := find_spec hc ho
          exact ⟨Nat.lt_of_lt_of_le hlt h2.next_le, (h2.oid o hlt).trans hoid⟩
        obtain ⟨h4, h5, h6⟩ := settle_spec typmod h1 hobj
          (fun n hn => h3 n (congrArg Except.ok hn))
        refine ⟨h4, h2.trans h5, ?_⟩
        rintro r ⟨⟩ hr
        rw [h6] at hr
        cases hr

/-! ## The callback for a relation -/

/-- What the callback for a relation does to one interpreter. -/
def relcache_interp (arg : Option Nat) (i : Interp) : Interp :=
  if Reached arg i then
    { i with
      inval := ⟨false, true, false, InvalidOid, InvalidOid⟩
      cache := pllua_typeinfo_invalidate ⟨false, true, false, InvalidOid, InvalidOid⟩ i.cache }
  else i

theorem mem_relcache {arg : Option Nat} {relid : Oid} {b : Backend} {ent : HashEnt} {i : Interp}
    (he : ent ∈ (pllua_relcache_callback arg relid b).hash) (hi : ent.interp = some i) :
    ∃ ent0 ∈ b.hash, ∃ i0, ent0.interp = some i0 ∧ i = relcache_interp arg i0 := by
  unfold pllua_relcache_callback pllua_callback_broadcast at he
  obtain ⟨ent0, h0, rfl⟩ := List.mem_map.mp he
  simp only [Option.map_eq_some_iff] at hi
  obtain ⟨i0, hi0, rfl⟩ := hi
  exact ⟨ent0, h0, i0, hi0, rfl⟩

theorem relcache_mem (arg : Option Nat) (relid : Oid) {b : Backend} {ent : HashEnt} {i : Interp}
    (he : ent ∈ b.hash) (hi : ent.interp = some i) :
    ∃ ent' ∈ (pllua_relcache_callback arg relid b).hash,
      ent'.interp = some (relcache_interp arg i) := by
  refine ⟨_, List.mem_map.mpr ⟨ent, he, rfl⟩, ?_⟩
  simp [hi, relcache_interp]

theorem concerned_row_type {relid : Oid} {t : Typeinfo} (h : Concerned relid t) :
    t.reloid ≠ InvalidOid := by
  unfold Concerned at h
  split at h
  · exact h
  · rename_i hne
    rw [h]
    exact hne

theorem reached_relcache_interp (arg : Option Nat) (i : Interp) :
    Reached arg (relcache_interp arg i) ↔ Reached arg i := by
  unfold relcache_interp
  split <;> exact Iff.rfl

/-- No flag of a row type changes in the callback for a relation. -/
theorem flagged_relcache_interp (arg : Option Nat) (relid : Oid) (i : Interp) :
    Flagged relid (relcache_interp arg i).cache ↔ Flagged relid i.cache := by
  unfold relcache_interp
  split
  · have hf := flagging_invalidate ⟨false, true, false, InvalidOid, InvalidOid⟩ i.cache
    constructor
    · intro h e he hc
      have hsame := relcache_flags_no_row_type i.cache e.2 (concerned_row_type hc)
      have hrev := h e (hf.types.symm ▸ he)
      simp only [hsame] at hrev
      exact hrev hc
    · intro h e he hc
      have hrel : ((pllua_typeinfo_invalidate ⟨false, true, false, InvalidOid, InvalidOid⟩
          i.cache).objs e.2).reloid = (i.cache.objs e.2).reloid := by
        rcases hf.objs e.2 with h1 | h1
        · rw [h1]
        · rw [h1]; rfl
      have hsame := relcache_flags_no_row_type i.cache e.2 (hrel ▸ concerned_row_type hc)
      simp only [hsame] at hc ⊢
      exact h e (hf.types ▸ he) hc
  · exact Iff.rfl

/-- After the callback for a relation the row types of the relation are flagged
where they were flagged before it. -/
theorem relcache_allFlagged (arg : Option Nat) (relid : Oid) (b : Backend) :
    AllFlagged arg relid (pllua_relcache_callback arg relid b) ↔ AllFlagged arg relid b := by
  constructor
  · intro h ent he i hi hr
    obtain ⟨ent', he', hi'⟩ := relcache_mem arg relid he hi
    have hflag := h ent' he' _ hi' ((reached_relcache_interp arg i).mpr hr)
    exact (flagged_relcache_interp arg relid i).mp hflag
  · intro h ent he i hi hr
    obtain ⟨ent0, he0, i0, hi0, rfl⟩ := mem_relcache he hi
    have hflag := h ent0 he0 i0 hi0 ((reached_relcache_interp arg i0).mp hr)
    exact (flagged_relcache_interp arg relid i0).mpr hflag

/-! ## The law of a session -/

/-- Every interpreter has a state, and its cache is coherent with the catalogs. -/
def AllCoherent (b : Backend) : Prop :=
  ∀ ent ∈ b.hash, ∀ i, ent.interp = some i → i.is_open = true ∧ Coherent b.cat i.cache

/-- The condition of a step: when a relation changes, its row types are flagged already. -/
def FlaggedBefore (b : Backend) : Action → Prop
  | .alter_table relid _ => AllFlagged none relid b
  | _ => True

theorem allCoherent_relcache {b : Backend} (arg : Option Nat) (relid : Oid)
    (h : AllCoherent b) : AllCoherent (pllua_relcache_callback arg relid b) := by
  intro ent he i hi
  obtain ⟨ent0, he0, i0, hi0, rfl⟩ := mem_relcache he hi
  obtain ⟨hopen, hcoh⟩ := h ent0 he0 i0 hi0
  unfold relcache_interp
  split
  · have hf := flagging_invalidate ⟨false, true, false, InvalidOid, InvalidOid⟩ i0.cache
    exact ⟨hopen, hcoh.flagging hf⟩
  · exact ⟨hopen, hcoh⟩

theorem coherent_all_flagged {cat cat' : Catalog} {c c' : Cache} (h : Coherent cat c)
    (hf : Flagging c c') (hall : ∀ e ∈ c'.types, (c'.objs e.2).revalidate = true) :
    Coherent cat' c' := by
  have h' := h.flagging hf
  refine ⟨h'.types_lt, h'.records_lt, h'.types_oid, h'.records_oid, h'.record_rel, ?_⟩
  intro e he hr
  rw [hall e he] at hr
  cases hr

theorem mem_modify {α : Type} {f : α → α} {k : Nat} {l : List α} {x : α}
    (h : x ∈ l.modify k f) : x ∈ l ∨ ∃ y ∈ l, x = f y := by
  obtain ⟨n, hn⟩ := List.mem_iff_getElem?.mp h
  rw [List.getElem?_modify] at hn
  obtain ⟨y, hy, rfl⟩ := Option.map_eq_some_iff.mp hn
  have hmem := List.mem_of_getElem? hy
  by_cases hk : k = n
  · exact Or.inr ⟨y, hmem, by simp [hk]⟩
  · exact Or.inl (by simpa [hk] using hmem)

/-- What each step keeps. -/
theorem step_allCoherent (b : Backend) (a : Action) (h : AllCoherent b)
    (hok : FlaggedBefore b a) : AllCoherent (step b a) := by
  cases a with
  | alter_table relid d =>
    refine allCoherent_relcache none relid ?_
    intro ent he i hi
    obtain ⟨hopen, hcoh⟩ := h ent he i hi
    exact ⟨hopen, hcoh.alter d (hok ent he i hi ⟨hopen, Or.inl rfl⟩)⟩
  | relcache arg relid => exact allCoherent_relcache arg relid h
  | alter_type cat =>
    intro ent he i hi
    obtain ⟨ent0, he0, rfl⟩ := List.mem_map.mp he
    simp only [Option.map_eq_some_iff] at hi
    obtain ⟨i0, hi0, rfl⟩ := hi
    obtain ⟨hopen, hcoh⟩ := h ent0 he0 i0 hi0
    have hreached : Reached none i0 := ⟨hopen, Or.inl rfl⟩
    rw [if_pos hreached]
    have hf := flagging_invalidate ⟨true, false, false, InvalidOid, InvalidOid⟩ i0.cache
    refine ⟨hopen, coherent_all_flagged hcoh hf ?_⟩
    intro e he
    exact typeoid_flags_all i0.cache e (hf.types ▸ he)
  | newstate user_id addr =>
    intro ent he i hi
    rcases List.mem_append.mp he with he | he
    · exact h ent he i hi
    · rw [List.mem_singleton.mp he] at hi
      cases hi
      exact ⟨rfl, coherent_empty b.cat unbuilt⟩
  | lookup k depth oid typmod =>
    intro ent he i hi
    rcases mem_modify he with he | ⟨ent0, he0, rfl⟩
    · exact h ent he i hi
    · simp only [Option.map_eq_some_iff] at hi
      obtain ⟨i0, hi0, rfl⟩ := hi
      obtain ⟨hopen, hcoh⟩ := h ent0 he0 i0 hi0
      exact ⟨hopen, (lookup_spec b.cat depth oid typmod i0.cache hcoh).1⟩

/-- Where every cache is coherent, no lookup gives an outdated row type uncompared. -/
theorem coherent_never_stale (b : Backend) (a : Action) (h : AllCoherent b) : NeverStale b a := by
  cases a with
  | lookup k depth oid typmod =>
    intro ent he i hi r c hl o ho hstale
    obtain ⟨-, hcoh⟩ := h ent (List.mem_of_getElem? he) i hi
    obtain ⟨-, -, hcur⟩ := lookup_spec b.cat depth oid typmod i.cache hcoh
    unfold lookup_in at hl
    rw [hl] at hcur
    by_contra hcomp
    exact hstale (hcur r rfl (by simpa using hcomp) o ho)
  | alter_table => trivial
  | relcache => trivial
  | alter_type => trivial
  | newstate => trivial

/-- The callback for a relation leaves flagged what was flagged before it, and no more.
In a session where each change of a relation finds its row types flagged already, no
lookup gives a row type with an outdated descriptor uncompared. -/
theorem a_row_type_is_checked_only_if_it_was_flagged_before (cat : Catalog) (as : List Action) :
    (∀ (b : Backend) (arg : Option Nat) (relid : Oid),
      AllFlagged arg relid (pllua_relcache_callback arg relid b) ↔ AllFlagged arg relid b) ∧
    (Each step FlaggedBefore ⟨cat, []⟩ as → Each step NeverStale ⟨cat, []⟩ as) := by
  constructor
  · intro b arg relid
    exact relcache_allFlagged arg relid b
  · intro h
    have hempty : AllCoherent ⟨cat, []⟩ := by
      intro ent he
      cases he
    exact each_of_invariant step_allCoherent
      (fun b a hb _ => coherent_never_stale b a hb) hempty h

/-! ## An altered table -/

/-- A relation 100 with a row type 101. -/
def one_table (d : TupleDesc) : Catalog where
  pg_type oid :=
    if oid = 101 then some ⟨101, -1, 0, .composite, 100, 0, 0, 0⟩
    else if oid = 23 then some ⟨23, -1, 0, .base, 0, 0, 0, 0⟩
    else none
  io oid := ⟨4, true, 'i', ',', oid, 43⟩
  relations := fun relid => if relid = 100 then some d else none
  records _ := none
  own_base := by
    intro oid t h hrel
    split at h
    · cases h; simp_all
    · split at h
      · cases h; simp_all
      · cases h

def one_column : TupleDesc := ⟨[⟨"a", 23, -1, false⟩], false⟩
def two_columns : TupleDesc := ⟨[⟨"a", 23, -1, false⟩, ⟨"b", 23, -1, false⟩], false⟩

/-- A lookup of the row type, before a change of the relation. -/
def looked_up : Backend :=
  run step ⟨one_table one_column, []⟩ [.newstate 10 0, .lookup 0 8 101 (-1)]

/-- The row type is not flagged in the callback of the change, and the next lookup
gives it with the descriptor of before, uncompared. -/
theorem an_altered_row_type_is_given_uncompared :
    ¬ AllFlagged none 100 (pllua_relcache_callback none 100 looked_up) ∧
    ¬ Each step NeverStale ⟨one_table one_column, []⟩
      [.newstate 10 0, .lookup 0 8 101 (-1), .alter_table 100 (some two_columns),
        .lookup 0 8 101 (-1)] := by
  constructor
  · intro h
    have hflag := h _ List.mem_cons_self _ rfl ⟨rfl, Or.inl rfl⟩ (101, 1) List.mem_cons_self rfl
    exact absurd hflag (by decide)
  · rintro ⟨-, -, -, h, -⟩
    have hcomp := h _ rfl _ rfl ⟨some 1, false⟩ _ rfl 1 rfl (by decide)
    exact absurd hcomp (by decide)

/-- With a change of the types before it, which flags all of them, the change of the
relation does no harm. -/
theorem an_altered_row_type_is_checked_after_a_type_change :
    Each step NeverStale ⟨one_table one_column, []⟩
      [.newstate 10 0, .lookup 0 8 101 (-1), .alter_type (one_table one_column),
        .alter_table 100 (some two_columns), .lookup 0 8 101 (-1)] := by
  refine (a_row_type_is_checked_only_if_it_was_flagged_before _ _).2
    ⟨trivial, trivial, trivial, ?_, trivial, trivial⟩
  intro ent he i hi _
  rw [List.mem_singleton.mp he] at hi
  cases hi
  decide

end pllua.typeinfo
