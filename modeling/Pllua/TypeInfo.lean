-- The typeinfo cache of datum.c: the interned typeinfo objects of one
-- interpreter, how a lookup builds, compares and interns them, and how an
-- invalidation flags them.
import Pllua.Catalog

namespace pllua.typeinfo

open pllua.catalog

/-- The address of a typeinfo object. -/
abbrev ObjId := Nat

/-- `pllua_typeinfo`. The last field is the `attrtypes` table of the uservalue:
the typeinfo of each column, or none for a dropped one. -/
structure Typeinfo where
  typeoid : Oid
  typmod : Int
  arity : Nat
  natts : Int
  tupdesc : Option TupleDesc
  reloid : Oid
  basetype : Oid
  basetypmod : Int
  elemtype : Oid
  rangetype : Oid
  hasoid : Bool
  is_array : Bool
  is_range : Bool
  is_enum : Bool
  is_anonymous_record : Bool
  nested_unknowns : Bool
  nested_composites : Bool
  revalidate : Bool
  modified : Bool
  obsolete : Bool
  io : TypeIo
  fromsql : Oid
  tosql : Oid
  attrtypes : List (Option ObjId)
deriving DecidableEq, Repr

/-- The objects, and the two tables of the registry: `PLLUA_TYPES` by type oid
and `PLLUA_RECORDS` by typmod. Objects from `next` on are not built yet. -/
structure Cache where
  objs : ObjId → Typeinfo
  next : ObjId
  types : List (Oid × ObjId)
  records : List (Nat × ObjId)

/-- Marked to be compared with the catalogs at the next lookup. -/
def Typeinfo.flag (t : Typeinfo) : Typeinfo := { t with revalidate := true }

/-- Found equal to the new object `n`: good again, with the transforms of `n`. -/
def Typeinfo.refresh (t n : Typeinfo) : Typeinfo :=
  { t with fromsql := n.fromsql, tosql := n.tosql, revalidate := false }

/-- A new object takes its place in the table. -/
def Typeinfo.replaced (t : Typeinfo) : Typeinfo := { t with modified := true, revalidate := false }

/-- Its type no longer exists. -/
def Typeinfo.dropped (t : Typeinfo) : Typeinfo := { t with obsolete := true, revalidate := false }

/-! ## Building a typeinfo -/

/-- The live columns of a descriptor. -/
def TupleDesc.arity (d : TupleDesc) : Nat := d.attrs.countP (!·.attisdropped)

/-- The `PLLUA_TRY` block of `pllua_newtypeinfo_raw`: what the catalogs say of the
type, or none when there is no such type. -/
def read_catalog (cat : Catalog) (oid : Oid) (typmod : Int) (in_tupdesc : Option TupleDesc) :
    Option Typeinfo :=
  let fill (basetype : Oid) (basetypmod : Int) (elemtype rangetype : Oid) (typtype : TypType)
      (fromsql tosql reloid : Oid) (anonymous : Bool) (tupdesc : Option TupleDesc) : Typeinfo :=
    { typeoid := oid, typmod, basetype, basetypmod, elemtype, rangetype, tupdesc, reloid
      arity := (tupdesc.map TupleDesc.arity).getD 1
      natts := (tupdesc.map fun d => (d.natts : Int)).getD (-1)
      hasoid := (tupdesc.map (·.hasoid)).getD false
      is_array := elemtype != InvalidOid
      is_range := typtype == .range
      is_enum := typtype == .enum
      is_anonymous_record := anonymous
      nested_unknowns := (tupdesc.map fun d => d.attrs.any fun a =>
        !a.attisdropped && a.atttypid == RECORDOID && a.atttypmod < 0).getD false
      nested_composites := false
      revalidate := false, modified := false, obsolete := false
      io := cat.io oid, fromsql, tosql, attrtypes := [] }
  if oid = RECORDOID then
    if 0 ≤ typmod then
      (cat.records typmod.toNat).map fun d =>
        fill RECORDOID typmod InvalidOid InvalidOid .pseudo InvalidOid InvalidOid InvalidOid
          false (some d)
    else
      some (fill RECORDOID typmod InvalidOid InvalidOid .pseudo InvalidOid InvalidOid InvalidOid
        (typmod = -1 && in_tupdesc.isNone) (if typmod = -1 then in_tupdesc else none))
  else
    (cat.pg_type oid).map fun t =>
      let tupdesc := if t.typtype = .composite then cat.rowdesc t.basetype else none
      fill t.basetype t.basetypmod t.elemtype
        (if t.typtype = .range then t.rangetype else InvalidOid) t.typtype
        t.fromsql t.tosql (if tupdesc.isSome then t.typrelid else InvalidOid) false tupdesc

/-- The result of a lookup: the object, or none for nil, and whether a new object was
built from the catalogs, to be compared with the one in the table if there is one. -/
structure Looked where
  obj : Option ObjId
  compared : Bool
deriving DecidableEq, Repr

/-- A Lua C function that works on the cache. An error leaves the cache as it
is at that moment. -/
abbrev LuaFn (α : Type) := Cache → Except String α × Cache

/-- The loop over the columns in `pllua_newtypeinfo_raw`, with the lookup it calls. -/
def column_types (lookup : Oid → Int → LuaFn Looked) :
    List Attribute → LuaFn (List (Option ObjId))
  | [], c => (.ok [], c)
  | att :: atts, c =>
    if att.attisdropped then
      match column_types lookup atts c with
      | (.ok ids, c) => (.ok (none :: ids), c)
      | (.error e, c) => (.error e, c)
    else
      match lookup att.atttypid (if att.atttypid ≠ RECORDOID then -1 else att.atttypmod) c with
      | (.error e, c) => (.error e, c)
      | (.ok ⟨none, _⟩, c) => (.error "failed to find attribute type info for column", c)
      | (.ok ⟨some id, _⟩, c) =>
        match column_types lookup atts c with
        | (.ok ids, c) => (.ok (some id :: ids), c)
        | (.error e, c) => (.error e, c)

/-- A lookup whose result is only stored in the uservalue. -/
def lookup_if (b : Bool) (lookup : Oid → Int → LuaFn Looked) (oid : Oid) : LuaFn Unit :=
  fun c => if b then
    match lookup oid (-1) c with
    | (.ok _, c) => (.ok (), c)
    | (.error e, c) => (.error e, c)
  else (.ok (), c)

/-- The flags that a row type takes over from the types of its columns. -/
def with_columns (t : Typeinfo) (c : Cache) (ids : List (Option ObjId)) : Typeinfo :=
  let ets := ids.filterMap fun o => o.map c.objs
  { t with
    attrtypes := ids
    nested_unknowns := t.nested_unknowns || ets.any (·.nested_unknowns)
    nested_composites := ets.any fun et =>
      et.nested_composites || (decide ((0 : Int) ≤ et.natts) && et.typeoid != RECORDOID) }

/-- A new object. -/
def alloc (t : Typeinfo) (c : Cache) : ObjId × Cache :=
  (c.next, { c with objs := Function.update c.objs c.next t, next := c.next + 1 })

/-- `pllua_newtypeinfo_raw`, with the lookup for the types it refers to. -/
def pllua_newtypeinfo_raw (lookup : Oid → Int → LuaFn Looked) (cat : Catalog) (oid : Oid)
    (typmod : Int) (in_tupdesc : Option TupleDesc) : LuaFn (Option ObjId) := fun c =>
  match read_catalog cat oid typmod in_tupdesc with
  | none => (.ok none, c)
  | some t =>
    match lookup_if (t.basetype != t.typeoid) lookup t.basetype c with
    | (.error e, c) => (.error e, c)
    | (.ok (), c) =>
      match column_types lookup ((t.tupdesc.map (·.attrs)).getD []) c with
      | (.error e, c) => (.error e, c)
      | (.ok ids, c) =>
        let t := with_columns t c ids
        match lookup_if (t.is_array || t.is_range) lookup
            (if t.is_range then t.rangetype else t.elemtype) c with
        | (.error e, c) => (.error e, c)
        | (.ok (), c) =>
          let (id, c) := alloc t c
          (.ok (some id), c)

/-- `pllua_newtypeinfo`: the new object is not interned. -/
def pllua_newtypeinfo (lookup : Oid → Int → LuaFn Looked) (cat : Catalog) (oid : Oid)
    (typmod : Int) : LuaFn (Option ObjId) :=
  pllua_newtypeinfo_raw lookup cat oid typmod none

/-! ## Lookup -/

/-- The fields that `pllua_typeinfo_eq` compares. -/
def pllua_typeinfo_eq (obj1 obj2 : Typeinfo) : Bool :=
  obj1.typeoid == obj2.typeoid && obj1.typmod == obj2.typmod && obj1.arity == obj2.arity &&
  obj1.natts == obj2.natts && obj1.hasoid == obj2.hasoid && obj1.tupdesc == obj2.tupdesc &&
  obj1.reloid == obj2.reloid && obj1.basetype == obj2.basetype &&
  obj1.elemtype == obj2.elemtype && obj1.io == obj2.io && obj1.attrtypes == obj2.attrtypes

def Cache.modify (c : Cache) (id : ObjId) (f : Typeinfo → Typeinfo) : Cache :=
  { c with objs := Function.update c.objs id (f (c.objs id)) }

@[simp] theorem modify_self (c : Cache) (id : ObjId) (f : Typeinfo → Typeinfo) :
    (c.modify id f).objs id = f (c.objs id) := by simp [Cache.modify]

theorem modify_of_ne (c : Cache) {id k : ObjId} (f : Typeinfo → Typeinfo) (h : k ≠ id) :
    (c.modify id f).objs k = c.objs k := by simp [Cache.modify, h]

/-- `lua_rawseti` on a table: the new value of a key, or none for nil. -/
def rawseti (key : Nat) (id : Option ObjId) (tab : List (Nat × ObjId)) : List (Nat × ObjId) :=
  (id.map (key, ·)).toList ++ tab.filter (·.1 ≠ key)

/-- Whether the lookup is for a registered record type. -/
def is_record (oid : Oid) (typmod : Int) : Bool := oid = RECORDOID && 0 ≤ typmod

def Cache.find (c : Cache) (oid : Oid) (typmod : Int) : Option ObjId :=
  if is_record oid typmod then c.records.lookup typmod.toNat else c.types.lookup oid

def Cache.store (c : Cache) (oid : Oid) (typmod : Int) (id : Option ObjId) : Cache :=
  if is_record oid typmod then { c with records := rawseti typmod.toNat id c.records }
  else { c with types := rawseti oid id c.types }

/-- The last part of `pllua_typeinfo_lookup`: the object of the table, if any, is
flagged, and `nobj` is what the catalogs give now. -/
def settle (oid : Oid) (typmod : Int) (obj nobj : Option ObjId) (c : Cache) : Looked × Cache :=
  match obj, nobj with
  | some o, some n =>
    if o = n ∨ pllua_typeinfo_eq (c.objs o) (c.objs n) = true then
      -- equal: the old object is good again
      (⟨some o, true⟩, c.modify o fun t => t.refresh (c.objs n))
    else
      (⟨some n, true⟩, (c.modify o Typeinfo.replaced).store oid typmod (some n))
  | some o, none => (⟨none, true⟩, (c.modify o Typeinfo.dropped).store oid typmod none)
  | none, n => (⟨n, true⟩, c.store oid typmod n)

/-- `pllua_typeinfo_lookup`. Lua bounds the nesting of C calls, and `depth` is what
is left of it. -/
def pllua_typeinfo_lookup (cat : Catalog) : Nat → Oid → Int → LuaFn Looked
  | 0, _, _, c => (.error "C stack overflow", c)
  | depth + 1, oid, typmod, c =>
    if oid = InvalidOid then (.ok ⟨none, false⟩, c)
    else
      let obj := c.find oid typmod
      match obj.filter fun o => !(c.objs o).revalidate with
      | some o => (.ok ⟨some o, false⟩, c)
      | none =>
        match pllua_newtypeinfo (pllua_typeinfo_lookup cat depth) cat oid typmod c with
        | (.error e, c) => (.error e, c)
        | (.ok nobj, c) =>
          let (r, c) := settle oid typmod obj nobj c
          (.ok r, c)

/-! ## What the functions on the cache preserve -/

/-- The function keeps the law `I`, and relates the cache before and after by `R`. -/
def Preserves {α : Type} (I : Cache → Prop) (R : Cache → Cache → Prop) (f : LuaFn α) : Prop :=
  ∀ c, I c → I (f c).2 ∧ R c (f c).2

/-- A lookup as `pllua_newtypeinfo_raw` makes it: a typmod only goes with a record. -/
def Plain (oid : Oid) (typmod : Int) : Prop := typmod = -1 ∨ oid = RECORDOID

section
variable {I : Cache → Prop} {R : Cache → Cache → Prop}
  {lookup : Oid → Int → LuaFn Looked}

theorem preserves_lookup_if (hrefl : ∀ c, R c c)
    (hl : ∀ oid typmod, Plain oid typmod → Preserves I R (lookup oid typmod)) (b : Bool)
    (oid : Oid) : Preserves I R (lookup_if b lookup oid) := by
  intro c hc
  unfold lookup_if
  split
  · have hk := hl oid (-1) (Or.inl rfl) c hc
    split
    · rename_i heq; rw [heq] at hk; exact hk
    · rename_i heq; rw [heq] at hk; exact hk
  · exact ⟨hc, hrefl c⟩

theorem preserves_column_types (hrefl : ∀ c, R c c) (htrans : ∀ a b c, R a b → R b c → R a c)
    (hl : ∀ oid typmod, Plain oid typmod → Preserves I R (lookup oid typmod))
    (atts : List Attribute) : Preserves I R (column_types lookup atts) := by
  induction atts with
  | nil => exact fun c hc => ⟨hc, hrefl c⟩
  | cons att atts ih =>
    intro c hc
    unfold column_types
    split
    · have hk := ih c hc
      split
      · rename_i heq; rw [heq] at hk; exact hk
      · rename_i heq; rw [heq] at hk; exact hk
    · have hplain : Plain att.atttypid
          (if att.atttypid ≠ RECORDOID then -1 else att.atttypmod) := by
        by_cases hrec : att.atttypid = RECORDOID
        · exact Or.inr hrec
        · exact Or.inl (if_pos hrec)
      have hk := hl _ _ hplain c hc
      split
      · rename_i heq; rw [heq] at hk; exact hk
      · rename_i heq; rw [heq] at hk; exact hk
      · rename_i c1 heq
        rw [heq] at hk
        have hk2 := ih c1 hk.1
        split
        · rename_i heq2
          rw [heq2] at hk2
          exact ⟨hk2.1, htrans _ _ _ hk.2 hk2.2⟩
        · rename_i heq2
          rw [heq2] at hk2
          exact ⟨hk2.1, htrans _ _ _ hk.2 hk2.2⟩

/-- What `pllua_newtypeinfo` can do: the nested lookups, and then at most one new
object, as the catalogs describe the type. -/
theorem newtypeinfo_cases (cat : Catalog) (hrefl : ∀ c, R c c) (htrans : ∀ a b c, R a b → R b c → R a c)
    (hl : ∀ oid typmod, Plain oid typmod → Preserves I R (lookup oid typmod)) (oid : Oid)
    (typmod : Int) (c : Cache) (hc : I c) :
    ∃ c1, I c1 ∧ R c c1 ∧
      (((pllua_newtypeinfo lookup cat oid typmod c).2 = c1 ∧
        ∀ n, (pllua_newtypeinfo lookup cat oid typmod c).1 ≠ .ok (some n)) ∨
      ∃ t c2 ids, read_catalog cat oid typmod none = some t ∧
        pllua_newtypeinfo lookup cat oid typmod c =
          (.ok (some (alloc (with_columns t c2 ids) c1).1),
            (alloc (with_columns t c2 ids) c1).2)) := by
  unfold pllua_newtypeinfo pllua_newtypeinfo_raw
  cases hr : read_catalog cat oid typmod none with
  | none => exact ⟨c, hc, hrefl c, Or.inl ⟨rfl, by simp⟩⟩
  | some t =>
    simp only
    have h1 := preserves_lookup_if hrefl hl (t.basetype != t.typeoid) t.basetype c hc
    split
    · rename_i heq; rw [heq] at h1; exact ⟨_, h1.1, h1.2, Or.inl ⟨rfl, by simp⟩⟩
    rename_i c1 heq1
    rw [heq1] at h1
    have h2 := preserves_column_types hrefl htrans hl ((t.tupdesc.map (·.attrs)).getD []) c1 h1.1
    split
    · rename_i heq
      rw [heq] at h2
      exact ⟨_, h2.1, htrans _ _ _ h1.2 h2.2, Or.inl ⟨rfl, by simp⟩⟩
    rename_i ids c2 heq2
    rw [heq2] at h2
    have h3 := preserves_lookup_if hrefl hl ((with_columns t c2 ids).is_array ||
      (with_columns t c2 ids).is_range) (if (with_columns t c2 ids).is_range then
        (with_columns t c2 ids).rangetype else (with_columns t c2 ids).elemtype) c2 h2.1
    have h12 := htrans _ _ _ h1.2 h2.2
    split
    · rename_i heq
      rw [heq] at h3
      exact ⟨_, h3.1, htrans _ _ _ h12 h3.2, Or.inl ⟨rfl, by simp⟩⟩
    rename_i c3 heq3
    rw [heq3] at h3
    exact ⟨c3, h3.1, htrans _ _ _ h12 h3.2, Or.inr ⟨t, c2, ids, rfl, rfl⟩⟩

end

/-! ## Invalidation -/

/-- `pllua_cache_inval`. -/
structure CacheInval where
  inval_type : Bool
  inval_rel : Bool
  inval_cast : Bool
  inval_typeoid : Oid
  inval_reloid : Oid
deriving DecidableEq, Repr

/-- The loop over `PLLUA_TYPES` with `lua_next`: flag the objects that the test accepts. -/
def flag_each (test : Typeinfo → Bool) : List (Oid × ObjId) → Cache → Cache
  | [], c => c
  | e :: es, c =>
    flag_each test es
      (if test (c.objs e.2) then c.modify e.2 Typeinfo.flag else c)

/-- The part of `pllua_typeinfo_invalidate` for a type, or for all types. -/
def invalidate_type (inval : CacheInval) (c : Cache) : Cache :=
  if inval.inval_type then
    if inval.inval_typeoid ≠ InvalidOid then
      match c.types.lookup inval.inval_typeoid with
      | some id => c.modify id Typeinfo.flag
      | none => c
    else flag_each (fun _ => true) c.types c
  else c

/-- The part of `pllua_typeinfo_invalidate` for a relation. -/
def invalidate_rel (inval : CacheInval) (c : Cache) : Cache :=
  if inval.inval_rel then flag_each (fun t => t.reloid == inval.inval_reloid) c.types c else c

/-- `pllua_typeinfo_invalidate`. -/
def pllua_typeinfo_invalidate (inval : CacheInval) (c : Cache) : Cache :=
  invalidate_rel inval (invalidate_type inval c)

end pllua.typeinfo
