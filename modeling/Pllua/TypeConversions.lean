-- The conversions between types (datum.c). A typeinfo has a table of the conversions from it, by
-- the typeinfo that they lead to, which fills as they are used. A change of the casts in the
-- database puts an empty table in its place.
import Pllua.RowCast
import Pllua.Runs
import Pllua.TableCaches

open pllua.catalog pllua.typeinfo pllua.runs pllua.caches

namespace pllua.typeconv

/-! ## Conversions -/

/-- `CoercionPathType` -/
inductive CoercionPathType
  | NONE | FUNC | RELABELTYPE | ARRAYCOERCE | COERCEVIAIO
deriving DecidableEq, Repr

open CoercionPathType

/-- A typeinfo with the typeinfos in its uservalue. -/
structure TypeObject where
  info : Typeinfo
  /-- of a domain -/
  basetype : ObjId
  elemtypeinfo : ObjId

/-- What `pllua_typeconv_create` reads: the objects, the casts, the names and the functions. -/
structure Source where
  objs : ObjId → TypeObject
  /-- `find_coercion_pathway` for a target and a source -/
  find_coercion_pathway : Oid → Oid → CoercionPathType × Oid
  /-- the method `name` of a typeinfo -/
  name : Typeinfo → String

/-- A closure, with its upvalues. -/
inductive Conversion
  /-- `pllua_typeconv_scalar_coerce_func` -/
  | scalar_func (funcid : Oid) (pgfunc typmod_pgfunc : Bool)
  /-- `pllua_typeconv_array_coerce` -/
  | array (fnoid : Option Oid) (pgfunc typmod_pgfunc : Bool) (elems : Option (ObjId × ObjId))
  /-- the same, where an upvalue is missing and the others have moved up -/
  | array_misplaced
  /-- `pllua_typeconv_scalar_coerce_via_io` -/
  | via_io (base : ObjId)
  /-- `pllua_typeconv_row_coerce` -/
  | row (droplist : Option (List Bool))
  /-- `pllua_typeconv_error` -/
  | error (srcname dstname : String)
deriving DecidableEq, Repr

section
variable (get_func_nargs : Oid → Nat)

/-- The paths of the casts between types that are no rows. -/
def create_cast (s : Source) (src dst : ObjId) : Option Conversion :=
  let src_t := (s.objs src).info
  let dst_t := (s.objs dst).info
  let (pathtype, fnoid) := s.find_coercion_pathway dst_t.basetype src_t.basetype
  let (elempathtype, fnoid) :=
    if pathtype = ARRAYCOERCE then s.find_coercion_pathway dst_t.elemtype src_t.elemtype
    else (NONE, fnoid)
  let typmod_arg := fnoid ≠ InvalidOid && get_func_nargs fnoid > 1
  let typmod_pgfunc := !typmod_arg && 0 ≤ dst_t.basetypmod
  match pathtype with
  | NONE => none
  | RELABELTYPE => some (.scalar_func InvalidOid false typmod_pgfunc)
  | FUNC => some (.scalar_func fnoid (fnoid ≠ InvalidOid) typmod_pgfunc)
  | ARRAYCOERCE =>
    let array := fun upvalue3 =>
      Conversion.array upvalue3 (fnoid ≠ InvalidOid) typmod_pgfunc
        (if elempathtype = COERCEVIAIO then
          some ((s.objs src).elemtypeinfo, (s.objs dst).elemtypeinfo)
        else none)
    match elempathtype with
    | NONE | FUNC => some (array (some fnoid))
    | RELABELTYPE => some (array none)
    | COERCEVIAIO => some (array (some InvalidOid))
    | ARRAYCOERCE => some .array_misplaced
  | COERCEVIAIO =>
    some (.via_io (if dst_t.typeoid ≠ dst_t.basetype then (s.objs dst).basetype else dst))

/-- The casts between rows. -/
def create_row (s : Source) (src dst : ObjId) : Option Conversion :=
  let src_t := (s.objs src).info
  let dst_t := (s.objs dst).info
  match src_t.tupdesc, dst_t.tupdesc with
  | some src_desc, some dst_desc =>
    let sametype := src_t.basetype ≠ RECORDOID && src_t.basetype = dst_t.basetype
    (rowcast.match_columns sametype src_desc.attrs dst_desc.attrs).map fun droplist =>
      .row (if droplist.any id then some droplist else none)
  | _, _ => none

/-- `pllua_typeconv_create`. There is none for an error. -/
def pllua_typeconv_create (s : Source) (src dst : ObjId) : Option Conversion :=
  let src_t := (s.objs src).info
  let dst_t := (s.objs dst).info
  if dst_t.modified || dst_t.obsolete then none
  else
    let cast :=
      if src_t.natts < 0 && dst_t.natts < 0 && !src_t.modified && !src_t.obsolete then
        create_cast get_func_nargs s src dst
      else none
    match cast with
    | some conversion => some conversion
    | none =>
      match create_row s src dst with
      | some conversion => some conversion
      | none => some (.error (s.name src_t) (s.name dst_t))

/-! ## The tables -/

/-- An interpreter, as far as the conversions are concerned. The owners of the tables are the
entries of `PLLUA_TYPECONV_REGISTRY`, and the source has the objects also before they are built. -/
structure Interp where
  cache : Cache Source ObjId ObjId Conversion
  next : ObjId
  /-- the callbacks find it in the table of interpreters -/
  entered : Bool

/-- What `pllua_typeinfo_lookup` and the callbacks do to an object. -/
inductive Touch
  | flag
  | refresh (n : Typeinfo)
  | replaced
  | dropped

def Touch.apply (t : Typeinfo) : Touch → Typeinfo
  | .flag => t.flag
  | .refresh n => t.refresh n
  | .replaced => t.replaced
  | .dropped => t.dropped

inductive Action
  /-- the next typeinfo object is built -/
  | newtypeinfo
  | touch (x : ObjId) (t : Touch)
  /-- `ALTER TYPE ... RENAME` -/
  | rename (name : Typeinfo → String)
  /-- a conversion is looked up -/
  | index (src dst : ObjId)
  /-- the innermost call of `pllua_typeconv_create`, which an error may end -/
  | create (error : Bool)
  /-- its caller stores what it made -/
  | store
  /-- the catalog changes; the callbacks come later -/
  | alter_casts (find_coercion_pathway : Oid → Oid → CoercionPathType × Oid)
  /-- the callback, which may fail after some tables -/
  | cast_callback (fails : Option Nat)
  /-- `pllua_newstate_phase2` enters the interpreter and makes the callbacks for it -/
  | enter
  /-- the garbage collector takes an object -/
  | collect (x : ObjId)

/-- `pllua_typeconv_register`. -/
def pllua_typeconv_register (i : Interp) : Interp :=
  { i with cache := i.cache.own i.next, next := i.next + 1 }

/-- `pllua_typeconv_invalidate`. -/
def pllua_typeconv_invalidate (fails : Option Nat) (i : Interp) : Interp :=
  match fails with
  | none => { i with cache := i.cache.clear }
  | some n => { i with cache := i.cache.replace (i.cache.owners.take n) }

/-- `pllua_syscache_cast_callback`, which leaves out the errors of the interpreters. -/
def pllua_syscache_cast_callback (fails : Option Nat) (i : Interp) : Interp :=
  if i.entered then pllua_typeconv_invalidate fails i else i

def Source.touch (s : Source) (x : ObjId) (t : Touch) : Source :=
  { s with objs := Function.update s.objs x { s.objs x with info := t.apply (s.objs x).info } }

def step (i : Interp) : Action → Interp
  | .newtypeinfo => pllua_typeconv_register i
  | .touch x t => { i with cache := i.cache.adjust (i.cache.source.touch x t) }
  | .rename name => { i with cache := i.cache.adjust { i.cache.source with name } }
  | .index src dst =>
    match i.cache.found src dst with
    | some _ => i
    | none => { i with cache := i.cache.begin src dst }
  | .create error =>
    { i with
      cache := if error then i.cache.abandon
        else i.cache.make (pllua_typeconv_create get_func_nargs) }
  | .store => { i with cache := i.cache.store }
  | .alter_casts find_coercion_pathway =>
    { i with cache := i.cache.change { i.cache.source with find_coercion_pathway } }
  | .cast_callback fails => pllua_syscache_cast_callback fails i
  | .enter => pllua_syscache_cast_callback none { i with entered := true }
  | .collect x => { i with cache := i.cache.drop x x }

/-- An interpreter is created. -/
def Interp.start (source : Source) : Interp :=
  ⟨⟨source, false, [], fun _ => 0, fun _ _ => none, 0, []⟩, 0, false⟩

/-- Only objects that are there are looked up. -/
def Possible (i : Interp) : Action → Prop
  | .index src dst => src ∈ i.cache.owners ∧ dst ∈ i.cache.owners
  | _ => True

instance (i : Interp) : ∀ a, Decidable (Possible i a)
  | .index _ _ => inferInstanceAs (Decidable (_ ∧ _))
  | .newtypeinfo | .touch _ _ | .rename _ | .create _ | .store | .alter_casts _ | .cast_callback _
  | .enter | .collect _ => inferInstanceAs (Decidable True)

end

/-! ## The law -/

/-- The type is as it was when its object was built. -/
def Source.Valid (s : Source) (x : ObjId) : Prop :=
  (s.objs x).info.modified = false ∧ (s.objs x).info.obsolete = false

/-- The conversions are the same, but for the names of types in an error. -/
def Conversion.Same (c c' : Conversion) : Prop :=
  c = c' ∨ ∃ s d s' d', c = .error s d ∧ c' = .error s' d'

/-- The conversion is the one that `pllua_typeconv_create` makes. -/
def Fits (get_func_nargs : Oid → Nat) (s : Source) (src dst : ObjId) (c : Conversion) : Prop :=
  s.Valid src → s.Valid dst →
    ∃ c', pllua_typeconv_create get_func_nargs s src dst = some c' ∧ c.Same c'

/-- What `pllua_typeconv_create` reads of an object is as it was. -/
structure Unaltered (s s' : Source) (x : ObjId) : Prop where
  typeoid : (s'.objs x).info.typeoid = (s.objs x).info.typeoid
  basetype : (s'.objs x).info.basetype = (s.objs x).info.basetype
  basetypmod : (s'.objs x).info.basetypmod = (s.objs x).info.basetypmod
  elemtype : (s'.objs x).info.elemtype = (s.objs x).info.elemtype
  natts : (s'.objs x).info.natts = (s.objs x).info.natts
  tupdesc : (s'.objs x).info.tupdesc = (s.objs x).info.tupdesc
  modified : (s'.objs x).info.modified = (s.objs x).info.modified
  obsolete : (s'.objs x).info.obsolete = (s.objs x).info.obsolete
  objects : (s'.objs x).basetype = (s.objs x).basetype ∧
    (s'.objs x).elemtypeinfo = (s.objs x).elemtypeinfo

section
variable {get_func_nargs : Oid → Nat} {s s' : Source} {src dst : ObjId} {c : Conversion}

theorem create_same (hpath : s'.find_coercion_pathway = s.find_coercion_pathway)
    (hsrc : Unaltered s s' src) (hdst : Unaltered s s' dst)
    (h : pllua_typeconv_create get_func_nargs s src dst = some c) :
    ∃ c', pllua_typeconv_create get_func_nargs s' src dst = some c' ∧ c.Same c' := by
  have hcast : create_cast get_func_nargs s' src dst = create_cast get_func_nargs s src dst := by
    unfold create_cast
    simp only [hpath, hsrc.basetype, hdst.basetype, hsrc.elemtype, hdst.elemtype, hdst.basetypmod,
      hdst.typeoid, hsrc.objects.2, hdst.objects.1, hdst.objects.2]
  have hrow : create_row s' src dst = create_row s src dst := by
    unfold create_row
    simp only [hsrc.basetype, hdst.basetype, hsrc.tupdesc, hdst.tupdesc]
  unfold pllua_typeconv_create at h ⊢
  simp only [hcast, hrow, hsrc.natts, hdst.natts, hsrc.modified, hsrc.obsolete, hdst.modified,
    hdst.obsolete] at h ⊢
  split at h
  · cases h
  · rename_i hvalid
    rw [if_neg hvalid]
    split at h
    · exact ⟨c, h, .inl rfl⟩
    · split at h
      · exact ⟨c, h, .inl rfl⟩
      · exact ⟨_, rfl, .inr ⟨_, _, _, _, (Option.some.inj h).symm, rfl⟩⟩

theorem Conversion.Same.trans {c c' c'' : Conversion} (h : c.Same c') (h' : c'.Same c'') :
    c.Same c'' := by
  obtain rfl | ⟨s, d, s', d', rfl, rfl⟩ := h
  · exact h'
  · obtain rfl | ⟨_, _, s'', d'', hc, rfl⟩ := h'
    · exact .inr ⟨s, d, s', d', rfl, rfl⟩
    · exact .inr ⟨s, d, s'', d'', rfl, rfl⟩

theorem touch_unaltered {x : ObjId} {t : Touch} {y : ObjId} (hv : (s.touch x t).Valid y) :
    Unaltered s (s.touch x t) y := by
  by_cases hy : y = x
  · subst hy
    unfold Source.Valid at hv
    simp only [Source.touch, Function.update_self] at hv
    cases t with
    | flag | refresh n =>
      constructor <;> simp [Source.touch, Touch.apply, Typeinfo.flag, Typeinfo.refresh]
    | replaced => cases hv.1
    | dropped => cases hv.2
  · constructor <;> simp [Source.touch, Function.update_of_ne hy]

theorem Unaltered.valid (h : Unaltered s s' src) (hv : s'.Valid src) : s.Valid src :=
  ⟨h.modified.symm.trans hv.1, h.obsolete.symm.trans hv.2⟩

/-- A conversion still fits after a change that leaves its types alone, or makes them invalid. -/
theorem Fits.keeps (h : Fits get_func_nargs s src dst c)
    (hpath : s'.find_coercion_pathway = s.find_coercion_pathway)
    (hobjs : ∀ x, s'.Valid x → Unaltered s s' x) : Fits get_func_nargs s' src dst c := by
  intro hsrc hdst
  obtain ⟨c', hc', hsame⟩ := h ((hobjs src hsrc).valid hsrc) ((hobjs dst hdst).valid hdst)
  obtain ⟨c'', hc'', hsame'⟩ := create_same hpath (hobjs src hsrc) (hobjs dst hdst) hc'
  exact ⟨c'', hc'', hsame.trans hsame'⟩

theorem step_inv {i : Interp} (h : caches.Inv (Fits get_func_nargs) i.cache) {a : Action}
    (ha : Possible i a) : caches.Inv (Fits get_func_nargs) (step get_func_nargs i a).cache := by
  cases a with
  | newtypeinfo => exact h.own i.next
  | touch x t => exact h.adjust fun src dst c hc => hc.keeps rfl fun y hy => touch_unaltered hy
  | rename name =>
    refine h.adjust fun src dst c hc => hc.keeps rfl fun y _ => ?_
    constructor <;> simp
  | index src dst =>
    unfold step
    simp only
    split
    · exact h
    · exact h.begin ha.1 dst
  | create error =>
    cases error with
    | true => exact h.abandon
    | false => exact h.make fun src dst c hc _ _ => ⟨c, hc, .inl rfl⟩
  | store => exact h.store
  | alter_casts => exact h.change _
  | cast_callback fails =>
    unfold step pllua_syscache_cast_callback
    simp only
    split
    · cases fails with
      | none => exact h.clear
      | some n => exact h.replace _
    · exact h
  | enter => exact h.clear
  | collect x => exact h.drop x x

variable (get_func_nargs) in
/-- After every run, with callbacks and other changes in the midst of a lookup too, a conversion
that is found in a table is the one that would be made now, if the callbacks have told of all
changes of the casts and its types are valid. -/
theorem a_conversion_in_a_table_is_up_to_date (source : Source) (as : List Action)
    (h : Each (step get_func_nargs) Possible (.start source) as) (src dst : ObjId) (c : Conversion)
    (hsrc : src ∈ (run (step get_func_nargs) (.start source) as).cache.owners)
    (htold : (run (step get_func_nargs) (.start source) as).cache.changed = false)
    (hfound : (run (step get_func_nargs) (.start source) as).cache.found src dst = some c) :
    Fits get_func_nargs (run (step get_func_nargs) (.start source) as).cache.source src dst c := by
  have hinv : caches.Inv (Fits get_func_nargs)
      (run (step get_func_nargs) (.start source) as).cache :=
    run_invariant (I := fun i => caches.Inv (Fits get_func_nargs) i.cache)
      (fun i a hi ha => step_inv hi ha) (.empty source) h
  exact hinv.fit htold src hsrc dst c hfound

end

/-- Two types with a cast through their texts. -/
def texts : Source where
  objs _ :=
    { info :=
        { typeoid := 25, typmod := -1, arity := 1, natts := -1, tupdesc := none, reloid := 0
          basetype := 25, basetypmod := -1, elemtype := 0, rangetype := 0, hasoid := false
          is_array := false, is_range := false, is_enum := false, is_anonymous_record := false
          nested_unknowns := false, nested_composites := false, revalidate := false
          modified := false, obsolete := false, io := ⟨-1, false, 'i', ',', 25, 47⟩
          fromsql := 0, tosql := 0, attrtypes := [] }
      basetype := 0
      elemtypeinfo := 0 }
  find_coercion_pathway _ _ := ( COERCEVIAIO, InvalidOid)
  name _ := "text"

/-- A new cast comes while the conversion between them is made, which is made again at the next
lookup. -/
def altered : List Action :=
  [.newtypeinfo, .newtypeinfo, .enter, .index 0 1, .create false,
    .alter_casts fun _ _ => (FUNC, 9), .cast_callback none, .store, .index 0 1, .create false,
    .store]

theorem the_new_cast_is_up_to_date :
    Fits (fun _ => 1) (run (step fun _ => 1) (.start texts) altered).cache.source 0 1
      (.scalar_func 9 true false) :=
  a_conversion_in_a_table_is_up_to_date (fun _ => 1) texts altered (by decide) 0 1 _ (by decide)
    (by decide) (by decide)

end pllua.typeconv
