-- The catalogs of PostgreSQL as the type cache reads them: types, the row
-- descriptors of relations, and the descriptors of the registered record types.
import Mathlib.Logic.Function.Basic

namespace pllua.catalog

abbrev Oid := Nat

def InvalidOid : Oid := 0
def RECORDOID : Oid := 2249

/-- `Form_pg_attribute`, as far as the row types read it. -/
structure Attribute where
  attname : String
  atttypid : Oid
  atttypmod : Int
  attisdropped : Bool
deriving DecidableEq, Repr

/-- The `TupleDesc` of a row type. Attribute number `i + 1` stands at index `i`. -/
structure TupleDesc where
  attrs : List Attribute
  hasoid : Bool
deriving DecidableEq, Repr

def TupleDesc.natts (d : TupleDesc) : Nat := d.attrs.length

/-- `typtype` of the base type of a type. -/
inductive TypType
  | base | composite | enum | pseudo | range
deriving DecidableEq, Repr

/-- What `get_type_io_data` gives for the output direction. -/
structure TypeIo where
  typlen : Int
  typbyval : Bool
  typalign : Char
  typdelim : Char
  typioparam : Oid
  outfuncid : Oid
deriving DecidableEq, Repr

/-- What the cache looks up for a type that exists. -/
structure PgType where
  /-- `getBaseTypeAndTypmod` -/
  basetype : Oid
  basetypmod : Int
  /-- `get_element_type` of the base type -/
  elemtype : Oid
  /-- `get_typtype` of the base type -/
  typtype : TypType
  /-- `get_typ_typrelid` of the type itself, so `InvalidOid` for a domain -/
  typrelid : Oid
  /-- the subtype, for a range -/
  rangetype : Oid
  /-- the transforms for the language -/
  fromsql : Oid
  tosql : Oid
deriving DecidableEq, Repr

/-- The catalogs at one moment. -/
structure Catalog where
  pg_type : Oid → Option PgType
  io : Oid → TypeIo
  relations : Oid → Option TupleDesc
  records : Nat → Option TupleDesc
  /-- Only a row type itself has a `typrelid`, and it is its own base type. -/
  own_base : ∀ oid t, pg_type oid = some t → t.typrelid ≠ InvalidOid → t.basetype = oid

/-- `lookup_rowtype_tupdesc_noerror` for a named row type. -/
def Catalog.rowdesc (cat : Catalog) (oid : Oid) : Option TupleDesc :=
  (cat.pg_type oid).bind fun t => cat.relations t.typrelid

/-- `ALTER TABLE`: the relation has a new descriptor, or none once it is dropped. -/
def Catalog.alter (cat : Catalog) (relid : Oid) (d : Option TupleDesc) : Catalog :=
  { cat with relations := Function.update cat.relations relid d }

end pllua.catalog
