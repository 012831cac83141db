-- Trigger objects (trigger.c): the rows and names that a trigger function reads from its object,
-- the row that it may put in place of the operation's own, and the tuple that comes of it.
import Pllua.DatumAliasing

open pllua.catalog pllua.records pllua.runs pllua.datums

namespace pllua.triggers

/-! ## The event -/

inductive Operation
  | insert
  | update
  | delete
  | truncate
deriving DecidableEq, Repr

inductive Timing
  | before
  | after
  | instead
deriving DecidableEq, Repr

/-- The relation of a trigger, as far as the trigger object tells about it. -/
structure Relation where
  namespace_name : Option String
  relname : String
  rd_id : Oid
deriving DecidableEq, Repr

/-- `TriggerData`. PostgreSQL has a tuple for every row trigger, and a new one for an update; a
trigger for truncate is none. -/
structure TriggerData (α : Type) (types : Types) where
  operation : Operation
  timing : Timing
  for_row : Bool
  tgname : String
  tg_relation : Relation
  /-- the type of the rows of the relation -/
  tdtypeid : Oid
  attrs : List Attribute
  rowtype : types.typeinfo tdtypeid = .row attrs
  tg_trigtuple : Value α
  tg_newtuple : Value α
  trigtuple_wellformed : Wellformed types tdtypeid tg_trigtuple
  newtuple_wellformed : Wellformed types tdtypeid tg_newtuple
  truncate_level : operation = .truncate → for_row = false

/-- The rows of an event, by the field of the trigger object. -/
inductive Which
  | new
  | old
deriving DecidableEq, Repr

def Which.key : Which → String
  | .new => "new"
  | .old => "old"

/-- The table of `pllua_trigger_get_relation`. -/
structure RelationTable where
  namespace_name : String
  name : String
  oid : Oid
  attributes : List (String × Nat)
deriving DecidableEq, Repr

/-- An entry of the user value of a trigger object: false for a row that was set to nil. -/
inductive Cell
  | no
  | datum (x : Id)
  | text (s : String)
  | relation (r : RelationTable)
deriving DecidableEq, Repr

/-- `pllua_trigger`, with its user value. -/
structure pllua_trigger where
  /-- the pointer to the `TriggerData` is set -/
  td : Bool
  modified : Bool
  fields : String → Option Cell

section
variable {α : Type} {types : Types} (pg : Backend α types) (td : TriggerData α types)

/-- `pllua_trigger_begin`. -/
def pllua_trigger_begin : pllua_trigger := ⟨true, false, fun _ => none⟩

/-- `pllua_trigger_end`. -/
def pllua_trigger_end (obj : pllua_trigger) : pllua_trigger := { obj with td := false }

/-- The row that `trigger.row` stands for. -/
def TriggerData.which : Which := if td.operation = .delete then .old else .new

/-- The tuple that `pllua_trigger_get_new` or `pllua_trigger_get_old` copies. -/
def TriggerData.tuple : Which → Option (Value α)
  | .new =>
    if td.for_row then
      match td.operation with
      | .insert => some td.tg_trigtuple
      | .update => some td.tg_newtuple
      | _ => none
    else none
  | .old => if td.for_row && td.operation ≠ .insert then some td.tg_trigtuple else none

/-- `pllua_trigger_get_when`. -/
def TriggerData.when : String :=
  match td.timing with
  | .before => "before"
  | .after => "after"
  | .instead => "instead"

/-- `pllua_trigger_get_operation`. -/
def TriggerData.operation_name : String :=
  match td.operation with
  | .insert => "insert"
  | .update => "update"
  | .delete => "delete"
  | .truncate => "truncate"

/-- `pllua_trigger_get_level`. -/
def TriggerData.level : String := if td.for_row then "row" else "statement"

/-- `pllua_trigger_get_relation`. -/
def TriggerData.relation : RelationTable where
  namespace_name := td.tg_relation.namespace_name.getD ""
  name := td.tg_relation.relname
  oid := td.tg_relation.rd_id
  attributes := (td.attrs.zipIdx.filter fun a => !a.1.attisdropped).map fun a => (a.1.attname, a.2)

/-- The fields of `triggerobj_keys` that are no rows. -/
def TriggerData.constant : String → Option Cell
  | "name" => some (.text td.tgname)
  | "when" => some (.text td.when)
  | "operation" => some (.text td.operation_name)
  | "level" => some (.text td.level)
  | "relation" => some (.relation td.relation)
  | _ => none

/-! ## Reading and assigning fields -/

inductive Fetched
  | nil
  | cell (c : Cell)
  | error (message : String)

/-- Names that are no fields. -/
def hidden (str : String) : Bool :=
  match str.toList with
  | [] => true
  | c :: _ => c = '_' || c = '.'

/-- The names "row" and "op" stand for others. -/
def TriggerData.real_name (str : String) : String :=
  if str = "row" then td.which.key else if str = "op" then "operation" else str

def pllua_trigger.store (obj : pllua_trigger) (key : String) (c : Option Cell) : pllua_trigger :=
  { obj with fields := Function.update obj.fields key c }

/-- `pllua_trigger_getrow`, and the entry that keeps the row. -/
def pllua_trigger_getrow (w : Which) (obj : pllua_trigger) (h : Heap α) :
    Heap α × pllua_trigger × Fetched :=
  match td.tuple w with
  | none => (h, obj, .nil)
  | some v =>
    (pllua_newdatum types td.tdtypeid v h, obj.store w.key (some (.datum h.next)),
      .cell (.datum h.next))

/-- `pllua_trigger_index`. -/
def pllua_trigger_index (str : String) (obj : pllua_trigger) (h : Heap α) :
    Heap α × pllua_trigger × Fetched :=
  if obj.td = false then (h, obj, .error "cannot access dead trigger object")
  else if hidden str then (h, obj, .nil)
  else
    let str := td.real_name str
    match obj.fields str with
    | some .no => (h, obj, .nil)
    | some c => (h, obj, .cell c)
    | none =>
      if str = "new" then pllua_trigger_getrow td .new obj h
      else if str = "old" then pllua_trigger_getrow td .old obj h
      else
        match td.constant str with
        | none => (h, obj, .nil)
        | some c => (h, obj.store str (some c), .cell c)

inductive Outcome
  | done
  | error (message : String)
  /-- an error of the constructor -/
  | raised

/-- `pllua_trigger_newindex`. -/
def pllua_trigger_newindex (str : String) (arg : Arg α types) (obj : pllua_trigger) (h : Heap α) :
    Heap α × pllua_trigger × Outcome :=
  if obj.td = false then (h, obj, .error "cannot access dead trigger object")
  else if str ≠ "row" then (h, obj, .error ("cannot modify field trigger." ++ str))
  else if td.for_row = false then
    (h, obj, .error "trigger row can only be modified in a per-row trigger")
  else
    match arg with
    | .nil => (h, { obj.store td.which.key (some .no) with modified := true }, .done)
    | arg =>
      match pllua_typeinfo_call types pg td.tdtypeid arg h with
      | (h, .error .freed) => (h.crash, obj, .raised)
      | (h, .error .error) => (h, obj, .raised)
      | (h, .ok none) => (h, { obj.store td.which.key none with modified := true }, .done)
      | (h, .ok (some v)) =>
        (pllua_newdatum types td.tdtypeid v h,
          { obj.store td.which.key (some (.datum h.next)) with modified := true }, .done)

/-! ## The result -/

/-- What comes of the operation: nothing of it, the tuple of the event itself, or another one. -/
inductive TriggerResult (α : Type)
  | suppressed
  | original
  | tuple (v : Value α)
  | error (message : String)
  /-- an error of the constructor -/
  | raised

/-- The end of `pllua_return_trigger_result`, where the type of the relation makes the tuple. -/
def constructed (arg : Arg α types) (h : Heap α) : Heap α × TriggerResult α :=
  match pllua_typeinfo_call types pg td.tdtypeid arg h with
  | (h, .error .freed) => (h.crash, .raised)
  | (h, .error .error) => (h, .raised)
  | (h, .ok none) => (h, .error "incorrect type on return from trigger")
  | (h, .ok (some v)) => (h, .tuple v)

/-- `pllua_trigger_copytuple` of a datum. -/
def pllua_trigger_copytuple (x : Id) (h : Heap α) : Heap α × TriggerResult α :=
  match h.content x with
  | .error _ => (h.crash, .raised)
  | .ok v => (h, .tuple v)

/-- The returned value is the row of the trigger object, which has not been modified. -/
def returned_unchanged (obj : pllua_trigger) (arg : Arg α types) (h : Heap α) : Bool :=
  match obj.fields td.which.key, arg with
  | some (.datum y), .datum x => x = y && !(h.datum y).modified
  | _, _ => false

/-- `pllua_return_trigger_result`. -/
def pllua_return_trigger_result (rets : List (Arg α types)) (obj : pllua_trigger) (h : Heap α) :
    Heap α × TriggerResult α :=
  if obj.td = false then (h, .error "cannot access dead trigger object")
  else if td.for_row = false || td.timing = .after then (h, .suppressed)
  else
    match rets with
    | _ :: _ :: _ => (h, .error "invalid number of results from trigger")
    | [.nil] => (h, .suppressed)
    | [] =>
      match obj.fields td.which.key with
      | none => (h, .original)
      | some .no => (h, .suppressed)
      | some (.datum x) =>
        if (h.datum x).metatable = false then
          (h, .error "incorrect type in trigger.row on return from trigger")
        else if (h.datum x).modified then constructed pg td (.datum x) h
        else if obj.modified then pllua_trigger_copytuple x h
        else (h, .original)
      | some _ => (h, .error "incorrect type in trigger.row on return from trigger")
    | [arg] =>
      if obj.modified = false && returned_unchanged td obj arg h then (h, .original)
      else constructed pg td arg h

/-! ## Trigger functions -/

/-- A step of a trigger function. -/
inductive Step (α : Type) (types : Types)
  | datum (op : Op α types)
  | get (str : String)
  | set (str : String) (arg : Given α types)

inductive Answer (α : Type)
  | datum (r : Reply α)
  | text (s : String)
  | relation (r : RelationTable)
  | error (message : String)

structure TriggerState (α : Type) where
  st : State α
  obj : pllua_trigger

/-- `pllua_call_trigger` before the function runs, apart from the rows that it hands over. -/
def TriggerState.start : TriggerState α := ⟨.start, pllua_trigger_begin⟩

/-- What the function gets of a field, and the datum if it is one. -/
def Fetched.answer : Fetched → Answer α × List Id
  | .nil | .cell .no => (.datum .nil, [])
  | .cell (.datum x) => (.datum .ref, [x])
  | .cell (.text s) => (.text s, [])
  | .cell (.relation r) => (.relation r, [])
  | .error message => (.error message, [])

def Outcome.answer : Outcome → Answer α
  | .done => .datum .nothing
  | .error message => .error message
  | .raised => .datum .error

def TriggerState.got (s : TriggerState α) (out : Heap α × pllua_trigger × Fetched) :
    TriggerState α × Answer α :=
  let (answer, new) : Answer α × List Id := out.2.2.answer
  (⟨{ s.st with heap := out.1, refs := s.st.refs ++ new }, out.2.1⟩, answer)

def trigger_step (s : TriggerState α) : Step α types → TriggerState α × Answer α
  | .datum op =>
    let (st, r) := step types pg s.st op
    (⟨st, s.obj⟩, .datum r)
  | .get str => s.got (pllua_trigger_index td str s.obj s.st.heap)
  | .set str arg =>
    let (h, obj, outcome) :=
      pllua_trigger_newindex pg td str (arg.arg types s.st) s.obj s.st.heap
    (⟨{ s.st with heap := h }, obj⟩, outcome.answer)

/-- The result of a trigger function that returns these values in the end. -/
def trigger_result (s : TriggerState α) (rets : List (Given α types)) : Heap α × TriggerResult α :=
  pllua_return_trigger_result pg td (rets.map fun arg => arg.arg types s.st) s.obj s.st.heap

/-- What `trigger.row` gives, to return it. -/
def Answer.given (n : Nat) : Answer α → Given α types
  | .datum .ref => .ref n
  | _ => .nil

/-- The result of a function that ends with `return trigger.row`. -/
def row_returned (s : TriggerState α) : Heap α × TriggerResult α :=
  let (s', answer) := trigger_step pg td s (.get "row")
  trigger_result pg td s' [answer.given s.st.refs.length]

/-- The text of a copy of `trigger.row`, which its type makes of it, or nil. (The text of the row
itself has the columns that were assigned to without their typmods.) -/
def row_shown (s : TriggerState α) : Answer α :=
  match trigger_step pg td s (.get "row") with
  | (s', .datum .ref) =>
    match trigger_step pg td s' (.datum (.construct td.tdtypeid s.st.refs.length)) with
    | (s'', .datum .ref) => (trigger_step pg td s'' (.datum (.tostring s'.st.refs.length))).2
    | (_, answer) => answer
  | (_, answer) => answer

/-- The row that the operation goes on with, or nil. -/
def TriggerResult.answer : TriggerResult α → Answer α
  | .suppressed => .datum .nil
  | .original =>
    match td.tuple td.which with
    | none => .datum .nil
    | some v => .datum (.value v)
  | .tuple v => .datum (.value v)
  | .error message => .error message
  | .raised => .datum .error

/-- The datums that the trigger object keeps. -/
def pllua_trigger.datums (obj : pllua_trigger) : List Id :=
  [obj.fields "new", obj.fields "old"].filterMap fun
    | some (.datum x) => some x
    | _ => none

/-- Lua's collector takes no datum that the trigger object keeps. -/
def TriggerState.Collectable (s : TriggerState α) : Step α types → Prop
  | .datum op => datums.Collectable types s.st op ∧
      match op with
      | .lose xs => ∀ x ∈ s.obj.datums, x ∉ xs
      | _ => True
  | .get _ => True
  | .set _ arg => ∀ r ∈ arg.refs, ∀ x ∈ s.st.dead, s.st.refs[r]? ≠ some x

instance (s : TriggerState α) : ∀ a : Step α types, Decidable (s.Collectable a)
  | .datum (.lose _) | .datum (.create _) | .datum (.index _ _) | .datum (.newindex _ _ _)
  | .datum (.element _ _) | .datum (.set_element _ _ _) | .datum (.idxlist_index _ _ _)
  | .datum (.idxlist_newindex _ _ _ _) | .datum (.construct _ _) | .datum (.tostring _)
  | .datum (.finalize _) => inferInstanceAs (Decidable (_ ∧ _))
  | .get _ => inferInstanceAs (Decidable True)
  | .set _ arg => inferInstanceAs (Decidable (∀ r ∈ arg.refs, _))

/-- The returned values are none that the collector has taken. -/
def TriggerState.Returnable (s : TriggerState α) (rets : List (Given α types)) : Prop :=
  ∀ arg ∈ rets, ∀ r ∈ arg.refs, ∀ x ∈ s.st.dead, s.st.refs[r]? ≠ some x

instance (s : TriggerState α) (rets : List (Given α types)) : Decidable (s.Returnable rets) :=
  inferInstanceAs (Decidable (∀ arg ∈ rets, _))

end

end pllua.triggers
