-- The cursor objects of spi.c, the portals of PostgreSQL they stand for, the
-- weak table that finds the object of a portal, and the collector, which clears
-- the entry of an object some time before it runs the finalizer.
import Mathlib.Logic.Function.Basic
import Pllua.Runs

namespace pllua.spi

/-! ## The state -/

/-- The address of a portal. It can be used again once the portal is dropped. -/
abbrev Portal := Nat

abbrev CursorId := Nat

/-- A `lua_State`: the main one is 0, and the others are coroutines. -/
abbrev Thread := Nat

/-- `pllua_spi_cursor`, with the name in the uservalue. The callback record is known by
the portal in whose memory it is. -/
structure Cursor where
  portal : Option Portal
  cb : Option Portal
  L : Thread
  is_ours : Bool
  is_live : Bool
  name : Option String
deriving DecidableEq, Repr

/-- What the collector knows of an object. -/
inductive Life
  | reachable
  /-- nothing refers to it any more but weak tables -/
  | unreachable
  /-- it is gone from the weak tables, and its finalizer is still to run -/
  | cleared
  | freed
deriving DecidableEq, Repr

/-- A call of `findcursor` or `open` that has its portal and is not yet at
`pllua_cursor_setportal`. -/
structure Attaching where
  curs : CursorId
  portal : Portal
  is_ours : Bool
  L : Thread
deriving DecidableEq, Repr

structure State where
  cursors : CursorId → Cursor
  life : CursorId → Life
  next_cursor : CursorId
  /-- the open portals and their names -/
  portals : List (Portal × String)
  /-- the reset callbacks in the memory of a portal whose `arg` is a cursor, last one first -/
  callbacks : Portal → List CursorId
  /-- `PLLUA_PORTALS` -/
  registry : Portal → Option CursorId
  /-- the calls under way, innermost first -/
  attaching : List Attaching

/-- What fails in the `PLLUA_TRY` block of `pllua_cursor_setportal`. -/
structure Luck where
  close_error : Bool
  alloc_error : Bool

def good_luck : Luck := ⟨false, false⟩

def State.set_cursor (s : State) (c : CursorId) (curs : Cursor) : State :=
  { s with cursors := Function.update s.cursors c curs }

def State.set_life (s : State) (c : CursorId) (l : Life) : State :=
  { s with life := Function.update s.life c l }

def State.set_registry (s : State) (p : Portal) (c : Option CursorId) : State :=
  { s with registry := Function.update s.registry p c }

def State.set_callbacks (s : State) (p : Portal) (cs : List CursorId) : State :=
  { s with callbacks := Function.update s.callbacks p cs }

/-! ## Portals -/

/-- `pllua_cursor_cleanup_portal`. -/
def pllua_cursor_cleanup_portal (portal : Portal) (s : State) : State :=
  s.set_registry portal none

/-- `pllua_cursor_cb`. -/
def pllua_cursor_cb (s : State) (c : CursorId) : State :=
  let curs := s.cursors c
  if curs.is_live then
    let s := s.set_cursor c { curs with is_live := false, cb := none, portal := none }
    match curs.portal with
    | some portal => pllua_cursor_cleanup_portal portal s
    | none => s
  else s

/-- PostgreSQL drops a portal: the callbacks in its memory run. -/
def drop_portal (p : Portal) (s : State) : State :=
  (s.callbacks p).foldl pllua_cursor_cb
    { s.set_callbacks p [] with portals := s.portals.filter (·.1 ≠ p) }

/-- `pllua_spi_findportal`. -/
def pllua_spi_findportal (name : String) (s : State) : Option Portal :=
  (s.portals.find? (·.2 = name)).map (·.1)

/-- `PLLUA_PORTALS` and the callback forget the portal of the cursor. -/
def dissociate (c : CursorId) (s : State) : State :=
  let curs := s.cursors c
  match curs.portal with
  | none => s
  | some oldportal =>
    let s := match curs.cb with
      | some ctx => s.set_callbacks ctx ((s.callbacks ctx).filter (· ≠ c))
      | none => s
    (s.set_registry oldportal none).set_cursor c { curs with portal := none }

/-- The cursor gets a portal, with a callback in its memory. -/
def associate (c : CursorId) (portal : Portal) (is_ours : Bool) (L : Thread) (s : State) : State :=
  ((s.set_registry portal (some c)).set_callbacks portal (c :: s.callbacks portal)).set_cursor c
    { s.cursors c with portal := some portal, cb := some portal, L, is_ours, is_live := true }

/-- `SPI_cursor_close` for the portal that the cursor owned, if any. -/
def close_owned (owned : Option Portal) (s : State) : State :=
  match owned with
  | some oldportal => drop_portal oldportal s
  | none => s

/-- `pllua_cursor_setportal`. An error leaves the state as it is at that moment. -/
def pllua_cursor_setportal (luck : Luck) (c : CursorId) (portal : Option Portal) (is_ours : Bool)
    (L : Thread) (s : State) : State :=
  let curs := s.cursors c
  let owned := if curs.is_ours then curs.portal else none
  let s := dissociate c s
  if owned.isSome && luck.close_error then s
  else
    let s := close_owned owned s
    match portal with
    | none => s
    | some portal => if luck.alloc_error then s else associate c portal is_ours L s

/-! ## The functions for the user -/

/-- `pllua_newcursor`. -/
def pllua_newcursor (name : Option String) (L : Thread) (s : State) : CursorId × State :=
  let c := s.next_cursor
  (c, { (s.set_cursor c ⟨none, none, L, false, false, name⟩).set_life c .reachable with
    next_cursor := c + 1 })

/-- `pllua_spi_findcursor`, up to its call of `pllua_cursor_setportal` for a new cursor: the
object it gives, if any. An object that is still in the weak table is reachable again. -/
def pllua_spi_findcursor (name : String) (L : Thread) (s : State) :
    Except String (Option CursorId) × State :=
  match pllua_spi_findportal name s with
  | none => (.ok none, s)
  | some portal =>
    match s.registry portal with
    | some c =>
      if (s.cursors c).portal ≠ some portal then (.error "portal lookup mismatch", s)
      else (.ok (some c), s.set_life c .reachable)
    | none =>
      let (c, s) := pllua_newcursor (some name) L s
      (.ok (some c), { s with attaching := ⟨c, portal, false, L⟩ :: s.attaching })

/-- `pllua_spi_newcursor`. -/
def pllua_spi_newcursor (name : Option String) (L : Thread) (s : State) : State :=
  match name with
  | none => (pllua_newcursor none L s).2
  | some name =>
    match pllua_spi_findcursor name L s with
    | (.ok none, s) => (pllua_newcursor (some name) L s).2
    | (_, s) => s

/-- `pllua_spi_cursor_open`, up to its call of `pllua_cursor_setportal`. PostgreSQL makes the
portal at an address that is not in use, with the name of the cursor or one of its own. -/
def pllua_spi_cursor_open (c : CursorId) (portal : Portal) (unnamed : String) (L : Thread)
    (s : State) : State :=
  let name := (s.cursors c).name.getD unnamed
  if (s.cursors c).portal.isSome || s.portals.any (fun p => p.1 = portal || p.2 = name) then s
  else
    { s with
      portals := (portal, name) :: s.portals
      attaching := ⟨c, portal, true, L⟩ :: s.attaching }

/-- The call of `pllua_cursor_setportal` in `findcursor` and `open`. -/
def attach (luck : Luck) (s : State) : State :=
  match s.attaching with
  | [] => s
  | a :: rest =>
    pllua_cursor_setportal luck a.curs (some a.portal) a.is_ours a.L { s with attaching := rest }

/-- `pllua_cursor_close`. -/
def pllua_cursor_close (luck : Luck) (c : CursorId) (s : State) : State :=
  let curs := s.cursors c
  if curs.portal.isNone || !curs.is_live then s
  else pllua_cursor_setportal luck c none false curs.L (s.set_cursor c { curs with is_ours := true })

/-- `pllua_cursor_own` and `pllua_cursor_disown`. -/
def set_ours (is_ours : Bool) (c : CursorId) (s : State) : State :=
  let curs := s.cursors c
  if curs.portal.isNone || !curs.is_live then s
  else s.set_cursor c { curs with is_ours }

def pllua_cursor_own : CursorId → State → State := set_ours true

def pllua_cursor_disown : CursorId → State → State := set_ours false

/-- `pllua_cursor_gc`. -/
def pllua_cursor_gc (luck : Luck) (c : CursorId) (s : State) : State :=
  let curs := s.cursors c
  if !curs.is_live || curs.portal.isNone then s
  else pllua_cursor_setportal luck c none false curs.L s

/-- `pllua_cursor_meta_close`. -/
def pllua_cursor_meta_close (luck : Luck) (c : CursorId) (s : State) : State :=
  let curs := s.cursors c
  if curs.portal.isNone || !curs.is_live || !curs.is_ours then s
  else pllua_cursor_setportal luck c none false curs.L s

/-! ## Steps -/

inductive Action
  | newcursor (name : Option String) (L : Thread)
  | findcursor (name : String) (L : Thread)
  | begin_open (c : CursorId) (portal : Portal) (unnamed : String) (L : Thread)
  | attach (luck : Luck)
  /-- the innermost `findcursor` or `open` fails before its `pllua_cursor_setportal` -/
  | fail
  | own (c : CursorId)
  | disown (c : CursorId)
  | close (c : CursorId) (luck : Luck)
  | meta_close (c : CursorId) (luck : Luck)
  /-- another language or a client opens a portal -/
  | declare (portal : Portal) (name : String)
  /-- PostgreSQL drops a portal -/
  | drop (portal : Portal)
  /-- the last reference to the object goes -/
  | forget (c : CursorId)
  /-- the collector finds the object unreachable and clears the weak tables -/
  | clear (c : CursorId)
  /-- the collector runs the finalizer -/
  | finalize (c : CursorId) (luck : Luck)

/-- The collector clears the entries of an object. -/
def clear_weak (c : CursorId) (s : State) : State :=
  { s.set_life c .cleared with
    registry := fun p => if s.registry p = some c then none else s.registry p }

/-- One step. An action that is not possible changes nothing. -/
def step (s : State) : Action → State
  | .newcursor name L => pllua_spi_newcursor name L s
  | .findcursor name L => (pllua_spi_findcursor name L s).2
  | .begin_open c portal unnamed L =>
    if s.life c = .reachable then pllua_spi_cursor_open c portal unnamed L s else s
  | .attach luck => attach luck s
  | .fail => { s with attaching := s.attaching.tail }
  | .own c => if s.life c = .reachable then pllua_cursor_own c s else s
  | .disown c => if s.life c = .reachable then pllua_cursor_disown c s else s
  | .close c luck => if s.life c = .reachable then pllua_cursor_close luck c s else s
  | .meta_close c luck => if s.life c = .reachable then pllua_cursor_meta_close luck c s else s
  | .declare portal name =>
    if s.portals.any (fun p => p.1 = portal || p.2 = name) then s
    else { s with portals := (portal, name) :: s.portals }
  | .drop portal => if s.portals.any (·.1 = portal) then drop_portal portal s else s
  | .forget c =>
    if s.life c = .reachable ∧ ∀ a ∈ s.attaching, a.curs ≠ c then s.set_life c .unreachable else s
  | .clear c => if s.life c = .unreachable then clear_weak c s else s
  | .finalize c luck =>
    if s.life c = .cleared then (pllua_cursor_gc luck c s).set_life c .freed else s

/-- A new interpreter. -/
def start : State where
  cursors := fun _ => ⟨none, none, 0, false, false, none⟩
  life := fun _ => .freed
  next_cursor := 0
  portals := []
  callbacks := fun _ => []
  registry := fun _ => none
  attaching := []

end pllua.spi
