-- The iterators of `rows()`. An iterator fetches a batch of rows at a time and
-- gives them one by one. Its position in the batch is its own, but the batch is
-- in the cursor, and all the iterators of the cursor share it.
import Mathlib.Data.List.Nodup
import Pllua.Runs

open pllua.runs

namespace pllua.rows

/-! ## Cursors and iterators -/

def DEFAULT_FETCH_COUNT : Nat := 50

/-- `pllua_spi_cursor`, as far as iteration goes, with the field `q` of its uservalue. -/
structure Cursor (R : Type) where
  /-- the rows that the portal has still to give, or none for a closed cursor -/
  portal : Option (List R)
  fetch_count : Nat
  is_private : Bool
  /-- the last batch -/
  q : Option (List R)

/-- The upvalues of an iterator. -/
structure Iter where
  /-- the first upvalue is still the cursor -/
  curs : Bool
  qpos : Nat
  qlen : Nat
deriving DecidableEq, Repr

inductive Failure
  /-- the upvalue is not a cursor any more -/
  | type_error
  | message (msg : String)
deriving DecidableEq, Repr

/-- What a call of an iterator gives. -/
inductive Reply (R : Type)
  | row (r : R)
  /-- nil -/
  | done
  | error (e : Failure)
deriving DecidableEq, Repr

variable {R : Type}

/-- `pllua_spi_cursor_fetch` forward: the rows, and the cursor that has moved past them. -/
def pllua_spi_cursor_fetch (c : Cursor R) (count : Nat) : Except Failure (List R × Cursor R) :=
  match c.portal with
  | none => .error (.message "attempting to fetch from a closed cursor")
  | some rest => .ok (rest.take count, { c with portal := some (rest.drop count) })

def pllua_cursor_close (c : Cursor R) : Cursor R := { c with portal := none }

/-- The `fetch_count` of an iterator. -/
def Cursor.count (c : Cursor R) : Nat :=
  have fetch_count := if c.is_private then c.fetch_count else 1
  if fetch_count = 0 then DEFAULT_FETCH_COUNT else fetch_count

/-- The end of an iterator's call: `v` is what it has read at position `qpos`. -/
def iter_reply (fetch_count : Nat) (c : Cursor R) (it : Iter) (qpos : Nat) (v : Option R) :
    Reply R × Cursor R × Iter :=
  match v with
  | none =>
    if c.is_private then (.done, pllua_cursor_close c, { it with curs := false })
    else (.done, c, it)
  | some r => if fetch_count > 1 then (.row r, c, { it with qpos := qpos }) else (.row r, c, it)

/-- An iterator that has read its batch gets the next one. -/
def iter_fetch (fetch_count : Nat) (c : Cursor R) (it : Iter) : Reply R × Cursor R × Iter :=
  match pllua_spi_cursor_fetch c fetch_count with
  | .error e => (.error e, c, it)
  | .ok (batch, c) =>
    if fetch_count > 1 then
      iter_reply fetch_count { c with q := some batch } { it with qlen := batch.length } 1 batch[0]?
    else iter_reply fetch_count c it it.qpos batch[0]?

/-- `pllua_spi_stmt_rows_iter`. -/
def pllua_spi_stmt_rows_iter (c : Cursor R) (it : Iter) : Reply R × Cursor R × Iter :=
  if it.curs = false then (.error .type_error, c, it)
  else if c.portal.isNone then (.error (.message "cannot iterate a closed cursor"), c, it)
  else if c.count > 1 ∧ it.qpos < it.qlen then
    match c.q with
    | none => (.error (.message "attempt to index a nil value"), c, it)
    | some q => iter_reply c.count c it (it.qpos + 1) q[it.qpos]?
  else iter_fetch c.count c it

/-! ## A cursor and its iterators -/

structure State (R : Type) where
  curs : Cursor R
  iters : List Iter
  /-- the replies and the iterators that gave them, oldest first -/
  log : List (Nat × Reply R)

inductive Action
  /-- `pllua_cursor_rows`: one more iterator -/
  | cursor_rows
  /-- a call of an iterator -/
  | next (i : Nat)
deriving DecidableEq, Repr

/-- `pllua_spi_stmt_rows` on a query with these rows gives a private cursor, and
`pllua_cursor_rows` on an open cursor of the user's one that is not. -/
def start (rows : List R) (fetch_count : Nat) (is_private : Bool) : State R :=
  ⟨⟨some rows, fetch_count, is_private, none⟩, [⟨true, 0, 0⟩], []⟩

def step (s : State R) : Action → State R
  | .cursor_rows => { s with iters := s.iters ++ [⟨true, 0, 0⟩] }
  | .next i =>
    match s.iters[i]? with
    | none => s
    | some it =>
      have r := pllua_spi_stmt_rows_iter s.curs it
      ⟨r.2.1, s.iters.set i r.2.2, s.log ++ [(i, r.1)]⟩

def Reply.row? : Reply R → Option R
  | .row r => some r
  | _ => none

/-- The rows that the iterators have given. -/
def delivered (log : List (Nat × Reply R)) : List R := log.filterMap (·.2.row?)

/-- The rows that one iterator has given. -/
def delivered_to (i : Nat) (log : List (Nat × Reply R)) : List R :=
  delivered (log.filter (·.1 = i))

/-- The iterator has rows of its batch still to give. -/
def Iter.Unread (it : Iter) : Prop := it.qpos < it.qlen

instance (it : Iter) : Decidable it.Unread := by unfold Iter.Unread; infer_instance

/-- A call of the iterator fetches from the portal. -/
def Fetches (c : Cursor R) (it : Iter) : Prop :=
  it.curs = true ∧ c.portal.isSome ∧ ¬ (c.count > 1 ∧ it.Unread)

/-- No iterator fetches while another one has unread rows. -/
def Heedful (s : State R) : Action → Prop
  | .cursor_rows => True
  | .next i => ∀ it ∈ s.iters[i]?, Fetches s.curs it → ∀ other ∈ s.iters, ¬ other.Unread

instance (c : Cursor R) (it : Iter) : Decidable (Fetches c it) := by unfold Fetches; infer_instance

instance (s : State R) (a : Action) : Decidable (Heedful s a) := by
  unfold Heedful
  split <;> infer_instance

/-! ## One call -/

theorem Cursor.count_pos (c : Cursor R) : 0 < c.count := by
  unfold Cursor.count DEFAULT_FETCH_COUNT
  generalize (if c.is_private then c.fetch_count else 1) = n
  dsimp only
  split <;> omega

theorem delivered_append (log log' : List (Nat × Reply R)) :
    delivered (log ++ log') = delivered log ++ delivered log' := by
  simp [delivered]

/-- A call that goes through the batch gives the row at the position, and no more is
changed than the position. -/
theorem iter_reads {c : Cursor R} {it : Iter} {q : List R} {r : R} (hc : it.curs = true)
    (hp : c.portal.isSome) (hn : c.count > 1) (hu : it.Unread) (hq : c.q = some q)
    (hr : q[it.qpos]? = some r) :
    pllua_spi_stmt_rows_iter c it = (.row r, c, { it with qpos := it.qpos + 1 }) := by
  have hopen : c.portal.isNone = false := by
    rw [Option.isNone_eq_false_iff]; exact hp
  unfold Iter.Unread at hu
  simp [pllua_spi_stmt_rows_iter, iter_reply, hc, hopen, hn, hu, hq, hr]

theorem iter_of_fetches {c : Cursor R} {it : Iter} (hf : Fetches c it) :
    pllua_spi_stmt_rows_iter c it = iter_fetch c.count c it := by
  obtain ⟨hc, hp, hu⟩ := hf
  unfold Iter.Unread at hu
  unfold pllua_spi_stmt_rows_iter
  rw [if_neg (by simp [hc]), if_neg (by simpa using Option.ne_none_iff_isSome.mpr hp), if_neg hu]

/-- What a call gives that fetches from a portal with rows. -/
theorem iter_fetches {c : Cursor R} {it : Iter} {r : R} {rest : List R}
    (hp : c.portal = some (r :: rest)) (hf : Fetches c it) :
    pllua_spi_stmt_rows_iter c it =
      if c.count > 1 then
        (.row r, { c with portal := some ((r :: rest).drop c.count),
                          q := some ((r :: rest).take c.count) },
          { it with qpos := 1, qlen := ((r :: rest).take c.count).length })
      else (.row r, { c with portal := some ((r :: rest).drop c.count) }, it) := by
  rw [iter_of_fetches hf]
  have hpos := c.count_pos
  generalize c.count = n at hpos ⊢
  have hfirst : ((r :: rest).take n)[0]? = some r := by
    rw [List.getElem?_take_of_lt hpos]
    rfl
  rcases Decidable.em (n > 1) with h | h
  · simp only [iter_fetch, pllua_spi_cursor_fetch, hp, if_pos h, hfirst, iter_reply]
  · simp only [iter_fetch, pllua_spi_cursor_fetch, hp, if_neg h, hfirst, iter_reply]

/-- A call that fetches nothing ends the iterator, and leaves it nothing to read. -/
theorem iter_ends {c : Cursor R} {it : Iter} (hp : c.portal = some []) (hf : Fetches c it) :
    ∃ c' it', pllua_spi_stmt_rows_iter c it = (.done, c', it') ∧ c'.portal.getD [] = [] ∧
      c'.count = c.count ∧ it'.qlen = if c.count > 1 then 0 else it.qlen := by
  rw [iter_of_fetches hf]
  generalize hn : c.count = n
  unfold Cursor.count at hn
  simp only [iter_fetch, pllua_spi_cursor_fetch, hp, List.take_nil, List.drop_nil,
    List.getElem?_nil, iter_reply, pllua_cursor_close]
  rcases Decidable.em (n > 1) with h | h
  · rw [if_pos h, if_pos h]
    split
    · exact ⟨_, _, rfl, rfl, hn, rfl⟩
    · exact ⟨_, _, rfl, rfl, hn, rfl⟩
  · rw [if_neg h, if_neg h]
    split
    · exact ⟨_, _, rfl, rfl, hn, rfl⟩
    · exact ⟨_, _, rfl, rfl, hn, rfl⟩

/-- A call that neither reads nor fetches raises an error and changes nothing. -/
theorem iter_fails {c : Cursor R} {it : Iter} (h : it.curs = false ∨ c.portal = none) :
    ∃ e, pllua_spi_stmt_rows_iter c it = (.error e, c, it) := by
  unfold pllua_spi_stmt_rows_iter
  rcases h with h | h
  · rw [if_pos h]
    exact ⟨_, rfl⟩
  · by_cases hc : it.curs = false
    · rw [if_pos hc]
      exact ⟨_, rfl⟩
    · rw [if_neg hc, if_pos (by simp [h])]
      exact ⟨_, rfl⟩

/-! ## The law -/

def State.rest (s : State R) : List R := s.curs.portal.getD []

/-- The rows are those delivered, those of the batch that are still to give, and those of the
portal. One iterator at most has rows to give, and it is the one that fetched the batch. -/
structure Lossless (rows : List R) (s : State R) (pending : List R) : Prop where
  whole : delivered s.log ++ pending ++ s.rest = rows
  reader : ∀ (i : Nat) (it : Iter), s.iters[i]? = some it → it.Unread →
    it.curs = true ∧ ∃ q, s.curs.q = some q ∧ it.qlen = q.length ∧ q.drop it.qpos = pending
  one : ∀ (i j : Nat) (it it' : Iter), s.iters[i]? = some it → s.iters[j]? = some it' →
    it.Unread → it'.Unread → i = j
  nothing : (∀ it ∈ s.iters, ¬ it.Unread) → pending = []
  unbuffered : s.curs.count ≤ 1 → ∀ it ∈ s.iters, it.qlen = 0
  ended : ∀ i, (i, Reply.done) ∈ s.log → pending = [] ∧ s.rest = []

theorem lossless_start (rows : List R) (fetch_count : Nat) (is_private : Bool) :
    Lossless rows (start rows fetch_count is_private) [] where
  whole := rfl
  reader := by
    intro i it hi hu
    rcases i with _ | i
    · cases hi
      exact absurd hu (Nat.lt_irrefl 0)
    · cases hi
  one := by
    intro i j it it' hi _ hu _
    rcases i with _ | i
    · cases hi
      exact absurd hu (Nat.lt_irrefl 0)
    · cases hi
  nothing := fun _ => rfl
  unbuffered := by
    intro _ it hit
    rw [List.mem_singleton.mp hit]
  ended := fun _ h => by cases h

/-- The law in a state where one iterator only may have rows to give. -/
theorem lossless_of_sole {rows : List R} {s : State R} {pending : List R} {i : Nat} {it : Iter}
    (whole : delivered s.log ++ pending ++ s.rest = rows) (hi : s.iters[i]? = some it)
    (others : ∀ (j : Nat) (it' : Iter), j ≠ i → s.iters[j]? = some it' → ¬ it'.Unread)
    (reads : it.Unread → it.curs = true ∧
      ∃ q, s.curs.q = some q ∧ it.qlen = q.length ∧ q.drop it.qpos = pending)
    (nothing : ¬ it.Unread → pending = [])
    (unbuffered : s.curs.count ≤ 1 → ∀ it ∈ s.iters, it.qlen = 0)
    (ended : ∀ i, (i, Reply.done) ∈ s.log → pending = [] ∧ s.rest = []) :
    Lossless rows s pending := by
  have sole : ∀ (j : Nat) (it' : Iter), s.iters[j]? = some it' → it'.Unread → j = i := by
    intro j it' hj hu
    by_contra hne
    exact others j it' hne hj hu
  refine ⟨whole, ?_, ?_, ?_, unbuffered, ended⟩
  · intro j it' hj hu
    have hji := sole j it' hj hu
    subst hji
    rw [hi] at hj
    cases hj
    exact reads hu
  · intro j k it' it'' hj hk hu hu'
    exact (sole j it' hj hu).trans (sole k it'' hk hu').symm
  · intro h
    exact nothing (h it (List.mem_of_getElem? hi))

theorem step_next {s : State R} {i : Nat} {it it' : Iter} {r : Reply R} {c' : Cursor R}
    (hi : s.iters[i]? = some it) (h : pllua_spi_stmt_rows_iter s.curs it = (r, c', it')) :
    step s (.next i) = ⟨c', s.iters.set i it', s.log ++ [(i, r)]⟩ := by
  simp [step, hi, h]

/-- The iterators after one of them has moved. -/
theorem iters_set {iters : List Iter} {i j : Nat} {it x : Iter} (hj : (iters.set i it)[j]? = some x) :
    (j = i ∧ x = it) ∨ (j ≠ i ∧ iters[j]? = some x) := by
  rw [List.getElem?_set] at hj
  split at hj
  case isTrue h =>
    split at hj
    · cases hj
      exact Or.inl ⟨h.symm, rfl⟩
    · cases hj
  case isFalse h => exact Or.inr ⟨fun he => h he.symm, hj⟩

theorem iters_set_self {iters : List Iter} {i : Nat} {it : Iter} (hi : iters[i]? = some it)
    (it' : Iter) : (iters.set i it')[i]? = some it' := by
  rw [List.getElem?_set_self (List.getElem?_eq_some_iff.mp hi).1]

theorem iters_set_same {iters : List Iter} {i : Nat} {it : Iter} (hi : iters[i]? = some it) :
    iters.set i it = iters := by
  obtain ⟨hlt, hget⟩ := List.getElem?_eq_some_iff.mp hi
  rw [← hget]
  exact List.set_getElem_self hlt

theorem iters_set_qlen {iters : List Iter} {i : Nat} {it : Iter} (h : ∀ x ∈ iters, x.qlen = 0)
    (hit : it.qlen = 0) : ∀ x ∈ iters.set i it, x.qlen = 0 := by
  intro x hx
  rcases List.mem_or_eq_of_mem_set hx with hx | hx
  · exact h x hx
  · rw [hx, hit]

/-! ## One step -/

/-- A call that fails changes nothing but the log. -/
theorem Lossless.fail {rows pending : List R} {s : State R} (h : Lossless rows s pending)
    (i : Nat) (e : Failure) :
    Lossless rows { s with log := s.log ++ [(i, .error e)] } pending where
  whole := by
    rw [delivered_append, show delivered [(i, (Reply.error e : Reply R))] = [] from rfl,
      List.append_nil]
    exact h.whole
  reader := h.reader
  one := h.one
  nothing := h.nothing
  unbuffered := h.unbuffered
  ended := by
    intro j hj
    rcases List.mem_append.mp hj with hj | hj
    · exact h.ended j hj
    · cases List.mem_singleton.mp hj

/-- A call that reads the batch. -/
theorem Lossless.read {rows pending : List R} {s : State R} (h : Lossless rows s pending)
    {i : Nat} {it : Iter} (hi : s.iters[i]? = some it) (hp : s.curs.portal.isSome)
    (hn : s.curs.count > 1) (hu : it.Unread) :
    ∃ r pending', pending = r :: pending' ∧ Lossless rows (step s (.next i)) pending' ∧
      step s (.next i) = ⟨s.curs, s.iters.set i { it with qpos := it.qpos + 1 },
        s.log ++ [(i, .row r)]⟩ := by
  obtain ⟨hc, q, hq, hlen, hdrop⟩ := h.reader i it hi hu
  have hlt : it.qpos < q.length := by
    rw [← hlen]
    exact hu
  have hpend : pending = q[it.qpos] :: q.drop (it.qpos + 1) := by
    rw [← hdrop, List.drop_eq_getElem_cons hlt]
  have hstep := step_next hi (iter_reads hc hp hn hu hq (List.getElem?_eq_getElem hlt))
  refine ⟨_, _, hpend, ?_, hstep⟩
  rw [hstep]
  refine lossless_of_sole ?_ (iters_set_self hi _) ?_ ?_ ?_ ?_ ?_
  · rw [delivered_append, ← h.whole, hpend]
    simp [delivered, Reply.row?, State.rest]
  · intro j it' hne hj hu'
    rcases iters_set hj with ⟨he, -⟩ | ⟨-, hj⟩
    · exact hne he
    · exact hne (h.one j i it' it hj hi hu' hu)
  · exact fun _ => ⟨hc, q, hq, hlen, rfl⟩
  · intro hu'
    apply List.drop_eq_nil_of_le
    rw [← hlen]
    exact Nat.not_lt.mp hu'
  · intro hle
    exact absurd hn (Nat.not_lt.mpr hle)
  · intro j hj
    rcases List.mem_append.mp hj with hj | hj
    · rw [(h.ended j hj).1] at hpend
      cases hpend
    · cases List.mem_singleton.mp hj

theorem not_unread_of_qlen {it : Iter} (h : it.qlen = 0) : ¬ it.Unread := by
  unfold Iter.Unread
  omega

/-- A call that fetches while no iterator has rows to give. -/
theorem Lossless.fetch {rows pending : List R} {s : State R} (h : Lossless rows s pending)
    {i : Nat} {it : Iter} (hi : s.iters[i]? = some it) (hf : Fetches s.curs it)
    (hquiet : ∀ other ∈ s.iters, ¬ other.Unread) {r : R} {rest : List R}
    (hp : s.curs.portal = some (r :: rest)) :
    pending = [] ∧ ∃ pending', Lossless rows (step s (.next i)) pending' ∧
      pending' ++ (step s (.next i)).rest = rest ∧
      (step s (.next i)).log = s.log ++ [(i, .row r)] ∧
      (step s (.next i)).curs.portal.isSome ∧
      ∃ it', it'.curs = true ∧ (step s (.next i)).iters = s.iters.set i it' := by
  have hnone := h.nothing hquiet
  have hwhole := h.whole
  have hcount := s.curs.count_pos
  have hrest : s.rest = r :: rest := by simp [State.rest, hp]
  rw [hnone, hrest, List.append_nil] at hwhole
  have hended : ∀ (j : Nat) (log : List (Nat × Reply R)), log = s.log ++ [(i, .row r)] →
      (j, Reply.done) ∉ log := by
    intro j log hlog hj
    rw [hlog] at hj
    rcases List.mem_append.mp hj with hj | hj
    · have hr := (h.ended j hj).2
      rw [hrest] at hr
      cases hr
    · cases List.mem_singleton.mp hj
  refine ⟨hnone, ?_⟩
  have hiter := iter_fetches hp hf
  obtain ⟨n, hn⟩ : ∃ n, s.curs.count = n + 1 := ⟨s.curs.count - 1, by omega⟩
  rcases Decidable.em (s.curs.count > 1) with hgt | hgt
  · rw [if_pos hgt] at hiter
    have hstep := step_next hi hiter
    rw [hstep]
    refine ⟨rest.take n, lossless_of_sole ?_ (iters_set_self hi _) ?_ ?_ ?_ ?_ ?_, ?_, rfl, rfl,
      { it with qpos := 1, qlen := ((r :: rest).take s.curs.count).length }, hf.1, rfl⟩
    · rw [delivered_append, ← hwhole]
      simp [delivered, Reply.row?, State.rest, hn]
    · intro j it' hne hj
      rcases iters_set hj with ⟨he, -⟩ | ⟨-, hj⟩
      · exact absurd he hne
      · exact hquiet it' (List.mem_of_getElem? hj)
    · exact fun _ => ⟨hf.1, _, rfl, rfl, by simp [hn]⟩
    · intro hu
      simp only [Iter.Unread, hn, List.take_succ_cons, List.length_cons, Nat.not_lt] at hu
      exact List.eq_nil_of_length_eq_zero (by omega)
    · intro hle
      exact absurd hgt (Nat.not_lt.mpr hle)
    · exact fun j hj => absurd hj (hended j _ rfl)
    · simp [State.rest, hn]
  · rw [if_neg hgt] at hiter
    have hstep := step_next hi hiter
    have hone : s.curs.count = 1 := by omega
    rw [iters_set_same hi] at hstep
    rw [hstep]
    refine ⟨[], lossless_of_sole ?_ hi ?_ ?_ ?_ ?_ ?_, ?_, rfl, rfl, it, hf.1,
      (iters_set_same hi).symm⟩
    · rw [delivered_append, ← hwhole]
      simp [delivered, Reply.row?, State.rest, hone]
    · intro j it' _ hj
      exact hquiet it' (List.mem_of_getElem? hj)
    · intro hu
      exact absurd hu (hquiet it (List.mem_of_getElem? hi))
    · exact fun _ => rfl
    · exact fun _ => h.unbuffered (by omega)
    · exact fun j hj => absurd hj (hended j _ rfl)
    · simp [State.rest, hone]

/-- A call that fetches nothing. -/
theorem Lossless.finish {rows pending : List R} {s : State R} (h : Lossless rows s pending)
    {i : Nat} {it : Iter} (hi : s.iters[i]? = some it) (hf : Fetches s.curs it)
    (hquiet : ∀ other ∈ s.iters, ¬ other.Unread) (hp : s.curs.portal = some []) :
    pending = [] ∧ Lossless rows (step s (.next i)) [] ∧
      (step s (.next i)).log = s.log ++ [(i, .done)] := by
  have hnone := h.nothing hquiet
  have hwhole := h.whole
  have hrest : s.rest = [] := by simp [State.rest, hp]
  obtain ⟨c', it', hiter, hp', hcount, hqlen⟩ := iter_ends hp hf
  have hstep := step_next hi hiter
  rw [hnone, hrest, List.append_nil, List.append_nil] at hwhole
  have hread : ¬ it'.Unread := by
    rcases Decidable.em (s.curs.count > 1) with hgt | hgt
    · rw [if_pos hgt] at hqlen
      exact not_unread_of_qlen hqlen
    · rw [if_neg hgt, h.unbuffered (by omega) it (List.mem_of_getElem? hi)] at hqlen
      exact not_unread_of_qlen hqlen
  rw [hstep]
  refine ⟨hnone, lossless_of_sole ?_ (iters_set_self hi _) ?_ ?_ ?_ ?_ ?_, rfl⟩
  · rw [delivered_append, ← hwhole]
    simp [delivered, Reply.row?, State.rest, hp']
  · intro j x hne hj
    rcases iters_set hj with ⟨he, -⟩ | ⟨-, hj⟩
    · exact absurd he hne
    · exact hquiet x (List.mem_of_getElem? hj)
  · exact fun hu => absurd hu hread
  · exact fun _ => rfl
  · intro hle
    rw [hcount] at hle
    have hall := h.unbuffered hle
    rw [if_neg (by omega), hall it (List.mem_of_getElem? hi)] at hqlen
    exact iters_set_qlen hall hqlen
  · exact fun _ _ => ⟨rfl, hp'⟩

/-- One more iterator has nothing to give yet. -/
theorem Lossless.cursor_rows {rows pending : List R} {s : State R} (h : Lossless rows s pending) :
    Lossless rows (step s .cursor_rows) pending := by
  have hnew : ∀ (j : Nat) (it : Iter), (s.iters ++ [⟨true, 0, 0⟩])[j]? = some it → it.Unread →
      s.iters[j]? = some it := by
    intro j it hj hu
    rw [List.getElem?_append] at hj
    split at hj
    · exact hj
    · have hit : it = ⟨true, 0, 0⟩ := by
        have hmem := List.mem_of_getElem? hj
        exact List.mem_singleton.mp hmem
      rw [hit] at hu
      exact absurd hu (not_unread_of_qlen rfl)
  refine ⟨h.whole, ?_, ?_, ?_, ?_, h.ended⟩
  · exact fun j it hj hu => h.reader j it (hnew j it hj hu) hu
  · exact fun j k it it' hj hk hu hu' =>
      h.one j k it it' (hnew j it hj hu) (hnew k it' hk hu') hu hu'
  · exact fun hq => h.nothing fun it hit => hq it (List.mem_append_left _ hit)
  · intro hle it hit
    rcases List.mem_append.mp hit with hit | hit
    · exact h.unbuffered hle it hit
    · rw [List.mem_singleton.mp hit]

/-- The cases of a call: it reads, it fetches, or it fails. -/
theorem iter_cases (c : Cursor R) (it : Iter) :
    (it.curs = true ∧ c.portal.isSome ∧ c.count > 1 ∧ it.Unread) ∨ Fetches c it ∨
      (it.curs = false ∨ c.portal = none) := by
  cases hc : it.curs with
  | false => exact Or.inr (Or.inr (Or.inl rfl))
  | true =>
    cases hp : c.portal with
    | none => exact Or.inr (Or.inr (Or.inr rfl))
    | some rest =>
      rcases Decidable.em (c.count > 1 ∧ it.Unread) with hu | hu
      · exact Or.inl ⟨rfl, rfl, hu⟩
      · exact Or.inr (Or.inl ⟨hc, by rw [hp]; rfl, hu⟩)

/-- Every step that heeds the unread rows keeps the law. -/
theorem lossless_step {rows : List R} {s : State R} {a : Action}
    (h : ∃ pending, Lossless rows s pending) (hok : Heedful s a) :
    ∃ pending, Lossless rows (step s a) pending := by
  obtain ⟨pending, h⟩ := h
  cases a with
  | cursor_rows => exact ⟨pending, h.cursor_rows⟩
  | next i =>
    cases hi : s.iters[i]? with
    | none =>
      have hstep : step s (.next i) = s := by simp [step, hi]
      rw [hstep]
      exact ⟨pending, h⟩
    | some it =>
      rcases iter_cases s.curs it with ⟨-, hp, hn, hu⟩ | hf | hfail
      · obtain ⟨r, pending', -, hl, -⟩ := h.read hi hp hn hu
        exact ⟨pending', hl⟩
      · have hquiet := hok it hi hf
        obtain ⟨rest, hp⟩ := Option.isSome_iff_exists.mp hf.2.1
        cases rest with
        | nil => exact ⟨[], (h.finish hi hf hquiet hp).2.1⟩
        | cons r rest =>
          obtain ⟨-, pending', hl, -⟩ := h.fetch hi hf hquiet hp
          exact ⟨pending', hl⟩
      · obtain ⟨e, he⟩ := iter_fails hfail
        rw [step_next hi he, iters_set_same hi]
        exact ⟨pending, h.fail i e⟩

/-! ## Runs -/

theorem lossless_run (rows : List R) (fetch_count : Nat) (is_private : Bool) {as : List Action}
    (h : Each step Heedful (start rows fetch_count is_private) as) :
    ∃ pending, Lossless rows (run step (start rows fetch_count is_private) as) pending :=
  run_invariant (fun _ _ => lossless_step) ⟨[], lossless_start rows fetch_count is_private⟩ h

/-- A cursor with one iterator, which has these rows still to give. -/
structure Single (rows : List R) (s : State R) (left : List R) : Prop where
  is_open : s.curs.portal.isSome
  iter : ∃ it : Iter, it.curs = true ∧ s.iters = [it]
  lossless : ∃ pending, Lossless rows s pending ∧ pending ++ s.rest = left

theorem Lossless.unread_of_single {rows pending : List R} {s : State R}
    (h : Lossless rows s pending) {it : Iter} (hs : s.iters = [it]) (hf : Fetches s.curs it) :
    ∀ other ∈ s.iters, ¬ other.Unread := by
  intro other ho
  rw [hs, List.mem_singleton] at ho
  subst ho
  rcases Decidable.em (s.curs.count > 1) with hgt | hgt
  · exact fun hu => hf.2.2 ⟨hgt, hu⟩
  · exact not_unread_of_qlen (h.unbuffered (by omega) other (by simp [hs]))

/-- The iterator gives the next row. -/
theorem Single.row {rows left : List R} {s : State R} {r : R} (h : Single rows s (r :: left)) :
    Single rows (step s (.next 0)) left ∧
      (step s (.next 0)).log = s.log ++ [(0, .row r)] := by
  obtain ⟨hopen, ⟨it, hc, hiters⟩, pending, hl, hleft⟩ := h
  have hi : s.iters[0]? = some it := by rw [hiters]; rfl
  obtain ⟨rest, hp⟩ := Option.isSome_iff_exists.mp hopen
  have hrest : s.rest = rest := by simp [State.rest, hp]
  rw [hrest] at hleft
  rcases iter_cases s.curs it with ⟨-, -, hn, hu⟩ | hf | hfail
  · obtain ⟨r', pending', hpend, hl', hstep⟩ := hl.read hi hopen hn hu
    rw [hpend, List.cons_append] at hleft
    obtain ⟨hr, htail⟩ := List.cons.inj hleft
    subst hr
    refine ⟨⟨?_, ⟨{ it with qpos := it.qpos + 1 }, hc, ?_⟩, pending', hl', ?_⟩, ?_⟩
    · rw [hstep]
      exact hopen
    · rw [hstep, hiters]
      rfl
    · rw [hstep, ← htail, ← hrest]
      rfl
    · rw [hstep]
  · have hquiet := hl.unread_of_single hiters hf
    rw [hl.nothing hquiet, List.nil_append] at hleft
    rw [hleft] at hp
    obtain ⟨-, pending', hl', hleft', hlog, hopen', it', hc', hset⟩ := hl.fetch hi hf hquiet hp
    refine ⟨⟨hopen', ⟨it', hc', ?_⟩, pending', hl', hleft'⟩, hlog⟩
    rw [hset, hiters]
    rfl
  · rcases hfail with hfail | hfail
    · rw [hc] at hfail
      cases hfail
    · rw [hfail] at hopen
      cases hopen

/-- The iterator ends after the last row. -/
theorem Single.done {rows : List R} {s : State R} (h : Single rows s []) :
    (step s (.next 0)).log = s.log ++ [(0, .done)] := by
  obtain ⟨hopen, ⟨it, hc, hiters⟩, pending, hl, hleft⟩ := h
  have hi : s.iters[0]? = some it := by rw [hiters]; rfl
  obtain ⟨rest, hp⟩ := Option.isSome_iff_exists.mp hopen
  have hrest : s.rest = rest := by simp [State.rest, hp]
  obtain ⟨hnone, hempty⟩ := List.append_eq_nil_iff.mp hleft
  rcases iter_cases s.curs it with ⟨-, -, hn, hu⟩ | hf | hfail
  · obtain ⟨r', pending', hpend, -⟩ := hl.read hi hopen hn hu
    rw [hnone] at hpend
    cases hpend
  · rw [hrest] at hempty
    rw [hempty] at hp
    exact (hl.finish hi hf (hl.unread_of_single hiters hf) hp).2.2
  · rcases hfail with hfail | hfail
    · rw [hc] at hfail
      cases hfail
    · rw [hfail] at hopen
      cases hopen

theorem single_run {rows left : List R} {s : State R} (h : Single rows s left) :
    (run step s (List.replicate (left.length + 1) (.next 0))).log =
      s.log ++ left.map (fun r => (0, Reply.row r)) ++ [(0, .done)] := by
  induction left generalizing s with
  | nil =>
    rw [List.map_nil, List.append_nil]
    exact h.done
  | cons r left ih =>
    obtain ⟨hs, hlog⟩ := h.row
    rw [List.length_cons, List.replicate_succ, run_cons, ih hs, hlog]
    simp

/-- As long as no iterator fetches while another one has unread rows, the rows come once
each and in the order of the portal, each iterator's own too, and once an iterator has
come to its end all of them have come. A cursor with one iterator gives the rows, and
nil after them. -/
theorem rows_come_once (rows : List R) (fetch_count : Nat) (is_private : Bool) :
    (∀ as : List Action, Each step Heedful (start rows fetch_count is_private) as →
      delivered (run step (start rows fetch_count is_private) as).log <+: rows ∧
      (∀ i, (delivered_to i (run step (start rows fetch_count is_private) as).log).Sublist rows) ∧
      ((∃ i, (i, Reply.done) ∈ (run step (start rows fetch_count is_private) as).log) →
        delivered (run step (start rows fetch_count is_private) as).log = rows)) ∧
    (run step (start rows fetch_count is_private)
        (List.replicate (rows.length + 1) (.next 0))).log =
      rows.map (fun r => (0, Reply.row r)) ++ [(0, .done)] := by
  constructor
  · intro as h
    obtain ⟨pending, hl⟩ := lossless_run rows fetch_count is_private h
    have hwhole := hl.whole
    rw [List.append_assoc] at hwhole
    have hpre : delivered (run step (start rows fetch_count is_private) as).log <+: rows :=
      ⟨_, hwhole⟩
    refine ⟨hpre, fun i => ?_, fun ⟨i, hi⟩ => ?_⟩
    · exact (List.filter_sublist.filterMap _).trans hpre.sublist
    · obtain ⟨hnone, hrest⟩ := hl.ended i hi
      rw [hnone, hrest, List.append_nil, List.append_nil] at hwhole
      exact hwhole
  · have hsingle : Single rows (start rows fetch_count is_private) rows :=
      ⟨rfl, ⟨_, rfl, rfl⟩, [], lossless_start rows fetch_count is_private, rfl⟩
    exact single_run hsingle

/-- Two iterators take turns, each after the other has read its batch. -/
theorem rows_come_once_in_turns :
    delivered (run step (start [1, 2, 3] 2 true)
      [.cursor_rows, .next 0, .next 0, .next 1, .next 0]).log = [1, 2, 3] := by
  refine ((rows_come_once [1, 2, 3] 2 true).1
    [.cursor_rows, .next 0, .next 0, .next 1, .next 0] ?_).2.2 ⟨0, by decide⟩
  exact ⟨by decide, by decide, by decide, by decide, by decide, trivial⟩

/-- Two iterators in turns, row by row, until both are over: row 2 never comes, and row 4
comes twice. -/
theorem rows_lost_and_doubled :
    (run step (start [1, 2, 3, 4] 2 true)
      [.cursor_rows, .next 0, .next 1, .next 0, .next 1, .next 0, .next 1]).log =
      [(0, .row 1), (1, .row 3), (0, .row 4), (1, .row 4), (0, .done),
        (1, .error (.message "cannot iterate a closed cursor"))] := by
  decide

/-! ## What a heedless step loses -/

/-- A row that no iterator can give any more. -/
structure Lost (r : R) (s : State R) : Prop where
  log : r ∉ delivered s.log
  rest : r ∉ s.rest
  batch : ∀ q, s.curs.q = some q → r ∉ q

/-- What a call gives and leaves comes from the portal or from the batch. -/
structure From (c : Cursor R) (reply : Reply R × Cursor R × Iter) : Prop where
  row : ∀ x, reply.1 = .row x → x ∈ c.portal.getD [] ∨ ∃ q, c.q = some q ∧ x ∈ q
  rest : ∀ x ∈ reply.2.1.portal.getD [], x ∈ c.portal.getD []
  batch : ∀ q, reply.2.1.q = some q → c.q = some q ∨ ∀ x ∈ q, x ∈ c.portal.getD []

theorem iter_reply_from {c c' : Cursor R} {n : Nat} {it : Iter} {qpos : Nat} {v : Option R}
    (hrest : ∀ x ∈ c'.portal.getD [], x ∈ c.portal.getD [])
    (hbatch : ∀ q, c'.q = some q → c.q = some q ∨ ∀ x ∈ q, x ∈ c.portal.getD [])
    (hv : ∀ x, v = some x → x ∈ c.portal.getD [] ∨ ∃ q, c.q = some q ∧ x ∈ q) :
    From c (iter_reply n c' it qpos v) := by
  cases v with
  | none =>
    unfold iter_reply
    dsimp only
    split
    · exact ⟨fun _ h => (by cases h), fun _ h => (by cases h), hbatch⟩
    · exact ⟨fun _ h => (by cases h), hrest, hbatch⟩
  | some r =>
    have hrow : ∀ x, Reply.row r = .row x → x ∈ c.portal.getD [] ∨ ∃ q, c.q = some q ∧ x ∈ q := by
      intro x hx
      cases hx
      exact hv r rfl
    unfold iter_reply
    dsimp only
    split
    · exact ⟨hrow, hrest, hbatch⟩
    · exact ⟨hrow, hrest, hbatch⟩

theorem from_error (c : Cursor R) (it : Iter) (e : Failure) : From c (.error e, c, it) :=
  ⟨fun _ h => (by cases h), fun _ h => h, fun _ h => Or.inl h⟩

/-- What a fetch gives comes from the portal, whatever the batch was. -/
theorem iter_fetch_fresh {n : Nat} (c : Cursor R) (it : Iter) {rest : List R}
    (hp : c.portal = some rest) (hn : n > 1) : From { c with q := none } (iter_fetch n c it) := by
  have hmem : ∀ x ∈ rest, x ∈ (Cursor.portal { c with q := none }).getD [] := by simp [hp]
  simp only [iter_fetch, pllua_spi_cursor_fetch, hp, if_pos hn] at hmem ⊢
  refine iter_reply_from (fun x hx => hmem x (List.mem_of_mem_drop hx)) ?_ ?_
  · intro q hq
    cases hq
    exact Or.inr fun x hx => hmem x (List.mem_of_mem_take hx)
  · intro x hx
    exact Or.inl (hmem x (List.mem_of_mem_take (List.mem_of_getElem? hx)))

theorem iter_fetch_from (n : Nat) (c : Cursor R) (it : Iter) : From c (iter_fetch n c it) := by
  cases hp : c.portal with
  | none =>
    simp only [iter_fetch, pllua_spi_cursor_fetch, hp]
    exact from_error c it _
  | some rest =>
    have hmem : ∀ x ∈ rest, x ∈ c.portal.getD [] := by simp [hp]
    rcases Decidable.em (n > 1) with hn | hn
    · have hfresh := iter_fetch_fresh c it hp hn
      refine ⟨fun x hx => ?_, hfresh.rest, fun q hq => ?_⟩
      · rcases hfresh.row x hx with h | ⟨q, hq, -⟩
        · exact Or.inl h
        · cases hq
      · rcases hfresh.batch q hq with h | h
        · cases h
        · exact Or.inr h
    · simp only [iter_fetch, pllua_spi_cursor_fetch, hp, if_neg hn]
      exact iter_reply_from (fun x hx => hmem x (List.mem_of_mem_drop hx)) (fun _ hq => Or.inl hq)
        fun x hx => Or.inl (hmem x (List.mem_of_mem_take (List.mem_of_getElem? hx)))

theorem iter_from (c : Cursor R) (it : Iter) : From c (pllua_spi_stmt_rows_iter c it) := by
  unfold pllua_spi_stmt_rows_iter
  split
  · exact from_error c it _
  · split
    · exact from_error c it _
    · split
      · cases hq : c.q with
        | none => exact from_error c it _
        | some q =>
          exact iter_reply_from (fun _ h => h) (fun _ h => Or.inl h)
            fun x hx => Or.inr ⟨q, hq, List.mem_of_getElem? hx⟩
      · exact iter_fetch_from _ c it

/-- A row that was not given and is not where the call takes its row from is lost. -/
theorem lost_next {r : R} {s : State R} {i : Nat} {it : Iter} {c : Cursor R}
    (hi : s.iters[i]? = some it) (hlog : r ∉ delivered s.log)
    (hfrom : From c (pllua_spi_stmt_rows_iter s.curs it)) (hrest : r ∉ c.portal.getD [])
    (hbatch : ∀ q, c.q = some q → r ∉ q) : Lost r (step s (.next i)) := by
  obtain ⟨reply, c', it', heq⟩ : ∃ reply c' it',
    pllua_spi_stmt_rows_iter s.curs it = (reply, c', it') := ⟨_, _, _, rfl⟩
  rw [heq] at hfrom
  rw [step_next hi heq]
  refine ⟨?_, fun hr => hrest (hfrom.rest r hr), fun q hq hr => ?_⟩
  · intro hr
    rw [delivered_append] at hr
    rcases List.mem_append.mp hr with hr | hr
    · exact hlog hr
    · have hreply : reply = .row r := by
        cases reply with
        | row x => rw [List.mem_singleton.mp hr]
        | done => cases hr
        | error e => cases hr
      rcases hfrom.row r hreply with hin | ⟨q, hq, hin⟩
      · exact hrest hin
      · exact hbatch q hq hin
  · rcases hfrom.batch q hq with hold | hnew
    · exact hbatch q hold hr
    · exact hrest (hnew r hr)

theorem lost_step {r : R} {s : State R} (h : Lost r s) (a : Action) : Lost r (step s a) := by
  cases a with
  | cursor_rows => exact ⟨h.log, h.rest, h.batch⟩
  | next i =>
    cases hi : s.iters[i]? with
    | none =>
      have hstep : step s (.next i) = s := by simp [step, hi]
      rw [hstep]
      exact h
    | some it => exact lost_next hi h.log (iter_from s.curs it) h.rest h.batch

/-- The condition is the least one: where the rows are told apart, a step that fetches while
another iterator has unread rows loses one of them for good, however the run goes on. -/
theorem heedless_step_loses {rows pending : List R} {s : State R} (hnd : rows.Nodup)
    (h : Lossless rows s pending) {a : Action} (hbad : ¬ Heedful s a) :
    ∃ r ∈ rows, ∀ as, r ∉ delivered (run step (step s a) as).log := by
  cases a with
  | cursor_rows => exact absurd trivial hbad
  | next i =>
    simp only [Heedful, not_forall, not_not] at hbad
    obtain ⟨it, hi, hf, other, hother, hu⟩ := hbad
    obtain ⟨j, hj⟩ := List.mem_iff_getElem?.mp hother
    obtain ⟨rest, hp⟩ := Option.isSome_iff_exists.mp hf.2.1
    obtain ⟨-, q, hq, hlen, hdrop⟩ := h.reader j other hj hu
    have hlt : other.qpos < q.length := by
      rw [← hlen]
      exact hu
    have hn : s.curs.count > 1 := by
      by_contra hle
      exact not_unread_of_qlen (h.unbuffered (by omega) other hother) hu
    rw [List.drop_eq_getElem_cons hlt] at hdrop
    have hwhole := h.whole
    rw [← hdrop, List.append_assoc, List.cons_append] at hwhole
    rw [← hwhole, List.nodup_middle, List.nodup_cons] at hnd
    have hfresh := iter_fetch_fresh s.curs it hp hn
    rw [← iter_of_fetches hf] at hfresh
    have hlost : Lost q[other.qpos] (step s (.next i)) := by
      refine lost_next hi (fun hr => hnd.1 (List.mem_append_left _ hr)) hfresh (fun hr => ?_)
        fun _ hq => (by cases hq)
      exact hnd.1 (List.mem_append_right _ (List.mem_append_right _ hr))
    refine ⟨q[other.qpos], ?_, fun as => ?_⟩
    · rw [← hwhole]
      exact List.mem_append_right _ List.mem_cons_self
    · have hrun : Lost q[other.qpos] (run step (step s (.next i)) as) :=
        run_keeps (I := Lost q[other.qpos]) (fun _ a hs => lost_step hs a) hlost as
      exact hrun.log

end pllua.rows
