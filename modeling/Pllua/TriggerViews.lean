-- What a trigger does, on trees of values: its rows stand for values that the function may write
-- into, and the result goes by what became of the row of the operation.
import Pllua.Triggers

open pllua.catalog pllua.records pllua.runs pllua.datums

namespace pllua.triggers

/-- The values of a run of a trigger function, the rows of the event that it has read, and what it
has last put in place of the operation's row. -/
structure View (α : Type) where
  tree : datums.Tree α
  rows : Which → Option Ref
  assigned : Option (Option Ref)

section
variable {α : Type} {types : Types} (pg : Backend α types) (td : TriggerData α types)

def View.start : View α := ⟨.start, fun _ => none, none⟩

/-- A row with a new value. -/
def View.row_ref (v : View α) : Ref := ⟨⟨v.tree.forest.next, []⟩, td.tdtypeid, -1⟩

/-- One more reference to a row. -/
def View.hand (v : View α) (ref : Ref) : View α × Answer α :=
  ({ v with tree := { v.tree with refs := v.tree.refs ++ [ref] } }, .datum .ref)

/-- A row of the event is a value of its own from the first time that it is read. -/
def View.fetch (v : View α) (w : Which) : View α × Answer α :=
  match v.rows w, td.tuple w with
  | some ref, _ => v.hand ref
  | none, none => (v, .datum .nil)
  | none, some x =>
    ({ v with
        tree := (v.tree.plant td.tdtypeid x).1
        rows := Function.update v.rows w (some (v.row_ref td)) }, .datum .ref)

def View.row (v : View α) (w : Which) : View α × Answer α :=
  match v.assigned with
  | none => v.fetch td w
  | some a =>
    if w = td.which then
      match a with
      | none => (v, .datum .nil)
      | some ref => v.hand ref
    else v.fetch td w

def View.get (v : View α) (str : String) : View α × Answer α :=
  if hidden str then (v, .datum .nil)
  else
    let key := td.real_name str
    if key = "new" then v.row td .new
    else if key = "old" then v.row td .old
    else
      match td.constant key with
      | some (.text s) => (v, .text s)
      | some (.relation r) => (v, .relation r)
      | _ => (v, .datum .nil)

def View.set (v : View α) (str : String) (arg : Given α types) : View α × Answer α :=
  if str ≠ "row" then (v, .error ("cannot modify field trigger." ++ str))
  else if td.for_row = false then
    (v, .error "trigger row can only be modified in a per-row trigger")
  else
    match arg with
    | .nil => ({ v with assigned := some none }, .datum .nothing)
    | arg =>
      match v.tree.made pg td.tdtypeid arg with
      | .ok (some x) =>
        ({ v with
            tree := { (v.tree.plant td.tdtypeid x).1 with refs := v.tree.refs }
            assigned := some (some (v.row_ref td)) }, .datum .nothing)
      | _ => (v, .datum .error)

def View.step (v : View α) : Step α types → View α × Answer α
  | .datum op =>
    let (tree, r) := v.tree.step pg op
    ({ v with tree }, .datum r)
  | .get str => v.get td str
  | .set str arg => v.set pg td str arg

/-- The tuple that the type of the relation makes. -/
def made_tuple : Except Failure (Option (Value α)) → TriggerResult α
  | .ok (some x) => .tuple x
  | .ok none => .error "incorrect type on return from trigger"
  | .error _ => .raised

/-- The row of the event has been read and nothing else has been done to it. -/
def View.unchanged (v : View α) (ref : Ref) : Bool := v.tree.origins ref.place.root = .planted

/-- The function returned the row of the event, which nobody wrote to or replaced. -/
def View.returned_unchanged (v : View α) (arg : Given α types) : Bool :=
  match v.assigned, v.rows td.which, arg with
  | none, some ref, .ref r =>
    (v.tree.refs[r]?.any fun ref' => ref'.place = ref.place) && v.unchanged ref
  | _, _, _ => false

def View.result (v : View α) (rets : List (Given α types)) : TriggerResult α :=
  if td.for_row = false || td.timing = .after then .suppressed
  else
    match rets with
    | _ :: _ :: _ => .error "invalid number of results from trigger"
    | [.nil] => .suppressed
    | [] =>
      match v.assigned, v.rows td.which with
      | some none, _ => .suppressed
      | some (some ref), _ => made_tuple (v.tree.cast pg ref td.tdtypeid)
      | none, none => .original
      | none, some ref =>
        if v.unchanged ref then .original else made_tuple (v.tree.cast pg ref td.tdtypeid)
    | [arg] =>
      if v.returned_unchanged td arg then .original
      else made_tuple (v.tree.made pg td.tdtypeid arg)

/-! ## What a trigger object shows -/

/-- What the trigger object keeps for a row: nothing, false, or a datum. -/
def View.entry (v : View α) (w : Which) : Option (Option Ref) :=
  match v.assigned with
  | none => (v.rows w).map some
  | some a => if w = td.which then some a else (v.rows w).map some

/-- A datum that the trigger object keeps stands for a row of its own. -/
def CellOk (st : State α) (t : datums.Tree α) (loc : Places) (oid : Oid) :
    Option Cell → Option (Option Ref) → Prop
  | none, none => True
  | some .no, some none => True
  | some (.datum x), some (some ref) => x ∉ st.dead ∧ Stands st.heap loc x ref ∧
      ref.place.path = [] ∧ ref.typeoid = oid ∧ t.origins ref.place.root ≠ .detached
  | _, _ => False

/-- A row of the event is as it was until it is written to. -/
def View.Genuine (v : View α) : Prop :=
  ∀ w ref, v.rows w = some ref → ref.place.root < v.tree.forest.next ∧
    (v.tree.origins ref.place.root = .planted → v.tree.forest.at ref.place = td.tuple w)

/-- The trigger object and the heap show the view. -/
structure Seeing (s : TriggerState α) (v : View α) (loc : Places) : Prop where
  following : Following types s.st v.tree loc
  alive : s.obj.td = true
  modified : s.obj.modified = v.assigned.isSome
  cells : ∀ w : Which, CellOk s.st v.tree loc td.tdtypeid (s.obj.fields w.key) (v.entry td w)
  constants : ∀ key c, key ≠ "new" → key ≠ "old" → s.obj.fields key = some c →
    td.constant key = some c
  genuine : v.Genuine td

end

/-! ## What becomes of a tree that was planted -/

/-- A tree that still counts as planted is what it was, and none becomes detached. -/
structure Grows {α : Type} (t t' : datums.Tree α) : Prop where
  next : t.forest.next ≤ t'.forest.next
  whole : ∀ n, n < t.forest.next → t.origins n ≠ .detached → t'.origins n ≠ .detached
  planted : ∀ n, n < t.forest.next → t'.origins n = .planted →
    t.origins n = .planted ∧ t'.forest.roots n = t.forest.roots n

section
variable {α : Type} {types : Types} {pg : Backend α types} {t t' t'' : datums.Tree α}

theorem Grows.same (hforest : t'.forest = t.forest) (horigins : t'.origins = t.origins) :
    Grows t t' where
  next := Nat.le_of_eq (by rw [hforest])
  whole := fun _ _ h => horigins ▸ h
  planted := fun _ _ h => ⟨horigins ▸ h, by rw [hforest]⟩

theorem Grows.refl (t : datums.Tree α) : Grows t t := .same rfl rfl

theorem Grows.trans (h : Grows t t') (h' : Grows t' t'') : Grows t t'' where
  next := Nat.le_trans h.next h'.next
  whole := fun n hn hd => h'.whole n (Nat.lt_of_lt_of_le hn h.next) (h.whole n hn hd)
  planted := by
    intro n hn hp
    obtain ⟨hp', hroot'⟩ := h'.planted n (Nat.lt_of_lt_of_le hn h.next) hp
    obtain ⟨hp'', hroot⟩ := h.planted n hn hp'
    exact ⟨hp'', hroot'.trans hroot⟩

theorem Grows.touch (t : datums.Tree α) (m : Nat) : Grows t (t.touch m) where
  next := Nat.le_of_eq (by rw [touch_forest])
  whole := by
    intro n _ hd
    by_cases hne : n = m
    · subst hne
      unfold Tree.touch
      split
      · simp only [Function.update_self]
        nofun
      · exact hd
    · rwa [touch_ne hne]
  planted := by
    intro n _ hp
    have hne : n ≠ m := by
      rintro rfl
      exact touch_not_planted _ hp
    rw [touch_ne hne] at hp
    exact ⟨hp, by rw [touch_forest]⟩

theorem Grows.plant (t : datums.Tree α) (oid : Oid) (v : Value α) : Grows t (t.plant oid v).1 where
  next := Nat.le_succ _
  whole := by
    intro n hn hd
    simpa only [Tree.plant, Function.update_of_ne (Nat.ne_of_lt hn)] using hd
  planted := by
    intro n hn hp
    simp only [Tree.plant, Forest.plant, Function.update_of_ne (Nat.ne_of_lt hn)] at hp ⊢
    exact ⟨hp, trivial⟩

theorem Grows.assign {P : Place} (hw : t.origins P.root ≠ .planted) (w : Option (Value α)) :
    Grows t (t.assign P w) where
  next := Nat.le_succ _
  whole := by
    intro n hn hd
    simpa only [Tree.assign, Function.update_of_ne (Nat.ne_of_lt hn)] using hd
  planted := by
    intro n hn hp
    simp only [Tree.assign, Function.update_of_ne (Nat.ne_of_lt hn)] at hp
    have hne : n ≠ P.root := by
      rintro rfl
      exact hw hp
    refine ⟨hp, ?_⟩
    simp only [Tree.assign, Forest.assign, Function.update_of_ne hne,
      Function.update_of_ne (Nat.ne_of_lt hn)]

theorem Grows.write {P : Place} (hw : t.origins P.root ≠ .planted) (w : Option (Value α)) :
    Grows t { t with forest := t.forest.write P w } where
  next := Nat.le_refl _
  whole := fun _ _ hd => hd
  planted := by
    intro n _ hp
    have hne : n ≠ P.root := by
      rintro rfl
      exact hw hp
    refine ⟨hp, ?_⟩
    simp only [Forest.write, Function.update_of_ne hne]

theorem Grows.through {r : Nat} {method : Ref → datums.Tree α × Reply α}
    (hm : ∀ ref, Grows t (method ref).1) : Grows t (t.through r method).1 := by
  unfold Tree.through
  split
  · exact .refl t
  · exact hm _

theorem Grows.element (t : datums.Tree α) (key : Key Ref) (ref : Ref) :
    Grows t (t.element pg key ref).1 := by
  have helement : ∀ elemtype bytes idx,
      Grows t (t.array_element pg elemtype bytes idx).1 := by
    intro elemtype bytes idx
    unfold Tree.array_element
    split
    · exact .refl t
    · split
      · exact .refl t
      · exact .plant t _ _
  unfold Tree.element
  split
  · split
    · split
      · exact .refl t
      · exact helement _ _ _
    · split
      · exact helement _ _ _
      · exact .refl t
  · exact .refl t

/-- Only a write reaches into a tree, and it counts as written from then on. -/
theorem Grows.step (t : datums.Tree α) (op : Op α types) : Grows t (t.step pg op).1 := by
  cases op with
  | create v => exact .plant t _ _
  | index r i =>
    refine .through fun ref => ?_
    unfold Tree.index
    split
    · exact .refl t
    · simp only
      split
      · exact .refl t
      · split
        · exact .refl t
        · split <;> exact .same rfl rfl
  | newindex r i arg =>
    refine .through fun ref => ?_
    unfold Tree.newindex
    split
    · exact .refl t
    · simp only
      split
      · exact .touch t _
      · exact (Grows.touch t _).trans 
          (.assign (P := ref.place.child i) (touch_not_planted ref.place.root) _)
  | element r key =>
    dsimp only [Tree.step]
    split
    · exact .refl t
    · exact .through fun ref => .element t _ ref
  | set_element r key arg =>
    dsimp only [Tree.step]
    split
    · exact .refl t
    refine .through fun ref => ?_
    unfold Tree.set_element
    split
    · simp only
      split
      · exact .touch t _
      · split
        · exact .touch t _
        · split
          · exact .touch t _
          · exact (Grows.touch t _).trans (.write (touch_not_planted ref.place.root) _)
    · exact .refl t
  | idxlist_index r l i =>
    refine .through fun ref => ?_
    unfold Tree.idxlist_index
    dsimp only
    split
    · exact .element t _ ref
    · exact .refl t
  | idxlist_newindex r l i arg => exact .through fun _ => .refl t
  | construct oid r =>
    refine .through fun ref => ?_
    unfold Tree.construct
    split
    · exact .refl t
    · exact .refl t
    · exact .plant t _ _
  | tostring r =>
    refine .through fun ref => ?_
    unfold Tree.tostring
    split
    · exact .refl t
    · split <;> exact .refl t
  | lose xs => exact .refl t
  | finalize x => exact .refl t

end

/-! ## Steps -/

section
variable {α : Type} {types : Types} {pg : Backend α types} {td : TriggerData α types}
variable {s : TriggerState α} {v : View α} {loc : Places}

theorem Which.key_ne {w w' : Which} (hne : w ≠ w') : w.key ≠ w'.key := by
  cases w <;> cases w' <;> simp_all [Which.key]

theorem CellOk.cases {st : State α} {t : datums.Tree α} {oid : Oid} {c : Option Cell}
    {e : Option (Option Ref)} (hc : CellOk st t loc oid c e) :
    (c = none ∧ e = none) ∨ (c = some .no ∧ e = some none) ∨
      ∃ x ref, c = some (.datum x) ∧ e = some (some ref) ∧ x ∉ st.dead ∧
        Stands st.heap loc x ref ∧ ref.place.path = [] ∧ ref.typeoid = oid ∧
        t.origins ref.place.root ≠ .detached := by
  unfold CellOk at hc
  split at hc
  · exact .inl ⟨rfl, rfl⟩
  · exact .inr (.inl ⟨rfl, rfl⟩)
  · exact .inr (.inr ⟨_, _, rfl, rfl, hc⟩)
  · exact hc.elim

theorem CellOk.keeps {st st' : State α} {t t' : datums.Tree α} {loc loc' : Places} {oid : Oid}
    {c : Option Cell} {e : Option (Option Ref)} (hc : CellOk st t loc oid c e)
    (hf : Following types st t loc) (hdead : ∀ x, c = some (.datum x) → x ∉ st.dead → x ∉ st'.dead)
    (hk : Keeps st st' loc loc') (hg : Grows t t') : CellOk st' t' loc' oid c e := by
  obtain ⟨rfl, rfl⟩ | ⟨rfl, rfl⟩ | ⟨x, ref, rfl, rfl, hx, hstands, hpath, htype, horigin⟩ :=
    hc.cases
  · trivial
  · trivial
  · have hroot : ref.place.root < t.forest.next := by
      obtain ⟨P, hloc, rfl⟩ := hstands
      exact hf.shows.settled.inv.planted x P hloc
    exact ⟨hdead x rfl hx, hk x ref (hdead x rfl hx) hpath hstands, hpath, htype,
      hg.whole _ hroot horigin⟩

theorem View.Genuine.grows {v' : View α} (hv : v.Genuine td) (hg : Grows v.tree v'.tree)
    (hrows : v'.rows = v.rows) : v'.Genuine td := by
  intro w ref hw
  rw [hrows] at hw
  obtain ⟨hroot, hrow⟩ := hv w ref hw
  refine ⟨Nat.lt_of_lt_of_le hroot hg.next, fun hp => ?_⟩
  obtain ⟨hp', hsame⟩ := hg.planted _ hroot hp
  unfold Forest.at
  rw [hsame]
  exact hrow hp'

/-- A step of both sides, after which the view is seen again. -/
def Sees (td : TriggerData α types) (out : TriggerState α × Answer α) (out' : View α × Answer α) :
    Prop :=
  (∃ loc', Seeing td out.1 out'.1 loc') ∧ out.2 = out'.2

theorem step_dead (st : State α) {op : Op α types} {x : Id} (hx : x ∉ st.dead)
    (hlose : ∀ xs, op = .lose xs → x ∉ xs) : x ∉ (step types pg st op).1.dead := by
  have hthrough : ∀ r method, (st.through r method).1.dead = st.dead := by
    intro r method
    unfold State.through
    split
    · rfl
    · split <;> rfl
  cases op with
  | lose xs => exact fun h => (List.mem_append.mp h).elim hx (hlose xs rfl)
  | create | finalize => exact hx
  | index | newindex | idxlist_index | idxlist_newindex | construct | tostring =>
    unfold step
    rwa [hthrough]
  | element | set_element =>
    dsimp only [step]
    split
    · exact hx
    · rwa [hthrough]

theorem mem_datums {obj : pllua_trigger} {w : Which} {x : Id}
    (h : obj.fields w.key = some (.datum x)) : x ∈ obj.datums := by
  unfold pllua_trigger.datums
  refine List.mem_filterMap.mpr ⟨obj.fields w.key, ?_, by rw [h]⟩
  cases w
  · exact List.mem_cons_self
  · exact List.mem_cons_of_mem _ List.mem_cons_self

variable (pg) in
theorem Seeing.datum (hs : Seeing td s v loc) {op : Op α types} (hc : s.Collectable (.datum op)) :
    Sees td (trigger_step pg td s (.datum op)) (v.step pg td (.datum op)) := by
  obtain ⟨hcollect, hkept⟩ := hc
  obtain ⟨⟨loc', hf, hk⟩, hsame⟩ := hs.following.step pg hcollect
  have hg : Grows v.tree (v.tree.step pg op).1 := .step v.tree op
  refine ⟨⟨loc', hf, hs.alive, hs.modified, ?_, hs.constants, hs.genuine.grows hg rfl⟩,
    congrArg Answer.datum hsame⟩
  intro w
  refine (hs.cells w).keeps hs.following ?_ hk hg
  intro x hx hlive
  refine step_dead _ hlive ?_
  rintro xs rfl
  exact hkept x (mem_datums hx)

/-! ## Reading fields -/

theorem View.row_eq (v : View α) (w : Which) :
    v.row td w = match v.entry td w with
      | none => v.fetch td w
      | some none => (v, .datum .nil)
      | some (some ref) => v.hand ref := by
  unfold View.row View.entry
  cases v.assigned with
  | none =>
    cases hrow : v.rows w with
    | none => rfl
    | some ref =>
      unfold View.fetch
      simp only [hrow, Option.map_some]
  | some a =>
    simp only
    split
    · cases a <;> rfl
    · cases hrow : v.rows w with
      | none => rfl
      | some ref =>
        unfold View.fetch
        simp only [hrow, Option.map_some]

/-- The program gets one more reference to a row. -/
theorem Seeing.hand (hs : Seeing td s v loc) {x : Id} {ref : Ref}
    (hx : Stands s.st.heap loc x ref) :
    Sees td (s.got (s.st.heap, s.obj, .cell (.datum x))) (v.hand ref) :=
  ⟨⟨loc, hs.following.hand (.cons hx .nil), hs.alive, hs.modified, hs.cells, hs.constants,
    hs.genuine⟩, rfl⟩

theorem Seeing.nil (hs : Seeing td s v loc) :
    Sees td (s.got (s.st.heap, s.obj, .nil)) (v, .datum .nil) := by
  refine ⟨⟨loc, ?_⟩, rfl⟩
  unfold TriggerState.got
  simp only [Fetched.answer, List.append_nil]
  exact hs

theorem tuple_wellformed {w : Which} {x : Value α} (h : td.tuple w = some x) :
    Wellformed types td.tdtypeid x := by
  unfold TriggerData.tuple at h
  split at h
  · split at h
    · split at h
      · exact Option.some.inj h ▸ td.trigtuple_wellformed
      · exact Option.some.inj h ▸ td.newtuple_wellformed
      · cases h
    · cases h
  · split at h
    · exact Option.some.inj h ▸ td.trigtuple_wellformed
    · cases h

/-- Another row that the trigger object keeps. -/
theorem Seeing.kept (hs : Seeing td s v loc) {h' : Heap α} {loc' : Places}
    (ha : After types s.st.heap h' v.tree loc loc' id) {x : Value α}
    (hw : Wellformed types td.tdtypeid x) :
    ∃ loc'', Following types { s.st with heap := pllua_newdatum types td.tdtypeid x h' }
        { (v.tree.plant td.tdtypeid x).1 with refs := v.tree.refs } loc'' ∧
      Stands (pllua_newdatum types td.tdtypeid x h') loc'' h'.next (v.row_ref td) ∧
      h'.next ∉ s.st.dead ∧
      ∀ w, CellOk { s.st with heap := pllua_newdatum types td.tdtypeid x h' }
        { (v.tree.plant td.tdtypeid x).1 with refs := v.tree.refs } loc'' td.tdtypeid
        (s.obj.fields w.key) (v.entry td w) := by
  have hnew := ha.trans (ha.shows.newdatum hw)
  have hnew' : After types s.st.heap (pllua_newdatum types td.tdtypeid x h')
      { (v.tree.plant td.tdtypeid x).1 with refs := v.tree.refs } loc _ id :=
    ⟨⟨hnew.shows.settled, hnew.shows.tracked⟩, hnew.moved, hnew.typed, hnew.next, hnew.lost,
      hnew.rooted⟩
  obtain ⟨hf, hk⟩ := hs.following.after hnew' (refs_moved _).symm
  refine ⟨_, hf, .newdatum h' loc' _ _ x, ?_, ?_⟩
  · intro hdead
    exact absurd (hs.following.dead _ hdead).1 (Nat.not_lt.mpr ha.next)
  · intro w
    exact (hs.cells w).keeps hs.following (fun _ _ hx => hx) hk
      ((Grows.plant v.tree td.tdtypeid x).trans (.same rfl rfl))

theorem View.rows_of_entry {w : Which} (h : v.entry td w = none) : v.rows w = none := by
  unfold View.entry at h
  split at h
  · exact Option.map_eq_none_iff.mp h
  · split at h
    · cases h
    · exact Option.map_eq_none_iff.mp h

theorem View.entry_read {w : Which} (h : v.entry td w = none) (t : datums.Tree α)
    (ref : Ref) (w' : Which) :
    { v with tree := t, rows := Function.update v.rows w (some ref) }.entry td w' =
      if w' = w then some (some ref) else v.entry td w' := by
  unfold View.entry at h ⊢
  by_cases hw : w' = w
  · subst hw
    simp only [Function.update_self, if_true, Option.map_some]
    split
    · rfl
    · rename_i a ha
      simp only [ha] at h
      split at h
      · cases h
      · rename_i hne
        rw [if_neg hne]
  · simp only [Function.update_of_ne hw, if_neg hw]

theorem key_ne_row {key : String} (hnew : key ≠ "new") (hold : key ≠ "old") (w : Which) :
    key ≠ w.key := by
  cases w
  · exact hnew
  · exact hold

/-- The first time that a row of the event is read. -/
theorem Seeing.fetch (hs : Seeing td s v loc) {w : Which} (hfield : s.obj.fields w.key = none)
    (hentry : v.entry td w = none) :
    Sees td (s.got (pllua_trigger_getrow td w s.obj s.st.heap)) (v.fetch td w) := by
  unfold pllua_trigger_getrow View.fetch
  rw [View.rows_of_entry hentry]
  cases htuple : td.tuple w with
  | none => exact hs.nil
  | some x =>
    obtain ⟨loc', hf, hstands, hlive, hcells⟩ :=
      hs.kept (After.refl hs.following.shows) (tuple_wellformed htuple)
    refine ⟨⟨loc', hf.hand (.cons hstands .nil), hs.alive, hs.modified, ?_, ?_, ?_⟩, rfl⟩
    · intro w'
      unfold TriggerState.got pllua_trigger.store
      simp only [View.entry_read hentry]
      by_cases hw : w' = w
      · subst hw
        simp only [Function.update_self, if_true]
        refine ⟨hlive, hstands, rfl, rfl, ?_⟩
        simp only [View.row_ref, Tree.plant, Function.update_self]
        nofun
      · simp only [Function.update_of_ne (Which.key_ne hw), if_neg hw]
        exact hcells w'
    · intro key c hnew hold hc
      simp only [TriggerState.got, pllua_trigger.store,
        Function.update_of_ne (key_ne_row hnew hold w)] at hc
      exact hs.constants key c hnew hold hc
    · intro w' ref hw'
      by_cases hw : w' = w
      · subst hw
        simp only [Function.update_self, Option.some.injEq] at hw'
        subst hw'
        exact ⟨Nat.lt_succ_self _, fun _ => at_plant x |>.trans htuple.symm⟩
      · simp only [Function.update_of_ne hw] at hw'
        have hgenuine : View.Genuine td { v with tree := (v.tree.plant td.tdtypeid x).1 } :=
          hs.genuine.grows (.plant v.tree td.tdtypeid x) rfl
        exact hgenuine w' ref hw'

/-- A field that stands for a row. -/
theorem Seeing.row (hs : Seeing td s v loc) (w : Which) :
    Sees td
      (s.got (match s.obj.fields w.key with
        | some .no => (s.st.heap, s.obj, .nil)
        | some c => (s.st.heap, s.obj, .cell c)
        | none => pllua_trigger_getrow td w s.obj s.st.heap)) (v.row td w) := by
  rw [View.row_eq]
  obtain ⟨hfield, hentry⟩ | ⟨hfield, hentry⟩ | ⟨x, ref, hfield, hentry, -, hstands, -⟩ :=
    (hs.cells w).cases
  · rw [hfield, hentry]
    exact hs.fetch hfield hentry
  · rw [hfield, hentry]
    exact hs.nil
  · rw [hfield, hentry]
    exact hs.hand hstands

theorem constant_shown {key : String} {c : Cell} (h : td.constant key = some c) :
    c ≠ .no ∧ ∀ x, c ≠ .datum x := by
  unfold TriggerData.constant at h
  split at h <;> cases h <;> exact ⟨nofun, nofun⟩

/-- The trigger object keeps what a field shows. -/
theorem Seeing.store (hs : Seeing td s v loc) {key : String} {c : Cell} (hnew : key ≠ "new")
    (hold : key ≠ "old") (hc : td.constant key = some c) :
    Seeing td { s with obj := s.obj.store key (some c) } v loc where
  following := hs.following
  alive := hs.alive
  modified := hs.modified
  cells := by
    intro w
    unfold pllua_trigger.store
    simp only [Function.update_of_ne (key_ne_row hnew hold w).symm]
    exact hs.cells w
  constants := by
    intro key' c' hnew' hold' hc'
    simp only [pllua_trigger.store] at hc'
    by_cases hkey : key' = key
    · subst hkey
      rw [Function.update_self] at hc'
      rw [hc, hc']
    · rw [Function.update_of_ne hkey] at hc'
      exact hs.constants key' c' hnew' hold' hc'
  genuine := hs.genuine

/-- A field that is the same in the whole run. -/
theorem Seeing.constant (hs : Seeing td s v loc) {key : String} (hnew : key ≠ "new")
    (hold : key ≠ "old") :
    Sees td
      (s.got (match s.obj.fields key with
        | some .no => (s.st.heap, s.obj, .nil)
        | some c => (s.st.heap, s.obj, .cell c)
        | none =>
          match td.constant key with
          | none => (s.st.heap, s.obj, .nil)
          | some c => (s.st.heap, s.obj.store key (some c), .cell c)))
      (match td.constant key with
        | some (.text s) => (v, .text s)
        | some (.relation r) => (v, .relation r)
        | _ => (v, .datum .nil)) := by
  have hshow : ∀ {obj c}, Seeing td ⟨s.st, obj⟩ v loc → td.constant key = some c →
      Sees td (s.got (s.st.heap, obj, .cell c))
        (match some c with
          | some (.text s) => (v, .text s)
          | some (.relation r) => (v, .relation r)
          | _ => (v, .datum .nil)) := by
    intro obj c hs' hc
    obtain ⟨hno, hdatum⟩ := constant_shown hc
    unfold TriggerState.got
    cases c with
    | no => exact absurd rfl hno
    | datum x => exact absurd rfl (hdatum x)
    | text | relation =>
      simp only [Fetched.answer, List.append_nil]
      exact ⟨⟨loc, hs'⟩, rfl⟩
  cases hfield : s.obj.fields key with
  | some c =>
    have hc := hs.constants key c hnew hold hfield
    have hno := (constant_shown hc).1
    rw [hc]
    split
    · cases ‹some c = some Cell.no›
      exact absurd rfl hno
    · cases ‹some c = some _›
      exact hshow hs hc
    · cases ‹some c = none›
  | none =>
    cases hc : td.constant key with
    | none => exact hs.nil
    | some c => exact hshow (hs.store hnew hold hc) hc

/-- The trigger object answers with a row. -/
theorem index_row {str : String} (w : Which) (hhidden : hidden str = false)
    (hkey : td.real_name str = w.key) (hs : Seeing td s v loc) :
    pllua_trigger_index td str s.obj s.st.heap =
      match s.obj.fields w.key with
      | some .no => (s.st.heap, s.obj, .nil)
      | some c => (s.st.heap, s.obj, .cell c)
      | none => pllua_trigger_getrow td w s.obj s.st.heap := by
  unfold pllua_trigger_index
  rw [hs.alive, hhidden, hkey]
  cases w <;> rfl

variable (pg) in
theorem Seeing.get (hs : Seeing td s v loc) (str : String) :
    Sees td (trigger_step pg td s (.get str)) (v.step pg td (.get str)) := by
  have hfalse : ¬ s.obj.td = false := by
    rw [hs.alive]
    nofun
  unfold trigger_step View.step View.get
  by_cases hhidden : hidden str = true
  · unfold pllua_trigger_index
    simp only [if_neg hfalse, if_pos hhidden]
    exact hs.nil
  · have hshown : hidden str = false := by simpa using hhidden
    simp only [if_neg hhidden]
    by_cases hnew : td.real_name str = "new"
    · simp only [hnew, if_true]
      rw [index_row .new hshown hnew hs]
      exact hs.row .new
    · by_cases hold : td.real_name str = "old"
      · simp only [hold, if_true]
        rw [index_row .old hshown hold hs]
        exact hs.row .old
      · unfold pllua_trigger_index
        simp only [if_neg hfalse, if_neg hhidden, if_neg hnew, if_neg hold]
        exact hs.constant hnew hold

/-! ## Assigning the row -/

/-- A row type makes a row or raises an error. -/
theorem value_cast_row {oid : Oid} {attrs : List Attribute} (ht : types.typeinfo oid = .row attrs)
    (n : Nat) (u : Held α) : value_cast types pg n oid u ≠ .ok none := by
  have hrow : ∀ cast args, row_cast types pg cast attrs args ≠ .ok none := by
    intro cast args
    unfold row_cast
    cases (row_call _ attrs args ()).2 with
    | error e => simp [Except.map]
    | ok cols => simp [Except.map]
  cases n with
  | zero => simp [value_cast]
  | succ n =>
    unfold value_cast
    split
    · simp only [ht]
      split
      · exact hrow _ _
      · simp
    · simp only [ht]
      cases types.typeinfo u.typeoid with
      | row src_attrs =>
        simp only
        split
        · split
          · simp
          · exact hrow _ _
        · simp
      | scalar | array | range => simp

theorem made_row {t : datums.Tree α} {arg : Given α types} (hne : arg ≠ .nil) :
    t.made pg td.tdtypeid arg ≠ .ok none := by
  cases arg with
  | nil => exact absurd rfl hne
  | bad => nofun
  | value v =>
    unfold Tree.made
    simp only
    split <;> nofun
  | ref r =>
    unfold Tree.made
    simp only
    split
    · nofun
    · unfold Tree.cast
      split
      · nofun
      · exact value_cast_row td.rowtype _ _

theorem View.entry_assigned (a : Option Ref) (t : datums.Tree α) (w : Which) :
    { v with tree := t, assigned := some a }.entry td w =
      if w = td.which then some a else v.entry td w := by
  unfold View.entry
  by_cases hw : w = td.which
  · simp only [if_pos hw]
  · simp only [if_neg hw]
    split <;> rfl

/-- Something stands in place of the row of the operation. -/
theorem Seeing.assign (hs : Seeing td s v loc) {st' : State α} {t' : datums.Tree α} {loc' : Places}
    {c : Cell} {a : Option Ref} (hf : Following types st' t' loc') (hg : Grows v.tree t')
    (hc : CellOk st' t' loc' td.tdtypeid (some c) (some a))
    (hcells : ∀ w : Which, CellOk st' t' loc' td.tdtypeid (s.obj.fields w.key) (v.entry td w)) :
    Seeing td ⟨st', { s.obj.store td.which.key (some c) with modified := true }⟩
      { v with tree := t', assigned := some a } loc' where
  following := hf
  alive := hs.alive
  modified := rfl
  cells := by
    intro w
    simp only [View.entry_assigned, pllua_trigger.store]
    by_cases hw : w = td.which
    · rw [if_pos hw, hw, Function.update_self]
      exact hc
    · rw [if_neg hw, Function.update_of_ne (Which.key_ne hw)]
      exact hcells w
  constants := by
    intro key c' hnew hold hc'
    simp only [pllua_trigger.store,
      Function.update_of_ne (key_ne_row hnew hold td.which)] at hc'
    exact hs.constants key c' hnew hold hc'
  genuine := hs.genuine.grows hg rfl

theorem arg_ne_nil {arg : Given α types} (h : arg ≠ .nil) (st : State α) :
    arg.arg types st ≠ .nil := by
  cases arg with
  | nil => exact absurd rfl h
  | value | bad => nofun
  | ref r =>
    unfold Given.arg
    simp only
    split
    · nofun
    · split <;> nofun

variable (pg td) in
/-- The type of the relation makes the row. -/
theorem newindex_made {arg : Arg α types} (hne : arg ≠ .nil) {obj : pllua_trigger}
    (halive : obj.td = true) (hrow : td.for_row = true) (h : Heap α) :
    pllua_trigger_newindex pg td "row" arg obj h =
      match pllua_typeinfo_call types pg td.tdtypeid arg h with
      | (h, .error .freed) => (h.crash, obj, .raised)
      | (h, .error .error) => (h, obj, .raised)
      | (h, .ok none) => (h, { obj.store td.which.key none with modified := true }, .done)
      | (h, .ok (some v)) =>
        (pllua_newdatum types td.tdtypeid v h,
          { obj.store td.which.key (some (.datum h.next)) with modified := true }, .done) := by
  unfold pllua_trigger_newindex
  rw [halive, hrow]
  cases arg with
  | nil => exact absurd rfl hne
  | value | datum | bad => rfl

theorem View.set_made {arg : Given α types} (hne : arg ≠ .nil) (hrow : td.for_row = true) :
    v.set pg td "row" arg =
      match v.tree.made pg td.tdtypeid arg with
      | .ok (some x) =>
        ({ v with
            tree := { (v.tree.plant td.tdtypeid x).1 with refs := v.tree.refs }
            assigned := some (some (v.row_ref td)) }, .datum .nothing)
      | _ => (v, .datum .error) := by
  unfold View.set
  rw [hrow]
  cases arg with
  | nil => exact absurd rfl hne
  | value | ref | bad => rfl

/-- Reading datums leaves what the view shows. -/
theorem Seeing.after (hs : Seeing td s v loc) {h' : Heap α} {loc' : Places}
    (ha : After types s.st.heap h' v.tree loc loc' id) :
    Seeing td ⟨{ s.st with heap := h' }, s.obj⟩ v loc' := by
  obtain ⟨hf, hk⟩ := hs.following.after ha (refs_moved _).symm
  exact ⟨hf, hs.alive, hs.modified,
    fun w => (hs.cells w).keeps hs.following (fun _ _ hx => hx) hk (.refl _), hs.constants,
    hs.genuine⟩

theorem Seeing.set (hs : Seeing td s v loc) {str : String} {arg : Given α types}
    (hc : s.Collectable (.set str arg)) :
    Sees td (trigger_step pg td s (.set str arg)) (v.step pg td (.set str arg)) := by
  have hfalse : ¬ s.obj.td = false := by
    rw [hs.alive]
    nofun
  unfold trigger_step View.step
  by_cases hstr : str = "row"
  · by_cases hrow : td.for_row = true
    · subst hstr
      by_cases hnil : arg = .nil
      · subst hnil
        unfold View.set pllua_trigger_newindex
        simp only [hs.alive, hrow, Given.arg, ne_eq, not_true, if_false, Bool.true_eq_false]
        exact ⟨⟨loc, hs.assign hs.following (.refl _) trivial hs.cells⟩, rfl⟩
      · simp only [newindex_made pg td (arg_ne_nil hnil s.st) hs.alive hrow,
          View.set_made hnil hrow]
        have hm := hs.following.means pg hc td.tdtypeid
        obtain ⟨loc', hr, hcall⟩ := typeinfo_call_spec hs.following.shows hm
        generalize pllua_typeinfo_call types pg td.tdtypeid (arg.arg types s.st) s.st.heap = out
          at hr hcall
        obtain ⟨h', r⟩ := out
        obtain rfl : r = v.tree.made pg td.tdtypeid arg := hcall
        have ha := hr.after hs.following.shows
        cases hmade : v.tree.made pg td.tdtypeid arg with
        | error e =>
          rw [hmade] at hm
          obtain rfl := hm.error
          exact ⟨⟨loc', hs.after ha⟩, rfl⟩
        | ok w =>
          cases w with
          | none => exact absurd hmade (made_row hnil)
          | some x =>
            rw [hmade] at hm
            obtain ⟨loc'', hf, hstands, hlive, hcells⟩ :=
              hs.kept ha (hm.wellformed hs.following.shows)
            have hg : Grows v.tree { (v.tree.plant td.tdtypeid x).1 with refs := v.tree.refs } :=
              (Grows.plant v.tree td.tdtypeid x).trans (.same rfl rfl)
            refine ⟨⟨loc'', hs.assign hf hg ⟨hlive, hstands, rfl, rfl, ?_⟩ hcells⟩, rfl⟩
            simp only [View.row_ref, Tree.plant, Function.update_self]
            nofun
    · unfold View.set pllua_trigger_newindex
      have hrow' : td.for_row = false := by simpa using hrow
      simp only [if_neg hfalse, hstr, ne_eq, not_true, if_false, if_pos hrow']
      exact ⟨⟨loc, hs⟩, rfl⟩
  · unfold View.set pllua_trigger_newindex
    simp only [if_neg hfalse, ne_eq, hstr, not_false_eq_true, if_true]
    exact ⟨⟨loc, hs⟩, rfl⟩

variable (pg) in
theorem Seeing.step (hs : Seeing td s v loc) {a : Step α types} (hc : s.Collectable a) :
    Sees td (trigger_step pg td s a) (v.step pg td a) := by
  cases a with
  | datum op => exact hs.datum pg hc
  | get str => exact hs.get pg str
  | set str arg => exact hs.set hc

variable (td) in
theorem Seeing.start : Seeing td .start .start (fun _ => none) where
  following := Following.start
  alive := rfl
  modified := rfl
  cells := fun _ => trivial
  constants := fun _ _ _ _ => nofun
  genuine := fun _ _ => nofun

/-! ## The result -/

/-- A row of the event is unchanged as long as its datum is not modified. -/
theorem Seeing.unchanged (hs : Seeing td s v loc) {x : Id} {ref : Ref}
    (hx : Stands s.st.heap loc x ref) (hpath : ref.place.path = [])
    (htype : ref.typeoid = td.tdtypeid) (hwhole : v.tree.origins ref.place.root ≠ .detached) :
    v.unchanged ref = !(s.st.heap.datum x).modified := by
  obtain ⟨⟨n, p⟩, hloc, rfl⟩ := hx
  obtain rfl : p = [] := hpath
  have hrow : (s.st.heap.type types x).is_row = true := by
    unfold Heap.type
    have htype' : (s.st.heap.datum x).typeinfo = td.tdtypeid := htype
    rw [htype', td.rowtype]
    rfl
  obtain ⟨hplanted, hwritten⟩ := hs.following.shows.tracked x n hloc hrow
  unfold View.unchanged
  cases horigin : v.tree.origins n with
  | planted => simp [ref_to, horigin, hplanted horigin]
  | written => simp [ref_to, horigin, hwritten horigin]
  | detached => exact absurd horigin hwhole

variable (pg) in
/-- The type of the relation makes the tuple. -/
theorem Seeing.constructed (hs : Seeing td s v loc) {arg : Arg α types}
    {r : Except Failure (Option (Value α))}
    (hm : Means pg s.st.heap v.tree loc td.tdtypeid arg r) :
    (constructed pg td arg s.st.heap).1.fault = false ∧
      (constructed pg td arg s.st.heap).2 = made_tuple r := by
  obtain ⟨loc', hr, hcall⟩ := typeinfo_call_spec hs.following.shows hm
  unfold triggers.constructed
  generalize pllua_typeinfo_call types pg td.tdtypeid arg s.st.heap = out at hr hcall
  obtain ⟨h', r'⟩ := out
  obtain rfl : r' = r := hcall
  have hcalm : h'.fault = false := hr.settled.inv.calm
  cases r' with
  | error e =>
    obtain rfl := hm.error
    exact ⟨hcalm, rfl⟩
  | ok w => cases w <;> exact ⟨hcalm, rfl⟩

variable (pg) in
/-- A row that is not modified is copied as it is, which is what its type makes of it. -/
theorem Seeing.copied (hs : Seeing td s v loc) {x : Id} {ref : Ref}
    (hx : Stands s.st.heap loc x ref) (htype : ref.typeoid = td.tdtypeid)
    (hmod : (s.st.heap.datum x).modified = false) :
    ∃ w, v.tree.forest.at ref.place = some w ∧ s.st.heap.content x = .ok w ∧
      v.tree.cast pg ref td.tdtypeid = .ok (some w) := by
  have hrow : (types.typeinfo ref.typeoid).is_row = true := by
    rw [htype, td.rowtype]
    rfl
  obtain ⟨P, hloc, rfl⟩ := hx
  have hsettled := hs.following.shows.settled
  obtain ⟨w, hw, hcontent⟩ := hsettled.inv.holds_value hloc
  refine ⟨w, hw, hcontent hmod, ?_⟩
  rw [← htype]
  unfold Tree.cast ref_to
  simp only [hw]
  exact value_cast_self _ hrow (hsettled.plain_below hloc hmod) (hsettled.inv.wellformed hloc hw)
    (Nat.le_refl _)

variable (td) in
theorem View.entry_which (v : View α) : v.entry td td.which =
    match v.assigned with
    | none => (v.rows td.which).map some
    | some a => some a := by
  unfold View.entry
  simp only [if_true]

variable (pg) in
/-- Nothing is returned. -/
theorem Seeing.result_row (hs : Seeing td s v loc) (hrow : td.for_row = true)
    (htime : td.timing ≠ .after) :
    (trigger_result pg td s []).1.fault = false ∧
      (trigger_result pg td s []).2 = v.result pg td [] := by
  have hcalm := hs.following.shows.settled.inv.calm
  have hentry := v.entry_which td
  unfold trigger_result pllua_return_trigger_result View.result
  simp only [hs.alive, hrow, htime, Bool.true_eq_false, if_false, decide_false, Bool.or_self,
    List.map_nil, Bool.false_eq_true]
  obtain ⟨hfield, hnone⟩ | ⟨hfield, hno⟩ | ⟨x, ref, hfield, hsome, -, hx, hpath, htype, hwhole⟩ :=
    (hs.cells td.which).cases
  · simp only [hfield]
    rw [hnone] at hentry
    cases ha : v.assigned with
    | some a => simp [ha] at hentry
    | none =>
      simp only [ha] at hentry
      rw [Option.map_eq_none_iff.mp hentry.symm]
      exact ⟨hcalm, rfl⟩
  · simp only [hfield]
    rw [hno] at hentry
    cases ha : v.assigned with
    | none =>
      simp only [ha] at hentry
      obtain ⟨_, -, hread⟩ := Option.map_eq_some_iff.mp hentry.symm
      cases hread
    | some a =>
      simp only [ha, Option.some.injEq] at hentry
      rw [← hentry]
      exact ⟨hcalm, rfl⟩
  · have hunchanged := hs.unchanged hx hpath htype hwhole
    have hmeta : (s.st.heap.datum x).metatable = true := by
      obtain ⟨P, hloc, -⟩ := hx
      exact (hs.following.shows.settled.inv.alive x P hloc).2.2
    have hmeans : Means pg s.st.heap v.tree loc td.tdtypeid (.datum x)
        (v.tree.cast pg ref td.tdtypeid) := by
      obtain ⟨P, hloc, rfl⟩ := hx
      exact cast_means pg hs.following.shows hloc td.tdtypeid
    rw [hsome] at hentry
    simp only [hfield, hmeta, hs.modified, Bool.true_eq_false, if_false]
    cases ha : v.assigned with
    | none =>
      simp only [ha] at hentry
      obtain ⟨_, hread, hsame⟩ := Option.map_eq_some_iff.mp hentry.symm
      cases hsame
      simp only [hread, hunchanged, Option.isSome_none, Bool.false_eq_true, if_false]
      cases hmod : (s.st.heap.datum x).modified with
      | false => exact ⟨hcalm, rfl⟩
      | true => exact hs.constructed pg hmeans
    | some a =>
      simp only [ha, Option.some.injEq] at hentry
      subst hentry
      simp only [Option.isSome_some, if_true]
      cases hmod : (s.st.heap.datum x).modified with
      | false =>
        obtain ⟨w, -, hcontent, hcast⟩ := hs.copied pg hx htype hmod
        rw [hcast]
        simp only [pllua_trigger_copytuple, hcontent, Bool.false_eq_true, if_false]
        exact ⟨hcalm, rfl⟩
      | true => exact hs.constructed pg hmeans

/-- Two references to one place are references to one datum. -/
theorem Stands.same (hi : Inv types s.st.heap v.tree.forest loc) {x y : Id} {ref ref' : Ref}
    (hx : Stands s.st.heap loc x ref) (hy : Stands s.st.heap loc y ref') :
    x = y ↔ ref.place = ref'.place := by
  obtain ⟨P, hlocx, rfl⟩ := hx
  obtain ⟨Q, hlocy, rfl⟩ := hy
  constructor
  · rintro rfl
    rw [hlocx] at hlocy
    exact Option.some.inj hlocy
  · intro hPQ
    have hPQ' : P = Q := hPQ
    subst hPQ'
    exact hi.inj x y P hlocx hlocy

/-- Both sides know the row of the event when it is returned. -/
theorem Seeing.returned (hs : Seeing td s v loc) {arg : Given α types}
    (hc : ∀ r ∈ arg.refs, ∀ x ∈ s.st.dead, s.st.refs[r]? ≠ some x) :
    (s.obj.modified = false && returned_unchanged td s.obj (arg.arg types s.st) s.st.heap) =
      v.returned_unchanged td arg := by
  have hentry := v.entry_which td
  unfold returned_unchanged View.returned_unchanged
  rw [hs.modified]
  cases ha : v.assigned with
  | some a => simp
  | none =>
    simp only [ha] at hentry
    simp only [Option.isSome_none, decide_true, Bool.true_and]
    obtain ⟨hfield, hnone⟩ | ⟨-, hno⟩ | ⟨y, ref, hfield, hsome, -, hy, hpath, htype, hwhole⟩ :=
      (hs.cells td.which).cases
    · rw [hnone] at hentry
      rw [hfield, Option.map_eq_none_iff.mp hentry.symm]
    · rw [hno] at hentry
      obtain ⟨_, -, hread⟩ := Option.map_eq_some_iff.mp hentry.symm
      cases hread
    · rw [hsome] at hentry
      obtain ⟨_, hread, hsame⟩ := Option.map_eq_some_iff.mp hentry.symm
      cases hsame
      rw [hfield, hread]
      cases arg with
      | value | nil | bad => rfl
      | ref r =>
        unfold Given.arg
        rcases refs_rel hs.following.refs r with ⟨hx, hnone⟩ | ⟨x, ref', hx, hx', hstands⟩
        · simp only [hx, hnone]
          rfl
        · have hstands' := hstands fun hdead => hc r List.mem_cons_self x hdead hx
          have hi := hs.following.shows.settled.inv
          have hmeta : (s.st.heap.datum x).metatable = true := by
            obtain ⟨P, hloc, -⟩ := hstands'
            exact (hi.alive x P hloc).2.2
          simp only [hx, hx', hmeta, if_true, Option.any_some, Stands.same hi hstands' hy,
            hs.unchanged hy hpath htype hwhole]

variable (pg td) in
/-- A value that is returned goes through the type, unless it is the row of the event. -/
theorem return_made {arg : Arg α types} (hne : arg ≠ .nil) {obj : pllua_trigger}
    (halive : obj.td = true) (hrow : td.for_row = true) (htime : td.timing ≠ .after) (h : Heap α) :
    pllua_return_trigger_result pg td [arg] obj h =
      if obj.modified = false && returned_unchanged td obj arg h then (h, .original)
      else triggers.constructed pg td arg h := by
  unfold pllua_return_trigger_result
  simp only [halive, hrow, htime, Bool.true_eq_false, if_false, decide_false, Bool.or_self,
    Bool.false_eq_true]

theorem View.result_made {arg : Given α types} (hne : arg ≠ .nil) (hrow : td.for_row = true)
    (htime : td.timing ≠ .after) : v.result pg td [arg] =
      if v.returned_unchanged td arg then .original
      else made_tuple (v.tree.made pg td.tdtypeid arg) := by
  unfold View.result
  simp only [hrow, htime, Bool.true_eq_false, if_false, decide_false, Bool.or_self,
    Bool.false_eq_true]

variable (pg) in
/-- A value is returned. -/
theorem Seeing.result_value (hs : Seeing td s v loc) (hrow : td.for_row = true)
    (htime : td.timing ≠ .after) {arg : Given α types}
    (hc : ∀ r ∈ arg.refs, ∀ x ∈ s.st.dead, s.st.refs[r]? ≠ some x) :
    (trigger_result pg td s [arg]).1.fault = false ∧
      (trigger_result pg td s [arg]).2 = v.result pg td [arg] := by
  have hcalm := hs.following.shows.settled.inv.calm
  by_cases hnil : arg = .nil
  · subst hnil
    unfold trigger_result pllua_return_trigger_result View.result
    simp only [hs.alive, hrow, htime, Bool.true_eq_false, if_false, decide_false, Bool.or_self,
      List.map_cons, List.map_nil, Given.arg, Bool.false_eq_true]
    exact ⟨hcalm, trivial⟩
  · have hret := hs.returned hc
    have hmade := hs.constructed pg (hs.following.means pg hc td.tdtypeid)
    have hout : trigger_result pg td s [arg] =
        if s.obj.modified = false && returned_unchanged td s.obj (arg.arg types s.st) s.st.heap
        then (s.st.heap, .original)
        else triggers.constructed pg td (arg.arg types s.st) s.st.heap :=
      return_made pg td (arg_ne_nil hnil s.st) hs.alive hrow htime s.st.heap
    rw [hout, hret, View.result_made hnil hrow htime]
    cases v.returned_unchanged td arg with
    | true => exact ⟨hcalm, rfl⟩
    | false => exact hmade

/-- A trigger for statements, or after the event, gives no tuple. -/
theorem result_plain {s : TriggerState α} (halive : s.obj.td = true)
    (hplain : td.for_row = false ∨ td.timing = .after) (rets : List (Given α types)) :
    trigger_result pg td s rets = (s.st.heap, .suppressed) := by
  unfold trigger_result pllua_return_trigger_result
  simp only [halive, Bool.true_eq_false, if_false, Bool.or_eq_true, decide_eq_true_eq, hplain,
    if_true]

variable (pg) in
theorem Seeing.result (hs : Seeing td s v loc) {rets : List (Given α types)}
    (hc : ∀ arg ∈ rets, ∀ r ∈ arg.refs, ∀ x ∈ s.st.dead, s.st.refs[r]? ≠ some x) :
    (trigger_result pg td s rets).1.fault = false ∧
      (trigger_result pg td s rets).2 = v.result pg td rets := by
  have hcalm := hs.following.shows.settled.inv.calm
  by_cases hplain : td.for_row = false ∨ td.timing = .after
  · rw [result_plain hs.alive hplain]
    unfold View.result
    simp only [Bool.or_eq_true, decide_eq_true_eq, hplain, if_true]
    exact ⟨hcalm, trivial⟩
  · obtain ⟨hrow, htime⟩ := not_or.mp hplain
    match rets with
    | [] => exact hs.result_row pg (by simpa using hrow) htime
    | [arg] => exact hs.result_value pg (by simpa using hrow) htime (hc arg List.mem_cons_self)
    | _ :: _ :: _ =>
      unfold trigger_result pllua_return_trigger_result View.result
      simp only [hs.alive, Bool.true_eq_false, if_false, Bool.or_eq_true, decide_eq_true_eq,
        hplain, List.map_cons]
      exact ⟨hcalm, trivial⟩

/-! ## Runs -/

/-- What the view is after a run of a trigger function. -/
theorem Seeing.of_run {steps : List (Step α types)}
    (h : Each (states (trigger_step pg td)) TriggerState.Collectable .start steps) :
    (∃ loc, Seeing td (run (states (trigger_step pg td)) .start steps)
        (run (states (View.step pg td)) .start steps) loc) ∧
      answers (trigger_step pg td) .start steps = answers (View.step pg td) .start steps := by
  refine run_simulates (R := fun s v => ∃ loc, Seeing td s v loc) ?_ ⟨_, Seeing.start td⟩ h
  rintro s v a ⟨loc, hs⟩ hc
  exact hs.step pg hc

/-! ## The row of the operation -/

theorem tuple_which (hrow : td.for_row = true) : ∃ x, td.tuple td.which = some x := by
  have htruncate := td.truncate_level
  unfold TriggerData.which TriggerData.tuple
  cases hop : td.operation with
  | truncate =>
    rw [htruncate hop] at hrow
    cases hrow
  | insert | update | delete =>
    simp only [hrow, reduceCtorEq, if_true, if_false, decide_true, ne_eq, not_false_eq_true,
      Bool.and_self]
    exact ⟨_, rfl⟩

variable (pg) in
/-- To read the row of the operation changes nothing about the result. -/
theorem View.read_row (hrow : td.for_row = true) (v : View α) :
    (v.entry td td.which = some none ∧ v.row td td.which = (v, .datum .nil)) ∨
      ∃ v' ref, v.row td td.which = (v', .datum .ref) ∧ v'.tree.refs = v.tree.refs ++ [ref] ∧
        v'.entry td td.which = some (some ref) ∧
        (td.timing ≠ .after → v'.result pg td [] = v.result pg td []) := by
  rw [View.row_eq]
  cases hentry : v.entry td td.which with
  | some a =>
    cases a with
    | none => exact .inl ⟨rfl, rfl⟩
    | some ref => exact .inr ⟨_, ref, rfl, rfl, hentry, fun _ => rfl⟩
  | none =>
    have hrows := View.rows_of_entry hentry
    obtain ⟨x, htuple⟩ := tuple_which hrow
    have hassigned : v.assigned = none := by
      rw [View.entry_which] at hentry
      cases ha : v.assigned with
      | none => rfl
      | some a => simp [ha] at hentry
    refine .inr ⟨{ v with
      tree := (v.tree.plant td.tdtypeid x).1
      rows := Function.update v.rows td.which (some (v.row_ref td)) }, v.row_ref td, ?_, rfl, ?_, ?_⟩
    · simp only
      unfold View.fetch
      rw [hrows, htuple]
    · rw [View.entry_read hentry, if_pos rfl]
    · intro htime
      unfold View.result View.unchanged
      simp only [hassigned, hrows, hrow, htime, Function.update_self, Tree.plant, View.row_ref,
        decide_true, decide_false, if_true]

/-- With no row there is no operation. -/
theorem View.result_suppressed (hrow : td.for_row = true) (htime : td.timing ≠ .after)
    (hentry : v.entry td td.which = some none) : v.result pg td [] = .suppressed := by
  rw [View.entry_which] at hentry
  unfold View.result
  simp only [hrow, htime, Bool.true_eq_false, if_false, decide_false, Bool.or_self,
    Bool.false_eq_true]
  cases ha : v.assigned with
  | none =>
    simp only [ha] at hentry
    obtain ⟨_, -, hread⟩ := Option.map_eq_some_iff.mp hentry
    cases hread
  | some a =>
    simp only [ha, Option.some.injEq] at hentry
    rw [hentry]

theorem View.result_nil (v : View α) : v.result pg td [.nil] = .suppressed := by
  unfold View.result
  split <;> rfl

/-- To return the row of the operation is to return nothing. -/
theorem View.result_returned (hrow : td.for_row = true) (htime : td.timing ≠ .after) {n : Nat}
    {ref : Ref} (hentry : v.entry td td.which = some (some ref))
    (hn : v.tree.refs[n]? = some ref) :
    v.result pg td [.ref n] = v.result pg td [] := by
  rw [View.entry_which] at hentry
  rw [View.result_made (by nofun) hrow htime]
  have hmade : v.tree.made pg td.tdtypeid (.ref n) = v.tree.cast pg ref td.tdtypeid := by
    unfold Tree.made
    simp only [hn]
  unfold View.result View.returned_unchanged
  simp only [hrow, htime, Bool.true_eq_false, if_false, decide_false, Bool.or_self,
    Bool.false_eq_true]
  cases ha : v.assigned with
  | some a =>
    simp only [ha, Option.some.injEq] at hentry
    subst hentry
    simp only [Bool.false_eq_true, if_false, hmade]
  | none =>
    simp only [ha] at hentry
    obtain ⟨_, hread, hsame⟩ := Option.map_eq_some_iff.mp hentry
    cases hsame
    simp only [hread, hn, Option.any_some, decide_true, Bool.true_and, hmade]

theorem View.get_row (v : View α) : v.get td "row" = v.row td td.which := by
  have hname : td.real_name "row" = td.which.key := rfl
  unfold View.get
  rw [hname]
  cases td.which <;> rfl

variable (pg) in
/-- A row that is read is none that the collector has taken. -/
theorem Seeing.row_live (hs : Seeing td s v loc) :
    (trigger_step pg td s (.get "row")).1.Returnable
      [(.ref s.st.refs.length : Given α types)] := by
  have hindex : pllua_trigger_index td "row" s.obj s.st.heap = _ :=
    index_row td.which rfl rfl hs
  intro arg harg r hr x hdead hx
  rw [List.mem_singleton] at harg
  subst harg
  obtain rfl := List.mem_singleton.mp hr
  unfold trigger_step TriggerState.got at hx
  simp only [hindex] at hx
  rw [List.getElem?_append_right (Nat.le_refl _), Nat.sub_self] at hx
  obtain ⟨hfield, -⟩ | ⟨hfield, -⟩ | ⟨y, ref, hfield, -, hy, -⟩ := (hs.cells td.which).cases
  · simp only [hfield] at hx
    unfold pllua_trigger_getrow at hx
    split at hx
    · cases hx
    · cases hx
      exact absurd (hs.following.dead _ hdead).1 (Nat.lt_irrefl _)
  · simp only [hfield] at hx
    cases hx
  · simp only [hfield] at hx
    cases hx
    exact hy hdead

/-- What the program sees of a value that a type made. -/
def made_answer : Except Failure (Option (Value α)) → Answer α
  | .error _ => .datum .error
  | .ok none => .datum .nil
  | .ok (some w) => .datum (.value w)

/-- What its type makes of the row of the operation is what the operation gets. -/
theorem Seeing.made (hs : Seeing td s v loc) (hrow : td.for_row = true)
    (htime : td.timing ≠ .after) {ref : Ref} (hentry : v.entry td td.which = some (some ref)) :
    (v.result pg td []).answer td = made_answer (v.tree.cast pg ref td.tdtypeid) := by
  obtain ⟨-, hnone⟩ | ⟨-, hnone⟩ | ⟨x, ref', -, hsome, -, hx, hpath, htype, hwhole⟩ :=
    (hs.cells td.which).cases
  · rw [hnone] at hentry
    cases hentry
  · rw [hnone] at hentry
    cases hentry
  · rw [hsome] at hentry
    cases hentry
    rw [View.entry_which] at hsome
    have hmade : (made_tuple (v.tree.cast pg ref td.tdtypeid)).answer td =
        made_answer (v.tree.cast pg ref td.tdtypeid) := by
      have hne : v.tree.cast pg ref td.tdtypeid ≠ .ok none := by
        unfold Tree.cast
        split
        · nofun
        · exact value_cast_row td.rowtype _ _
      cases hcast : v.tree.cast pg ref td.tdtypeid with
      | error e => rfl
      | ok w =>
        cases w with
        | none => exact absurd hcast hne
        | some w => rfl
    unfold View.result
    simp only [hrow, htime, Bool.true_eq_false, if_false, decide_false, Bool.or_self,
      Bool.false_eq_true]
    cases ha : v.assigned with
    | some a =>
      simp only [ha, Option.some.injEq] at hsome
      subst hsome
      exact hmade
    | none =>
      simp only [ha] at hsome
      obtain ⟨_, hread, hsame⟩ := Option.map_eq_some_iff.mp hsome
      cases hsame
      simp only [hread]
      by_cases hun : v.unchanged ref = true
      · -- nobody wrote to the row of the event
        have hmod : (s.st.heap.datum x).modified = false := by
          simpa [hs.unchanged hx hpath htype hwhole] using hun
        obtain ⟨w, hw, -, hcast⟩ := hs.copied pg hx htype hmod
        have htuple := (hs.genuine _ _ hread).2 (by simpa [View.unchanged] using hun)
        rw [if_pos hun, hcast]
        unfold TriggerResult.answer
        rw [← htuple, hw]
        rfl
      · rw [if_neg hun]
        exact hmade

/-- The text of a copy shows what the type made. -/
theorem Seeing.copy_shown (hs : Seeing td s v loc) {n : Nat} {ref : Ref}
    (hn : v.tree.refs[n]? = some ref) (hret : s.Returnable [(.ref n : Given α types)]) (oid : Oid) :
    (match trigger_step pg td s (.datum (.construct oid n)) with
      | (s', .datum .ref) => (trigger_step pg td s' (.datum (.tostring s.st.refs.length))).2
      | (_, answer) => answer) = made_answer (v.tree.cast pg ref oid) := by
  have hlive : ∀ r ∈ (Op.construct oid n : Op α types).refs, ∀ x ∈ s.st.dead,
      s.st.refs[r]? ≠ some x := fun r hr => hret _ List.mem_cons_self r hr
  have hcollect : s.Collectable (.datum (.construct oid n) : Step α types) :=
    ⟨⟨hlive, trivial⟩, trivial⟩
  obtain ⟨⟨loc', hs'⟩, hsame⟩ := hs.datum pg hcollect
  obtain ⟨hnew, hmade⟩ := hs.following.construct pg oid (hlive n List.mem_cons_self) hn
  generalize hout : trigger_step pg td s (.datum (.construct oid n)) = out at hs' hsame
  obtain ⟨s', answer⟩ := out
  have hst : s'.st = (datums.step types pg s.st (.construct oid n)).1 :=
    congrArg (fun out => out.1.st) hout.symm
  unfold View.step Tree.step Tree.through at hs' hsame
  simp only [hn] at hs' hsame
  unfold Tree.construct at hs' hsame
  cases hcast : v.tree.cast pg ref oid with
  | error e =>
    rw [hcast] at hsame
    obtain rfl : answer = _ := hsame
    rfl
  | ok w =>
    cases w with
    | none =>
      rw [hcast] at hsame
      obtain rfl : answer = _ := hsame
      rfl
    | some w =>
      rw [hcast] at hs' hsame
      obtain rfl : answer = _ := hsame
      have hlength := hs.following.refs.length_eq
      have hlive' : s'.Collectable (.datum (.tostring s.st.refs.length) : Step α types) := by
        refine ⟨⟨?_, trivial⟩, trivial⟩
        intro r hr x hdead
        obtain rfl := List.mem_singleton.mp hr
        rw [hst] at hdead ⊢
        exact hnew x hdead
      obtain ⟨-, hshown⟩ := hs'.datum pg hlive'
      refine hshown.trans ?_
      -- the copy is a value of its own, which nobody wrote to
      have hplain : ∀ Q, v.tree.forest.next ≤ Q.root → v.tree.marks Q = .plain :=
        hs.following.shows.settled.marked.unused
      have hat : (v.tree.forest.plant w).at ⟨v.tree.forest.next, []⟩ = some w := at_plant w
      have hself : value_shown types (types.nesting oid + 1)
          ⟨oid, -1, v.tree.marks.below ⟨v.tree.forest.next, []⟩, w⟩ = .ok w :=
        value_shown_self _ (fun i p => hplain _ (Nat.le_refl _)) (hmade w hcast) (Nat.le_refl _)
      unfold View.step Tree.step Tree.through Tree.plant
      simp only [hlength, List.getElem?_append_right (Nat.le_refl _), Nat.sub_self,
        List.getElem?_cons_zero]
      unfold Tree.tostring
      simp only [hat, hself]
      rfl

variable (pg) in
/-- Both sides read the row of the operation. -/
theorem Seeing.row_read (hs : Seeing td s v loc) (hrow : td.for_row = true) :
    (∃ s' loc', trigger_step pg td s (.get "row") = (s', .datum .nil) ∧ Seeing td s' v loc' ∧
      v.entry td td.which = some none) ∨
      ∃ s' v' loc' ref, trigger_step pg td s (.get "row") = (s', .datum .ref) ∧
        Seeing td s' v' loc' ∧ v'.entry td td.which = some (some ref) ∧
        v'.tree.refs[s.st.refs.length]? = some ref ∧
        s'.Returnable [(.ref s.st.refs.length : Given α types)] ∧
        (td.timing ≠ .after → v'.result pg td [] = v.result pg td []) := by
  have hlive := hs.row_live pg
  have hlength := hs.following.refs.length_eq
  obtain ⟨⟨loc', hs'⟩, hsame⟩ := hs.get pg "row"
  generalize hout : trigger_step pg td s (.get "row") = out at hs' hsame hlive
  obtain ⟨s', answer⟩ := out
  have hview : v.step pg td (.get "row") = v.row td td.which := v.get_row
  rw [hview] at hs' hsame
  obtain ⟨hentry, hread⟩ | ⟨v', ref, hread, hrefs, hentry, hresult⟩ := v.read_row pg hrow
  · rw [hread] at hs' hsame
    exact .inl ⟨s', loc', congrArg _ hsame, hs', hentry⟩
  · rw [hread] at hs' hsame
    refine .inr ⟨s', v', loc', ref, congrArg _ hsame, hs', hentry, ?_, hlive, hresult⟩
    rw [hrefs, hlength, List.getElem?_append_right (Nat.le_refl _), Nat.sub_self]
    rfl

variable (pg td) in
/-- In every run, to return nothing is to return the row of the operation. -/
theorem row_returned_result (steps : List (Step α types))
    (h : Each (states (trigger_step pg td)) TriggerState.Collectable .start steps) :
    let s := run (states (trigger_step pg td)) .start steps
    (row_returned pg td s).2 = (trigger_result pg td s []).2 := by
  obtain ⟨⟨loc, hs⟩, -⟩ := Seeing.of_run h
  generalize run (states (trigger_step pg td)) .start steps = s at hs
  generalize run (states (View.step pg td)) .start steps = v at hs
  simp only
  by_cases hplain : td.for_row = false ∨ td.timing = .after
  · obtain ⟨⟨loc', hs'⟩, -⟩ := hs.get pg "row"
    unfold row_returned
    simp only [result_plain hs'.alive hplain, result_plain hs.alive hplain]
  · obtain ⟨hrow', htime⟩ := not_or.mp hplain
    have hrow : td.for_row = true := by simpa using hrow'
    have hresult := (hs.result_row pg hrow htime).2
    unfold row_returned
    obtain ⟨s', loc', hread, hs', hentry⟩ | ⟨s', v', loc', ref, hread, hs', hentry, hn, hret, hsame⟩ :=
      hs.row_read pg hrow
    · have hnone : ∀ r ∈ (.nil : Given α types).refs, ∀ x ∈ s'.st.dead,
          s'.st.refs[r]? ≠ some x := nofun
      have hnil := (hs'.result_value pg hrow htime hnone).2
      rw [hread, hresult, View.result_suppressed hrow htime hentry]
      exact hnil.trans (View.result_nil v)
    · have hvalue := (hs'.result pg hret).2
      rw [hread, hresult, ← hsame htime, ← View.result_returned hrow htime hentry hn]
      exact hvalue

variable (pg td) in
/-- In every run of a trigger function that returns nothing, the operation gets the row that a copy
of `trigger.row` shows in the end. -/
theorem row_shown_result (hrow : td.for_row = true) (htime : td.timing ≠ .after)
    (steps : List (Step α types))
    (h : Each (states (trigger_step pg td)) TriggerState.Collectable .start steps) :
    let s := run (states (trigger_step pg td)) .start steps
    (trigger_result pg td s []).2.answer td = row_shown pg td s := by
  obtain ⟨⟨loc, hs⟩, -⟩ := Seeing.of_run h
  generalize run (states (trigger_step pg td)) .start steps = s at hs
  generalize run (states (View.step pg td)) .start steps = v at hs
  simp only
  have hresult := (hs.result_row pg hrow htime).2
  unfold row_shown
  obtain ⟨s', loc', hread, hs', hentry⟩ | ⟨s', v', loc', ref, hread, hs', hentry, hn, hret, hsame⟩ :=
    hs.row_read pg hrow
  · rw [hresult, hread, View.result_suppressed hrow htime hentry]
    rfl
  · rw [hresult, hread, ← hsame htime, hs'.made hrow htime hentry]
    exact (hs'.copy_shown hn hret td.tdtypeid).symm

end

/-- An update of a row with a row and an array in it. -/
def nested_update : TriggerData (List Int) nested_types where
  operation := .update
  timing := .before
  for_row := true
  tgname := "nested_tg"
  tg_relation := ⟨some "public", "nested", 16384⟩
  tdtypeid := 1
  attrs := [⟨"inner", 2, -1, false⟩, ⟨"numbers", 4, -1, false⟩]
  rowtype := rfl
  tg_trigtuple := (nested_outer 1 [10, 20]).value
  tg_newtuple := (nested_outer 2 [30]).value
  trigtuple_wellformed := (nested_outer 1 [10, 20]).wellformed
  newtuple_wellformed := (nested_outer 2 [30]).wellformed
  truncate_level := nofun

/-- The row is replaced by the old one, a part of which is written to then; the new row, which the
function still has, stays as it was. -/
def nested_steps : List (Step (List Int) nested_types) :=
  [.get "new", .get "old", .set "row" (.ref 1), .get "row", .datum (.index 2 0),
    .datum (.newindex 3 0 (.value (nested_scalar 7))), .datum (.tostring 0), .get "op",
    .set "name" .nil]

theorem nested_row_returned_result :
    (row_returned list_backend nested_update
        (run (states (trigger_step list_backend nested_update)) .start nested_steps)).2 =
      (trigger_result list_backend nested_update
        (run (states (trigger_step list_backend nested_update)) .start nested_steps) []).2 :=
  row_returned_result list_backend nested_update nested_steps (by decide +kernel)

theorem nested_row_shown_result :
    (trigger_result list_backend nested_update
        (run (states (trigger_step list_backend nested_update)) .start nested_steps) []).2.answer
      nested_update =
    row_shown list_backend nested_update
      (run (states (trigger_step list_backend nested_update)) .start nested_steps) :=
  row_shown_result list_backend nested_update rfl nofun nested_steps (by decide +kernel)

end pllua.triggers
