-- Datums inside one another, as a program sees them through its references: what it reads and
-- writes goes as on trees of values, where a reference is a place in one of the trees.
import Pllua.DatumTrees

open pllua.catalog pllua.records pllua.runs

namespace pllua.datums

section
variable {α : Type} {types : Types} {pg : Backend α types}

theorem column_eq_some {oid : Oid} {i : Nat} {att : Attribute}
    (h : types.column oid i = some att) :
    ∃ attrs, types.typeinfo oid = .row attrs ∧ attrs[i]? = some att ∧ att.attisdropped = false := by
  unfold Types.column at h
  split at h
  · rename_i attrs ht
    obtain ⟨hatt, hlive⟩ := Option.filter_eq_some_iff.mp h
    exact ⟨attrs, ht, hatt, by simpa using hlive⟩
  · cases h

/-! ## What an operation leaves of the datums -/

section
variable {h h' h'' : Heap α} {t t' t'' : Tree α} {loc loc' loc'' : Places} {x : Id} {P : Place}

/-- A row that was made as a value of its own is modified exactly if it was written to. -/
def Tracked (types : Types) (h : Heap α) (t : Tree α) (loc : Places) : Prop :=
  ∀ y n, loc y = some ⟨n, []⟩ → (h.type types y).is_row = true →
    (t.origins n = .planted → (h.datum y).modified = false) ∧
      (t.origins n = .written → (h.datum y).modified = true)

/-- The heap shows the tree. -/
structure Shows (types : Types) (h : Heap α) (t : Tree α) (loc : Places) : Prop where
  settled : Settled types h t.forest loc t.marks
  tracked : Tracked types h t loc

/-- The datums that the program has are where they were, or where `f` moves them. -/
structure After (types : Types) (h h' : Heap α) (t' : Tree α) (loc loc' : Places)
    (f : Place → Place) : Prop where
  shows : Shows types h' t' loc'
  moved : ∀ y Q, loc y = some Q → loc' y = some (f Q)
  typed : ∀ y Q, loc y = some Q → (h'.datum y).typed = (h.datum y).typed
  next : h.next ≤ h'.next
  lost : ∀ y, y < h.next → loc y = none → loc' y = none
  rooted : ∀ Q, Q.path = [] → f Q = Q

theorem After.refl (hs : Shows types h t loc) : After types h h t loc loc id :=
  ⟨hs, fun _ _ hy => hy, fun _ _ _ => rfl, Nat.le_refl _, fun _ _ hy => hy, fun _ _ => rfl⟩

theorem After.type {f : Place → Place} (ha : After types h h' t' loc loc' f) {y : Id}
    {Q : Place} (hy : loc y = some Q) : (h'.datum y).typeinfo = (h.datum y).typeinfo :=
  typeinfo_of_typed (ha.typed y Q hy)

theorem After.trans {f g : Place → Place} (ha : After types h h' t' loc loc' f)
    (ha' : After types h' h'' t'' loc' loc'' g) : After types h h'' t'' loc loc'' (g ∘ f) where
  shows := ha'.shows
  moved := fun y Q hy => ha'.moved y _ (ha.moved y Q hy)
  typed := fun y Q hy => (ha'.typed y _ (ha.moved y Q hy)).trans (ha.typed y Q hy)
  next := Nat.le_trans ha.next ha'.next
  lost := fun y hlt hy => ha'.lost y (Nat.lt_of_lt_of_le hlt ha.next) (ha.lost y hlt hy)
  rooted := by
    intro Q hQ
    rw [Function.comp_apply, ha.rooted Q hQ]
    exact ha'.rooted Q hQ

theorem Reading.after (hr : Reading types h h' t.forest loc loc' t.marks)
    (hs : Shows types h t loc) : After types h h' t loc loc' id where
  shows := by
    refine ⟨hr.settled, ?_⟩
    intro y n hy hrow
    rcases hr.fresh y _ hy with hold | ⟨-, hpath⟩
    · obtain ⟨_, hkeep, -⟩ := hr.kept y _ hold
      rw [hr.type hold] at hrow
      rw [hkeep]
      exact hs.tracked y n hold hrow
    · exact absurd rfl hpath
  moved := hr.grown
  typed := by
    intro y Q hy
    obtain ⟨_, hkeep, -⟩ := hr.kept y Q hy
    rw [hkeep]
    rfl
  next := hr.numbered.next
  lost := fun y hlt hy => (hr.numbered.old y hlt).trans hy
  rooted := fun _ _ => rfl

@[simp] theorem touch_forest (n : Nat) : (t.touch n).forest = t.forest := by
  unfold Tree.touch
  split <;> rfl

@[simp] theorem touch_marks (n : Nat) : (t.touch n).marks = t.marks := by
  unfold Tree.touch
  split <;> rfl

@[simp] theorem touch_refs (n : Nat) : (t.touch n).refs = t.refs := by
  unfold Tree.touch
  split <;> rfl

theorem touch_ne {n m : Nat} (hne : m ≠ n) : (t.touch n).origins m = t.origins m := by
  unfold Tree.touch
  split
  · exact Function.update_of_ne hne _ _
  · rfl

theorem touch_not_planted (n : Nat) : (t.touch n).origins n ≠ .planted := by
  unfold Tree.touch
  split
  · simp only [Function.update_self]
    nofun
  · assumption

/-- A row that is explodes with what is around it, which is a write to the tree. -/
theorem Opened.after (ho : Opened types h h' t.forest loc loc' P) (hs : Shows types h t loc) :
    After types h h' (t.touch P.root) loc loc' id where
  shows := by
    refine ⟨?_, ?_⟩
    · rw [touch_forest, touch_marks]
      exact ⟨ho.inv, ho.rest, ho.marked _ hs.settled.marked⟩
    · intro y n hy hrow
      by_cases hroot : n = P.root
      · subst hroot
        exact ⟨fun hplanted => absurd hplanted (touch_not_planted _),
          fun _ => ho.opened y _ hy ⟨rfl, List.nil_prefix⟩⟩
      · obtain ⟨hold, hsame⟩ := ho.inside y _ hy hroot
        unfold Heap.type at hrow
        rw [hsame] at hrow ⊢
        rw [touch_ne hroot]
        exact hs.tracked y n hold hrow
  moved := ho.grown
  typed := ho.typed
  next := ho.numbered.next
  lost := fun y hlt hy => (ho.numbered.old y hlt).trans hy
  rooted := fun _ _ => rfl

theorem Shows.newdatum (hs : Shows types h t loc) {oid : Oid} {v : Value α}
    (hw : Wellformed types oid v) :
    After types h (pllua_newdatum types oid v h) (t.plant oid v).1 loc
      (Function.update loc h.next (some ⟨t.forest.next, []⟩)) id := by
  have hi := hs.settled.inv
  have hnew : ((pllua_newdatum types oid v h).datum h.next) = fresh_datum types h oid v := rfl
  refine ⟨⟨⟨hi.newdatum hw, ?_, hs.settled.marked.newdatum hi oid v⟩, ?_⟩, ?_, ?_, Nat.le_succ _,
    ?_, fun _ _ => rfl⟩
  · intro y Q hy hm i c hc
    have hne : y ≠ h.next := by
      rintro rfl
      unfold Heap.slot at hc
      rw [hnew, fresh_datum_eq] at hc
      cases hc
    rw [Function.update_of_ne hne] at hy
    have hold : (pllua_newdatum types oid v h).datum y = h.datum y := newdatum_ne hne
    rw [hold] at hm
    have hc' : h.slot y i = some (.datum c) := by
      unfold Heap.slot at hc ⊢
      rw [hold] at hc
      exact hc
    obtain ⟨-, -, -, -, -, hloc, -⟩ := hi.slot_datum hy hc'
    rw [newdatum_ne (hi.ne_next hloc)]
    exact hs.settled.rest y Q hy hm i c hc'
  · intro y n hy hrow
    unfold Tree.plant
    by_cases hne : y = h.next
    · subst hne
      rw [Function.update_self, Option.some.injEq, Place.mk.injEq] at hy
      rw [← hy.1, hnew, fresh_datum_eq]
      simp only [Function.update_self]
      exact ⟨fun _ => trivial, nofun⟩
    · rw [Function.update_of_ne hne] at hy
      have hlt : n ≠ t.forest.next := Nat.ne_of_lt (hi.planted y _ hy)
      unfold Heap.type at hrow
      rw [newdatum_ne hne] at hrow ⊢
      simp only [Function.update_of_ne hlt]
      exact hs.tracked y n hy hrow
  · intro y Q hy
    rw [Function.update_of_ne (hi.ne_next hy)]
    exact hy
  · intro y Q hy
    rw [newdatum_ne (hi.ne_next hy)]
  · intro y hlt hy
    rw [Function.update_of_ne (Nat.ne_of_lt hlt)]
    exact hy

/-- What a type makes of an argument, by what a datum holds. -/
def Means (pg : Backend α types) (h : Heap α) (t : Tree α) (loc : Places) (oid : Oid) :
    Arg α types → Except Failure (Option (Value α)) → Prop
  | .nil, r => r = made_of_nil types pg (types.nesting oid + 1) oid
  | .bad, r => r = .error .error
  | .value v, r => r = if v.typeoid = oid then .ok (some v.value) else .error .error
  | .datum x, r => ∃ u, Holds h t.forest loc t.marks x u ∧
      r = value_cast types pg (types.nesting oid + 1) oid u

section
variable {oid : Oid} {arg : Arg α types} {r : Except Failure (Option (Value α))}

theorem Means.after (hm : Means pg h t loc oid arg r) (ha : After types h h' t' loc loc' id)
    (hforest : t'.forest = t.forest) (hmarks : t'.marks = t.marks) :
    Means pg h' t' loc' oid arg r := by
  cases arg with
  | nil => exact hm
  | bad => exact hm
  | value v => exact hm
  | datum x =>
    obtain ⟨u, ⟨P, v, hx, hv, rfl⟩, hr⟩ := hm
    refine ⟨_, ⟨P, v, ha.moved x P hx, hforest ▸ hv, ?_⟩, hr⟩
    obtain ⟨htype, htypmod⟩ := Prod.mk.inj (ha.typed x P hx)
    unfold holding
    rw [htype, htypmod, hmarks]

theorem Means.error {e : Failure} (hm : Means pg h t loc oid arg (.error e)) : e = .error := by
  cases arg with
  | nil => exact made_of_nil_error hm.symm
  | bad =>
    cases hm
    rfl
  | value v =>
    simp only [Means] at hm
    split at hm
    · cases hm
    · cases hm
      rfl
  | datum x =>
    obtain ⟨u, -, hr⟩ := hm
    exact value_cast_error _ hr.symm

theorem Means.wellformed {v : Value α} (hm : Means pg h t loc oid arg (.ok (some v)))
    (hs : Shows types h t loc) : Wellformed types oid v := by
  cases arg with
  | nil => exact made_of_nil_wellformed hm.symm
  | bad => cases hm
  | value w =>
    simp only [Means] at hm
    split at hm
    · rename_i heq
      cases hm
      subst heq
      exact w.wellformed
    · cases hm
  | datum x =>
    obtain ⟨_, ⟨P, w, hx, hw, rfl⟩, hr⟩ := hm
    exact value_cast_wellformed _ (hs.settled.inv.wellformed hx hw) hr.symm

/-- A constructor reads what it is given and changes nothing. -/
theorem typeinfo_call_spec (hs : Shows types h t loc) (hm : Means pg h t loc oid arg r) :
    ∃ loc', Reading types h (pllua_typeinfo_call types pg oid arg h).1 t.forest loc loc' t.marks ∧
      (pllua_typeinfo_call types pg oid arg h).2 = r := by
  cases arg with
  | nil => exact ⟨loc, Reading.refl hs.settled, hm.symm⟩
  | bad => exact ⟨loc, Reading.refl hs.settled, hm.symm⟩
  | value v => exact ⟨loc, Reading.refl hs.settled, hm.symm⟩
  | datum x =>
    obtain ⟨u, hx, rfl⟩ := hm
    exact call_datum_spec _ oid hs.settled hx (Nat.lt_succ_self _)

end

end

/-! ## Operations and their answers -/

/-- A reference to a datum at a place. -/
def ref_to (h : Heap α) (x : Id) (P : Place) : Ref := ⟨P, (h.datum x).typeinfo, (h.datum x).typmod⟩

/-- A datum stands where the reference says. -/
def Stands (h : Heap α) (loc : Places) (x : Id) (ref : Ref) : Prop :=
  ∃ P, loc x = some P ∧ ref = ref_to h x P

theorem Stands.after {h h' : Heap α} {t' : Tree α} {loc loc' : Places} {f : Place → Place}
    {x : Id} {ref : Ref} (hs : Stands h loc x ref) (ha : After types h h' t' loc loc' f) :
    Stands h' loc' x (ref.moved f) := by
  obtain ⟨P, hx, rfl⟩ := hs
  refine ⟨f P, ha.moved x P hx, ?_⟩
  obtain ⟨htype, htypmod⟩ := Prod.mk.inj (ha.typed x P hx)
  unfold ref_to Ref.moved
  rw [htype, htypmod]

/-- The operation does to the datums what the other one does to the tree. -/
def Agrees (types : Types) (h : Heap α) (loc : Places) (t : Tree α) (out : Heap α × Result α)
    (out' : Tree α × Reply α) : Prop :=
  ∃ f loc' new, After types h out.1 out'.1 loc loc' f ∧
    out'.1.refs = t.refs.map (Ref.moved f) ++ new ∧
    List.Forall₂ (Stands out.1 loc') out.2.refs new ∧ out.2.reply = out'.2

section
variable {h h' : Heap α} {loc loc' : Places} {t t' : Tree α} {x : Id} {P : Place}

theorem refs_moved (refs : List Ref) : refs.map (Ref.moved id) = refs := List.map_id refs

theorem Agrees.same (out : Result α) (ha : After types h h' t' loc loc' id)
    (hrefs : t'.refs = t.refs) (hnone : out.refs = []) :
    Agrees types h loc t (h', out) (t', out.reply) := by
  refine ⟨id, loc', [], ha, ?_, ?_, rfl⟩
  · rw [refs_moved, List.append_nil, hrefs]
  · rw [hnone]
    exact .nil

theorem Agrees.ref {c : Id} {ref : Ref} (ha : After types h h' t loc loc' id)
    (hc : Stands h' loc' c ref) :
    Agrees types h loc t (h', .datum c) ({ t with refs := t.refs ++ [ref] }, .ref) := by
  refine ⟨id, loc', [ref], ⟨⟨ha.shows.settled, ha.shows.tracked⟩, ha.moved, ha.typed, ha.next,
    ha.lost, ha.rooted⟩, ?_, .cons hc .nil, rfl⟩
  rw [refs_moved]

theorem Stands.newdatum (h : Heap α) (loc : Places) (n : Nat) (oid : Oid) (v : Value α) :
    Stands (pllua_newdatum types oid v h) (Function.update loc h.next (some ⟨n, []⟩)) h.next
      ⟨⟨n, []⟩, oid, -1⟩ := by
  refine ⟨_, Function.update_self _ _ _, ?_⟩
  have hnew : (pllua_newdatum types oid v h).datum h.next = fresh_datum types h oid v := rfl
  unfold ref_to
  rw [hnew, fresh_datum_eq]

theorem Agrees.plant {oid : Oid} {v : Value α} (ha : After types h h' t loc loc' id)
    (hw : Wellformed types oid v) :
    Agrees types h loc t (pllua_newdatum types oid v h', .datum h'.next) (t.plant oid v) := by
  refine ⟨id, _, [⟨⟨t.forest.next, []⟩, oid, -1⟩], ha.trans (ha.shows.newdatum hw), ?_,
    .cons (.newdatum h' loc' _ oid v) .nil, rfl⟩
  rw [refs_moved]
  rfl

variable (pg) in
/-- What a type makes of a datum is what it makes of what a reference to it refers to. -/
theorem cast_means (hs : Shows types h t loc) (hx : loc x = some P) (oid : Oid) :
    Means pg h t loc oid (.datum x) (t.cast pg (ref_to h x P) oid) := by
  obtain ⟨v, hv, -⟩ := hs.settled.inv.holds_value hx
  refine ⟨_, ⟨P, v, hx, hv, rfl⟩, ?_⟩
  unfold Tree.cast ref_to holding
  simp only [hv]

theorem made_touch (oid : Oid) (arg : Given α types) (n : Nat) :
    (t.touch n).made pg oid arg = t.made pg oid arg := by
  cases arg <;> simp [Tree.made, Tree.cast]

/-! ## Rows -/

/-- A column of a deformed row gives what the tree shows there. -/
theorem column_shows (hs : Shows types h t loc) (hx : loc x = some P) {attrs : List Attribute}
    {slots : List Slot} {i : Nat} {att : Attribute} (ht : h.type types x = .row attrs)
    (hd : (h.datum x).deformed = some slots) (hatt : attrs[i]? = some att)
    (hlive : att.attisdropped = false) :
    ∃ out new, pllua_datum_column types slots[i]? h = (h, out) ∧
      List.Forall₂ (Stands h loc) out.refs new ∧
      t.index types i (ref_to h x P) = ({ t with refs := t.refs ++ new }, out.reply) := by
  have hcol : types.column (h.datum x).typeinfo i = some att := by
    unfold Heap.type at ht
    simp [Types.column, ht, hatt, hlive]
  obtain ⟨slot, hslot, hentry, hmark⟩ := hs.settled.entry hx ht hd hatt
  have hsame : { t with refs := t.refs ++ [] } = t := by rw [List.append_nil]
  unfold pllua_datum_column Tree.index ref_to
  simp only [hslot, hcol]
  cases slot with
  | null =>
    have hplain : t.marks (P.child i) = .plain := hmark
    simp only [hplain, hentry.2, reduceCtorEq, if_false]
    exact ⟨_, [], rfl, .nil, by rw [hsame]; rfl⟩
  | dropped => exact absurd (hlive.symm.trans hentry) Bool.false_ne_true
  | absent =>
    have hcleared : t.marks (P.child i) = .cleared := hmark
    simp only [hcleared, if_true]
    exact ⟨_, [], rfl, .nil, by rw [hsame]; rfl⟩
  | datum c =>
    obtain ⟨-, hloc, htype⟩ := hentry
    obtain ⟨v, hv, -⟩ := hs.settled.inv.holds_value hloc
    simp only [if_neg hmark.1, hv, htype]
    cases htolua : (types.typeinfo att.atttypid).tolua with
    | false =>
      refine ⟨_, [ref_to h c (P.child i)], rfl, .cons ⟨_, hloc, rfl⟩ .nil, ?_⟩
      unfold ref_to
      rw [htype, hmark.2]
      rfl
    | true =>
      have hcontent : h.content c = .ok v := by
        refine hs.settled.tolua_content hloc ?_ hv
        unfold Heap.type
        rw [htype]
        exact htolua
      simp only [hcontent, if_true]
      exact ⟨_, [], rfl, .nil, by rw [hsame]; rfl⟩

theorem row_index_agrees (hs : Shows types h t loc) (hx : loc x = some P)
    (i : Nat) :
    Agrees types h loc t (pllua_datum_row_index types pg x i h)
      (t.index types i (ref_to h x P)) := by
  cases hcol : types.column (h.datum x).typeinfo i with
  | none =>
    unfold pllua_datum_row_index Tree.index ref_to
    rw [hcol]
    exact Agrees.same .error (After.refl hs) rfl rfl
  | some att =>
    obtain ⟨attrs, ht, hatt, hlive⟩ := column_eq_some hcol
    obtain ⟨loc', hr, slots, hslots⟩ := hs.settled.deform pg hx ht
    have ha := hr.after hs
    obtain ⟨out, new, hout, hnew, hindex⟩ := column_shows ha.shows (hr.grown x P hx)
      ((hr.type hx).trans ht) hslots hatt hlive
    unfold pllua_datum_row_index
    simp only [hcol, hslots, Option.bind_some, hout]
    have href : ref_to (pllua_datum_deform_tuple types pg x h) x P = ref_to h x P := by
      obtain ⟨htype, htypmod⟩ := Prod.mk.inj (ha.typed x P hx)
      unfold ref_to
      rw [htype, htypmod]
    rw [← href, hindex]
    refine ⟨id, loc', new, ⟨⟨ha.shows.settled, ha.shows.tracked⟩, ha.moved, ha.typed, ha.next,
      ha.lost, ha.rooted⟩, ?_, hnew, rfl⟩
    rw [refs_moved]

theorem explode_and_call {attrs : List Attribute} {oid : Oid} {arg : Arg α types}
    {r : Except Failure (Option (Value α))} (hs : Shows types h t loc) (hx : loc x = some P)
    (ht : h.type types x = .row attrs) (hm : Means pg h t loc oid arg r) :
    ∃ h' loc', After types h h' (t.touch P.root) loc loc' id ∧ (h'.datum x).modified = true ∧
      pllua_typeinfo_call types pg oid arg (pllua_datum_explode_tuple types pg x h) = (h', r) := by
  obtain ⟨loc₁, ho⟩ := explode_tuple_opened pg hs.settled.inv hs.settled.rest hx ht
  have ha := ho.after hs
  obtain ⟨loc₂, hr, hcall⟩ :=
    typeinfo_call_spec ha.shows (hm.after ha (touch_forest _) (touch_marks _))
  refine ⟨_, loc₂, ha.trans (hr.after ha.shows), ?_, Prod.ext rfl hcall⟩
  have hx₁ := ho.grown x P hx
  obtain ⟨_, hkeep, -⟩ := hr.kept x P hx₁
  rw [hkeep]
  exact ho.opened x P hx₁ P.above_refl

/-- Storing a value keeps the rows at rest. -/
theorem Storing.after {i : Nat} {att : Attribute} {w : Option (Value α)} {attrs : List Attribute}
    (hst : Storing types h t.forest loc x P i att w attrs) (hs : Shows types h t loc) :
    After types h (stored types x i att.atttypid w h) (t.assign (P.child i) w) loc
      (moved loc h.next w (P.child i) t.forest.next) ((P.child i).detach t.forest.next) := by
  have hi := hs.settled.inv
  refine ⟨⟨⟨hst.store, ?_, hst.marked hs.settled.marked⟩, ?_⟩, ?_, ?_, hst.next.1, ?_, ?_⟩
  · intro y Q' hy hm j c hc
    rcases Storing.moved_cases hy with ⟨⟨v, hw⟩, rfl, -⟩ | ⟨Q, hyQ, rfl⟩
    · unfold Heap.slot at hc
      rw [hst.datum_new hw, fresh_datum_eq] at hc
      cases hc
    · obtain ⟨_, hkeep⟩ := hst.keep hyQ
      rw [hkeep] at hm
      have hne : Q.child j ≠ P.child i := by
        intro heq
        obtain ⟨rfl, -, -⟩ := hst.column_of hyQ heq
        have hmod := hst.opened y P hst.place P.above_refl
        rw [hmod] at hm
        cases hm
      rw [hst.slot_old hyQ hne] at hc
      obtain ⟨-, -, -, -, -, hloc, -⟩ := hi.slot_datum hyQ hc
      obtain ⟨_, hkeepc⟩ := hst.keep hloc
      rw [hkeepc]
      exact hs.settled.rest y Q hyQ hm j c hc
  · intro y n hy hrow
    unfold Tree.assign
    rcases Storing.moved_cases hy with ⟨-, -, hQ⟩ | ⟨Q, hyQ, hQ⟩
    · have hpath := congrArg Place.path hQ
      simp [Place.child] at hpath
    · by_cases hab : (P.child i).Above Q
      · -- what stood in the column is a tree of its own now
        obtain ⟨q, rfl⟩ := hab.below
        have hroot : n = t.forest.next := by
          rw [Place.below, detach_below] at hQ
          exact congrArg Place.root hQ
        simp only [hroot, Function.update_self]
        simp
      · rw [detach_of_not_above hab] at hQ
        subst hQ
        have hne : n ≠ t.forest.next := Nat.ne_of_lt (hi.planted y _ hyQ)
        rw [hst.type_old hyQ] at hrow
        obtain ⟨_, hkeep⟩ := hst.keep hyQ
        simp only [Function.update_of_ne hne]
        rw [hkeep]
        exact hs.tracked y n hyQ hrow
  · exact fun y Q hy => moved_old (hi.ne_next hy) hy
  · intro y Q hy
    obtain ⟨_, hkeep⟩ := hst.keep hy
    rw [hkeep]
    rfl
  · intro y hlt hy
    unfold moved
    rw [if_neg fun heq => Nat.ne_of_lt hlt heq.2, hy]
    rfl
  · intro Q hQ
    refine detach_of_not_above ?_ _
    intro hab
    have hnil := List.eq_nil_of_prefix_nil (hQ ▸ hab.2)
    simp [Place.child] at hnil

theorem row_newindex_agrees {arg : Given α types} {a : Arg α types} (hs : Shows types h t loc)
    (hx : loc x = some P) (i : Nat) (hm : ∀ oid, Means pg h t loc oid a (t.made pg oid arg)) :
    Agrees types h loc t (pllua_datum_row_newindex types pg x i a h)
      (t.newindex pg i arg (ref_to h x P)) := by
  unfold pllua_datum_row_newindex Tree.newindex ref_to
  cases hcol : types.column (h.datum x).typeinfo i with
  | none => exact Agrees.same .error (After.refl hs) rfl rfl
  | some att =>
    obtain ⟨attrs, ht, hatt, hlive⟩ := column_eq_some hcol
    have hmeans := hm att.atttypid
    obtain ⟨h', loc', ha, hmod, hcall⟩ := explode_and_call hs hx ht hmeans
    simp only [hcall, made_touch]
    cases hmade : t.made pg att.atttypid arg with
    | error e =>
      rw [hmade] at hmeans
      obtain rfl := hmeans.error
      exact Agrees.same .error ha (touch_refs _) rfl
    | ok w =>
      rw [hmade] at hmeans
      have hx' := ha.moved x P hx
      have hst : Storing types h' (t.touch P.root).forest loc' x P i att w attrs := by
        refine ⟨ha.shows.settled.inv, hx', ?_, hatt, hlive, ?_, ?_⟩
        · unfold Heap.type
          rw [ha.type hx]
          exact ht
        · rintro v rfl
          exact hmeans.wellformed hs
        · intro y Q hy hab
          by_contra hnot
          obtain ⟨hxm, -⟩ := unmodified_below ha.shows.settled.inv ha.shows.settled.rest hx' hy
            (by simpa using hnot) hab
          rw [hmod] at hxm
          cases hxm
      have hafter := ha.trans (hst.after ha.shows)
      cases w with
      | none => exact ⟨_, _, [], hafter, by simp [Tree.assign], .nil, rfl⟩
      | some v => exact ⟨_, _, [], hafter, by simp [Tree.assign], .nil, rfl⟩

/-! ## Arrays -/

theorem array_value_next (h : Heap α) (x : Id) :
    h.next ≤ (pllua_datum_array_value x h).next := by
  unfold pllua_datum_array_value Heap.crash Heap.use Heap.crash
  simp only
  split
  · exact Nat.le_refl _
  · split
    · exact Nat.le_refl _
    · split <;> exact Nat.le_refl _

theorem array_value_after (hs : Shows types h t loc) {elemtype : Oid} (hx : loc x = some P)
    (ht : h.type types x = .array elemtype) :
    After types h (pllua_datum_array_value x h) t loc loc id := by
  obtain ⟨hsettled, hkept⟩ := array_value_settled hs.settled hx ht
  refine ⟨⟨hsettled, ?_⟩, fun _ _ hy => hy, ?_, array_value_next h x, fun _ _ hy => hy,
    fun _ _ => rfl⟩
  · intro y n hy hrow
    rw [type_of_kept (hkept y)] at hrow
    obtain ⟨_, _, hk⟩ := hkept y
    rw [hk]
    exact hs.tracked y n hy hrow
  · intro y _ _
    obtain ⟨_, _, hk⟩ := hkept y
    rw [hk]
    rfl

/-- A key goes with the one that has references for datums. -/
def Matches (h : Heap α) (loc : Places) : Key Id → Key Ref → Prop
  | .int i, .int j => i = j
  | .idxlist y l, .idxlist ref l' => Stands h loc y ref ∧ l = l'
  | _, _ => False

theorem Matches.idx {key : Key Id} {key' : Key Ref} (hk : Matches h loc key key') :
    key.idx = key'.idx := by
  cases key with
  | int i =>
    cases key' with
    | int j => exact congrArg (fun i => [i]) hk
    | idxlist ref l => exact hk.elim
  | idxlist y l =>
    cases key' with
    | int j => exact hk.elim
    | idxlist ref l' => exact congrArg Idxlist.idx hk.2

theorem array_element_agrees (ha : After types h h' t loc loc' id) (elemtype : Oid) (bytes : α)
    (idx : List Int) : Agrees types h loc t (array_element types pg elemtype bytes idx h')
      (t.array_element pg elemtype bytes idx) := by
  unfold array_element Tree.array_element
  cases pg.array_get_element elemtype bytes idx with
  | none => exact Agrees.same .nil ha rfl rfl
  | some v =>
    simp only
    split
    · exact Agrees.same (.value v) ha rfl rfl
    · exact Agrees.plant ha v.property

theorem array_index_agrees (hs : Shows types h t loc) (hx : loc x = some P) {key : Key Id}
    {key' : Key Ref} (hk : Matches h loc key key') :
    Agrees types h loc t (pllua_datum_array_index types pg x key h)
      (t.element pg key' (ref_to h x P)) := by
  unfold pllua_datum_array_index Tree.element ref_to
  cases ht : types.typeinfo (h.datum x).typeinfo with
  | scalar _ _ | range | row _ => exact Agrees.same .error (After.refl hs) rfl rfl
  | array elemtype =>
    have ha := array_value_after hs hx ht
    have ht' : (pllua_datum_array_value x h).type types x = .array elemtype := by
      unfold Heap.type
      rw [ha.type hx]
      exact ht
    obtain ⟨-, bytes, -, -, hat, -, hcontent⟩ :=
      ha.shows.settled.inv.flat_bytes (P := P) (ha.moved x P hx) (by rw [ht']; rfl)
    simp only [hat, hcontent]
    cases key with
    | int i =>
      cases key' with
      | idxlist ref l => exact hk.elim
      | int j =>
        obtain rfl : i = j := hk
        simp only
        split
        · exact Agrees.same (.idxlist _) ha rfl rfl
        · exact array_element_agrees ha elemtype bytes [i]
    | idxlist y l =>
      cases key' with
      | int j => exact hk.elim
      | idxlist ref l' =>
        obtain ⟨⟨Q, hy, rfl⟩, rfl⟩ := hk
        -- a list is of the array if it stands where the array does
        have hsame : y = x ↔ (ref_to h y Q).place = P := by
          constructor
          · rintro rfl
            exact Option.some.inj (hy.symm.trans hx)
          · rintro rfl
            exact hs.settled.inv.inj y x _ hy hx
        simp only [hsame]
        split
        · exact array_element_agrees ha elemtype bytes l.idx
        · exact Agrees.same .error ha rfl rfl

theorem idxlist_index_agrees (hs : Shows types h t loc) (hx : loc x = some P) (l : Idxlist)
    (i : Int) : Agrees types h loc t (pllua_datum_idxlist_index types pg x l i h)
      (t.idxlist_index pg l i (ref_to h x P)) := by
  unfold pllua_datum_idxlist_index Tree.idxlist_index
  dsimp only
  split
  · exact array_index_agrees hs hx ⟨⟨P, hx, rfl⟩, rfl⟩
  · exact Agrees.same (.idxlist _) (After.refl hs) rfl rfl

/-- The heap with the array that is written to, for itself and expanded. -/
def array_opened (types : Types) (pg : Backend α types) (x : Id) (h : Heap α) : Heap α :=
  pllua_datum_array_value x
    ((h.datum x).datumref.elim h (pllua_datum_explode_tuple types pg · h))

theorem array_newindex_eq {elemtype : Oid} {key : Key Id} {a : Arg α types}
    (ht : types.typeinfo (h.datum x).typeinfo = .array elemtype) :
    pllua_datum_array_newindex types pg x key a h =
      match (array_opened types pg x h).content x with
      | .ok (.flat bytes) =>
        if key.idx.length < pg.ndims bytes ∨
            pg.ndims bytes < key.idx.length ∧ 0 < pg.ndims bytes then
          (array_opened types pg x h, .error)
        else
          match pllua_typeinfo_call types pg elemtype a (array_opened types pg x h) with
          | (h, .error e) => failed h e
          | (h, .ok v) => set_element types pg elemtype x key.idx v h
      | .ok (.row _) => (array_opened types pg x h, .error)
      | .error e => failed (array_opened types pg x h) e := by
  unfold pllua_datum_array_newindex array_opened
  simp only [ht]
  cases (h.datum x).datumref with
  | none => rfl
  | some y => rfl

variable (pg) in
/-- An array in a row gets away from it before it is written to. -/
theorem array_alone (hs : Shows types h t loc) (hx : loc x = some P)
    (hbare : (h.type types x).is_row = false) :
    ∃ h' loc', (h.datum x).datumref.elim h (pllua_datum_explode_tuple types pg · h) = h' ∧
      After types h h' (t.touch P.root) loc loc' id ∧ (h'.datum x).datumref = none := by
  have hi := hs.settled.inv
  cases href : (h.datum x).datumref with
  | none =>
    refine ⟨h, loc, rfl, ⟨⟨?_, ?_⟩, fun _ _ hy => hy, fun _ _ _ => rfl, Nat.le_refl _,
      fun _ _ hy => hy, fun _ _ => rfl⟩, href⟩
    · rw [touch_forest, touch_marks]
      exact hs.settled
    · intro y n hy hrow
      by_cases hroot : n = P.root
      · -- the rows around it have been exploded
        subst hroot
        refine ⟨fun hplanted => absurd hplanted (touch_not_planted _), fun _ => ?_⟩
        by_contra hm
        obtain ⟨-, rfl | hsome⟩ := unmodified_below hi hs.settled.rest hx hy (by simpa using hm)
          ⟨rfl, List.nil_prefix⟩
        · rw [hbare] at hrow
          cases hrow
        · exact hsome href
      · rw [touch_ne hroot]
        exact hs.tracked y n hy hrow
  | some y =>
    obtain ⟨-, -, Q, i, hy, hslot⟩ := hi.refs x P y hx href
    obtain ⟨attrs, _, ht, -, -, hPQ, -⟩ := hi.slot_datum hy hslot
    rw [hx] at hPQ
    obtain rfl := Option.some.inj hPQ
    obtain ⟨loc', ho⟩ := explode_tuple_opened pg hi hs.settled.rest hy ht
    refine ⟨_, loc', rfl, ho.after hs, ?_⟩
    have hx' := ho.grown x _ hx
    by_contra hsome
    obtain ⟨z, hz⟩ := Option.ne_none_iff_exists'.mp hsome
    -- the row that it would still reference is the one that has been exploded
    obtain ⟨-, hzm, R, j, hzloc, hzslot⟩ := ho.inv.refs x _ z hx' hz
    obtain ⟨-, -, -, -, -, hPR, -⟩ := ho.inv.slot_datum hzloc hzslot
    rw [hx'] at hPR
    obtain ⟨rfl, -⟩ := Place.child_inj (Option.some.inj hPR)
    rw [ho.opened z Q hzloc Q.above_refl] at hzm
    cases hzm

theorem Writing.after {ptr : Ptr α} {bytes : α} (hs : Shows types h t loc)
    (hw : Writing types h t.forest loc t.marks x P ptr) :
    After types h (overwritten x ptr bytes h)
      { t with forest := t.forest.write P (some (.flat bytes)) } loc loc id := by
  refine ⟨⟨hw.write, ?_⟩, fun _ _ hy => hy, ?_, Nat.le_refl _, fun _ _ hy => hy, fun _ _ => rfl⟩
  · intro y n hy hrow
    rw [overwritten_type] at hrow
    obtain ⟨_, hk⟩ := @overwritten_keep α h x ptr bytes y
    rw [hk]
    exact hs.tracked y n hy hrow
  · intro y _ _
    obtain ⟨_, hk⟩ := @overwritten_keep α h x ptr bytes y
    rw [hk]
    rfl

theorem array_newindex_agrees {arg : Given α types} {a : Arg α types} (hs : Shows types h t loc)
    (hx : loc x = some P) {key : Key Id} {key' : Key Ref} (hk : Matches h loc key key')
    (hm : ∀ oid, Means pg h t loc oid a (t.made pg oid arg)) :
    Agrees types h loc t (pllua_datum_array_newindex types pg x key a h)
      (t.set_element pg key' arg (ref_to h x P)) := by
  unfold Tree.set_element ref_to
  cases ht : types.typeinfo (h.datum x).typeinfo with
  | scalar _ _ | range | row _ =>
    unfold pllua_datum_array_newindex
    simp only [ht]
    exact Agrees.same .error (After.refl hs) rfl rfl
  | array elemtype =>
    have hbare : (h.type types x).is_row = false := by
      unfold Heap.type
      rw [ht]
      rfl
    obtain ⟨-, bytes, -, -, hat, -, -⟩ := hs.settled.inv.flat_bytes hx hbare
    have hmeans := hm elemtype
    obtain ⟨h₁, loc₁, heq, ha₁, halone₁⟩ := array_alone pg hs hx hbare
    rw [array_newindex_eq ht, hk.idx]
    unfold array_opened
    rw [heq]
    simp only [hat, made_touch]
    have hx₁ := ha₁.moved x P hx
    have ht₁ : h₁.type types x = .array elemtype := by
      unfold Heap.type
      rw [ha₁.type hx]
      exact ht
    obtain ⟨-, hkept⟩ := array_value_settled ha₁.shows.settled hx₁ ht₁
    have ha₂ := ha₁.trans (array_value_after ha₁.shows hx₁ ht₁)
    replace ha₂ : After types h (pllua_datum_array_value x h₁) (t.touch P.root) loc loc₁ id := ha₂
    have hbare₂ : ((pllua_datum_array_value x h₁).type types x).is_row = false := by
      unfold Heap.type
      rw [ha₂.type hx, ht]
      rfl
    obtain ⟨-, bytes', -, -, hat', -, hcontent₂⟩ :=
      ha₂.shows.settled.inv.flat_bytes (ha₂.moved x P hx) hbare₂
    obtain rfl : bytes = bytes' := by
      rw [id_eq, touch_forest, hat] at hat'
      cases hat'
      rfl
    simp only [hcontent₂]
    split
    · exact Agrees.same .error ha₂ (touch_refs _) rfl
    obtain ⟨loc₃, hr, hcall⟩ :=
      typeinfo_call_spec ha₂.shows (hmeans.after ha₂ (touch_forest _) (touch_marks _))
    have ha₃ := ha₂.trans (hr.after ha₂.shows)
    generalize hout : pllua_typeinfo_call types pg elemtype a (pllua_datum_array_value x h₁) = out
      at hr hcall ha₃
    obtain ⟨h₃, r⟩ := out
    replace ha₃ : After types h h₃ (t.touch P.root) loc loc₃ id := ha₃
    have hx₃ : loc₃ x = some P := ha₃.moved x P hx
    obtain rfl : r = t.made pg elemtype arg := hcall
    cases hmade : t.made pg elemtype arg with
    | error e =>
      rw [hmade] at hmeans
      obtain rfl := hmeans.error
      exact Agrees.same .error ha₃ (touch_refs _) rfl
    | ok w =>
      have halone₃ : (h₃.datum x).datumref = none := by
        obtain ⟨_, hk, -⟩ := hr.kept x P (ha₂.moved x P hx)
        obtain ⟨_, _, hk'⟩ := hkept x
        rw [hk, hk']
        exact halone₁
      have hbare₃ : (h₃.type types x).is_row = false := by
        unfold Heap.type
        rw [ha₃.type hx, ht]
        rfl
      obtain ⟨ptr, bytes', hv, -, hat', -, hcontent⟩ :=
        ha₃.shows.settled.inv.flat_bytes hx₃ hbare₃
      obtain rfl : bytes = bytes' := by
        rw [touch_forest, hat] at hat'
        cases hat'
        rfl
      unfold set_element
      simp only [hcontent, hv]
      cases pg.array_set_element elemtype bytes key'.idx w with
      | none => exact Agrees.same .error ha₃ (touch_refs _) rfl
      | some bytes' =>
        have hw : Writing types h₃ (t.touch P.root).forest loc₃ (t.touch P.root).marks x P ptr :=
          ⟨ha₃.shows.settled, hx₃, hbare₃, hv, halone₃⟩
        exact ⟨id, loc₃, [], ha₃.trans (hw.after ha₃.shows), by simp [refs_moved], .nil, rfl⟩

/-! ## Constructors and texts -/

theorem construct_agrees (hs : Shows types h t loc) (hx : loc x = some P) (oid : Oid) :
    Agrees types h loc t (pllua_typeinfo_call_result types pg oid x h)
      (t.construct pg oid (ref_to h x P)) := by
  have hm := cast_means pg hs hx oid
  obtain ⟨loc', hr, hcall⟩ := typeinfo_call_spec hs hm
  unfold pllua_typeinfo_call_result Tree.construct
  generalize hout : pllua_typeinfo_call types pg oid (.datum x) h = out at hr hcall
  obtain ⟨h', r⟩ := out
  obtain rfl : r = t.cast pg (ref_to h x P) oid := hcall
  cases hmade : t.cast pg (ref_to h x P) oid with
  | error e =>
    rw [hmade] at hm
    obtain rfl := hm.error
    exact Agrees.same .error (hr.after hs) rfl rfl
  | ok w =>
    cases w with
    | none => exact Agrees.same .nil (hr.after hs) rfl rfl
    | some v =>
      rw [hmade] at hm
      exact Agrees.plant (hr.after hs) (hm.wellformed hs)

theorem tostring_agrees (hs : Shows types h t loc) (hx : loc x = some P) :
    Agrees types h loc t (tostring_result types pg x h) (t.tostring types (ref_to h x P)) := by
  obtain ⟨v, hv, -⟩ := hs.settled.inv.holds_value hx
  obtain ⟨loc', hr, htext⟩ := tolstring_spec pg _ hs.settled ⟨P, v, hx, hv, rfl⟩
    (Nat.lt_succ_self _)
  unfold tostring_result Tree.tostring ref_to
  simp only [hv]
  generalize hout : luaL_tolstring types pg (types.nesting (h.datum x).typeinfo + 1) x h = out
  replace hr : Reading types h out.1 t.forest loc loc' t.marks := hout ▸ hr
  replace htext : out.2 = value_shown types (types.nesting (h.datum x).typeinfo + 1)
      (holding h t.marks x P v) := hout ▸ htext
  obtain ⟨h', r⟩ := out
  have hshown : r = value_shown types (types.nesting (h.datum x).typeinfo + 1)
    ⟨(h.datum x).typeinfo, (h.datum x).typmod, t.marks.below P, v⟩ := htext
  rw [← hshown]
  cases r with
  | error e =>
    obtain rfl := value_shown_error _ hshown.symm
    exact Agrees.same .error (hr.after hs) rfl rfl
  | ok w => exact Agrees.same (.value w) (hr.after hs) rfl rfl

end

/-! ## Runs -/

/-- The heap follows the tree, with every reference that the program may still use. -/
structure Following (types : Types) (st : State α) (t : Tree α) (loc : Places) : Prop where
  shows : Shows types st.heap t loc
  dead : ∀ x ∈ st.dead, x < st.heap.next ∧ loc x = none
  refs : List.Forall₂ (fun x ref => x ∉ st.dead → Stands st.heap loc x ref) st.refs t.refs

/-- Whole values stay where they are. -/
def Keeps (st st' : State α) (loc loc' : Places) : Prop :=
  ∀ x ref, x ∉ st'.dead → ref.place.path = [] → Stands st.heap loc x ref →
    Stands st'.heap loc' x ref

/-- A step of both sides, after which the heap follows the tree again. -/
def Follow (types : Types) (st : State α) (loc : Places) (out : State α × Reply α)
    (out' : Tree α × Reply α) : Prop :=
  (∃ loc', Following types out.1 out'.1 loc' ∧ Keeps st out.1 loc loc') ∧ out.2 = out'.2

section
variable {st : State α} {t : Tree α} {loc : Places}

/-- The entries of two lists that go together are there together. -/
theorem refs_rel {β γ : Type} {R : β → γ → Prop} {xs : List β} {ys : List γ}
    (h : List.Forall₂ R xs ys) (r : Nat) :
    (xs[r]? = none ∧ ys[r]? = none) ∨ ∃ x y, xs[r]? = some x ∧ ys[r]? = some y ∧ R x y := by
  induction h generalizing r with
  | nil => exact Or.inl ⟨rfl, rfl⟩
  | cons hxy _ ih =>
    cases r with
    | zero => exact Or.inr ⟨_, _, rfl, rfl, hxy⟩
    | succ r => exact ih r

theorem Following.refl (hf : Following types st t loc) (r : Reply α) :
    Follow types st loc (st, r) (t, r) :=
  ⟨⟨loc, hf, fun _ _ _ _ hx => hx⟩, rfl⟩

theorem Following.after (hf : Following types st t loc) {h' : Heap α} {t' : Tree α}
    {loc' : Places} {f : Place → Place} (ha : After types st.heap h' t' loc loc' f)
    (hrefs : t'.refs = t.refs.map (Ref.moved f)) :
    Following types { st with heap := h' } t' loc' ∧ Keeps st { st with heap := h' } loc loc' := by
  refine ⟨⟨ha.shows, ?_, ?_⟩, ?_⟩
  · intro x hx
    obtain ⟨hlt, hnone⟩ := hf.dead x hx
    exact ⟨Nat.lt_of_lt_of_le hlt ha.next, ha.lost x hlt hnone⟩
  · rw [hrefs, List.forall₂_map_right_iff]
    exact hf.refs.imp fun x ref hstands hx => (hstands hx).after ha
  · intro x ref _ hpath hx
    have hx' := hx.after ha
    unfold Ref.moved at hx'
    rw [ha.rooted _ hpath] at hx'
    exact hx'

/-- The program gets more references. -/
theorem Following.hand (hf : Following types st t loc) {xs : List Id} {new : List Ref}
    (hnew : List.Forall₂ (Stands st.heap loc) xs new) :
    Following types { st with refs := st.refs ++ xs } { t with refs := t.refs ++ new } loc where
  shows := ⟨hf.shows.settled, hf.shows.tracked⟩
  dead := hf.dead
  refs := List.rel_append hf.refs (hnew.imp fun x _ hx (_ : x ∉ st.dead) => hx)

/-- After an operation the heap follows the tree again. -/
theorem Following.reply (hf : Following types st t loc) {out : Heap α × Result α}
    {out' : Tree α × Reply α} (ha : Agrees types st.heap loc t out out') :
    Follow types st loc (st.reply out) out' := by
  obtain ⟨f, loc', new, hafter, hrefs, hnew, hsame⟩ := ha
  obtain ⟨t', r⟩ := out'
  have hafter' : After types st.heap out.1 { t' with refs := t.refs.map (Ref.moved f) } loc loc' f :=
    ⟨⟨hafter.shows.settled, hafter.shows.tracked⟩, hafter.moved, hafter.typed, hafter.next,
      hafter.lost, hafter.rooted⟩
  obtain ⟨hf', hk⟩ := hf.after hafter' rfl
  have hf'' := hf'.hand hnew
  simp only [← hrefs] at hf''
  exact ⟨⟨loc', hf'', hk⟩, hsame⟩

/-- A metamethod finds the datum that stands where the tree has the reference. -/
theorem Following.through (hf : Following types st t loc) {r : Nat}
    (hr : ∀ x ∈ st.dead, st.refs[r]? ≠ some x) {method : Id → Heap α × Result α}
    {method' : Ref → Tree α × Reply α}
    (hm : ∀ x P, loc x = some P →
      Agrees types st.heap loc t (method x) (method' (ref_to st.heap x P))) :
    Follow types st loc (st.through r method) (t.through r method') := by
  unfold State.through Tree.through
  rcases refs_rel hf.refs r with ⟨hx, hy⟩ | ⟨x, ref, hx, hy, hstands⟩
  · simp only [hx, hy]
    exact hf.refl .error
  · obtain ⟨P, hplace, rfl⟩ := hstands fun hdead => hr x hdead hx
    obtain ⟨-, -, hmeta⟩ := hf.shows.settled.inv.alive x _ hplace
    simp only [hx, hy, hmeta, if_true]
    exact hf.reply (hm x P hplace)

variable (pg) in
/-- What a type makes of what the program hands to it. -/
theorem Following.means (hf : Following types st t loc) {arg : Given α types}
    (hr : ∀ r ∈ arg.refs, ∀ x ∈ st.dead, st.refs[r]? ≠ some x) (oid : Oid) :
    Means pg st.heap t loc oid (arg.arg types st) (t.made pg oid arg) := by
  cases arg with
  | value v => rfl
  | nil => rfl
  | bad => rfl
  | ref r =>
    unfold Given.arg Tree.made
    rcases refs_rel hf.refs r with ⟨hx, hy⟩ | ⟨x, ref, hx, hy, hstands⟩
    · simp only [hx, hy]
      rfl
    · obtain ⟨P, hplace, rfl⟩ := hstands fun hdead => hr r List.mem_cons_self x hdead hx
      obtain ⟨-, -, hmeta⟩ := hf.shows.settled.inv.alive x _ hplace
      simp only [hx, hy, hmeta, if_true]
      exact cast_means pg hf.shows hplace oid

/-- What the program indexes an array with. -/
theorem Following.key (hf : Following types st t loc) {key : Key Nat}
    (hr : ∀ r ∈ key.refs, ∀ x ∈ st.dead, st.refs[r]? ≠ some x) :
    (key.of st.refs = none ∧ key.of t.refs = none) ∨
      ∃ k k', key.of st.refs = some k ∧ key.of t.refs = some k' ∧ Matches st.heap loc k k' := by
  cases key with
  | int i => exact .inr ⟨_, _, rfl, rfl, rfl⟩
  | idxlist r l =>
    unfold Key.of
    rcases refs_rel hf.refs r with ⟨hx, hy⟩ | ⟨x, ref, hx, hy, hstands⟩
    · simp only [hx, hy]
      exact .inl ⟨rfl, rfl⟩
    · simp only [hx, hy]
      exact .inr ⟨_, _, rfl, rfl, hstands fun hdead => hr r List.mem_cons_self x hdead hx, rfl⟩

/-- Datums die that nothing refers to. -/
theorem Following.lose (hf : Following types st t loc) {xs : List Id}
    (hxs : ∀ x ∈ xs, x < st.heap.next) (hdead : Unreferenced st.heap (st.dead ++ xs)) :
    Follow types st loc ({ st with dead := st.dead ++ xs }, .nothing) (t, .nothing) := by
  have hstill : ∀ {x ref}, x ∉ st.dead ++ xs → Stands st.heap loc x ref →
      Stands st.heap (remaining loc (st.dead ++ xs)) x ref := by
    rintro x ref hx ⟨P, hplace, rfl⟩
    exact ⟨P, (remaining_of_not_dead hx).trans hplace, rfl⟩
  refine ⟨⟨remaining loc (st.dead ++ xs), ⟨⟨hf.shows.settled.lose hdead, ?_⟩, ?_, ?_⟩, ?_⟩, rfl⟩
  · exact fun y n hy hrow => hf.shows.tracked y n (remaining_cases hy).2 hrow
  · intro x hx
    refine ⟨?_, if_pos hx⟩
    rcases List.mem_append.mp hx with hold | hnew
    · exact (hf.dead x hold).1
    · exact hxs x hnew
  · refine hf.refs.imp ?_
    intro x ref hstands hx
    exact hstill hx (hstands fun hold => hx (List.mem_append_left _ hold))
  · exact fun x ref hx _ hstands => hstill hx hstands

theorem Following.finalize (hf : Following types st t loc) {x : Id} (hx : x ∈ st.dead) :
    Follow types st loc ({ st with heap := pllua_datum_gc x st.heap }, .nothing) (t, .nothing) := by
  have hnone := (hf.dead x hx).2
  have hsame : ∀ {y Q}, loc y = some Q → (pllua_datum_gc x st.heap).datum y = st.heap.datum y := by
    intro y Q hy
    rw [gc_datum, if_neg]
    rintro rfl
    rw [hnone] at hy
    cases hy
  have hstill : ∀ {y ref}, Stands st.heap loc y ref →
      Stands (pllua_datum_gc x st.heap) loc y ref := by
    rintro y ref ⟨P, hplace, rfl⟩
    refine ⟨P, hplace, ?_⟩
    unfold ref_to
    rw [hsame hplace]
  refine ⟨⟨loc, ⟨⟨hf.shows.settled.finalize hnone, ?_⟩, ?_, ?_⟩, ?_⟩, rfl⟩
  · intro y n hy hrow
    unfold Heap.type at hrow
    rw [hsame hy] at hrow ⊢
    exact hf.shows.tracked y n hy hrow
  · intro y hy
    rw [(gc_next st.heap x).1]
    exact hf.dead y hy
  · exact hf.refs.imp fun y ref hstands hy => hstill (hstands hy)
  · exact fun y ref _ _ hstands => hstill hstands

/-- What an operation hands out is none that the collector has taken. -/
theorem Following.handed_live (hf : Following types st t loc) {out : Heap α × Result α}
    {out' : Tree α × Reply α} (ha : Agrees types st.heap loc t out out') {x : Id}
    (hx : x ∈ out.2.refs) : x ∉ st.dead := by
  obtain ⟨f, loc', new, hafter, -, hnew, -⟩ := ha
  intro hdead
  obtain ⟨hlt, hnone⟩ := hf.dead x hdead
  obtain ⟨i, hi⟩ := List.mem_iff_getElem?.mp hx
  rcases refs_rel hnew i with ⟨hnil, -⟩ | ⟨y, ref, hy, -, P, hloc, -⟩
  · rw [hi] at hnil
    cases hnil
  · rw [hi] at hy
    cases hy
    rw [hafter.lost x hlt hnone] at hloc
    cases hloc

variable (pg) in
/-- What a type makes of what a reference refers to. -/
theorem Following.construct (hf : Following types st t loc) {n : Nat} {ref : Ref} (oid : Oid)
    (hr : ∀ x ∈ st.dead, st.refs[n]? ≠ some x) (hn : t.refs[n]? = some ref) :
    (∀ x ∈ (step types pg st (.construct oid n)).1.dead,
      (step types pg st (.construct oid n)).1.refs[st.refs.length]? ≠ some x) ∧
      ∀ w, t.cast pg ref oid = .ok (some w) → Wellformed types oid w := by
  rcases refs_rel hf.refs n with ⟨-, hy⟩ | ⟨x, ref', hx, hy, hstands⟩
  · rw [hn] at hy
    cases hy
  · rw [hn] at hy
    cases hy
    obtain ⟨P, hplace, rfl⟩ := hstands fun hdead => hr x hdead hx
    obtain ⟨-, -, hmeta⟩ := hf.shows.settled.inv.alive x _ hplace
    refine ⟨?_, ?_⟩
    · unfold datums.step State.through State.reply
      simp only [hx, hmeta, if_true, List.getElem?_append_right (Nat.le_refl _), Nat.sub_self]
      intro y hdead hy
      exact hf.handed_live (construct_agrees hf.shows hplace oid) (List.mem_of_getElem? hy) hdead
    · intro w hcast
      have hm := cast_means pg hf.shows hplace oid
      rw [hcast] at hm
      exact hm.wellformed hf.shows

variable (pg) in
/-- One step of the program or of the collector. -/
theorem Following.step (hf : Following types st t loc) {op : Op α types}
    (hc : Collectable types st op) : Follow types st loc (step types pg st op) (t.step pg op) := by
  obtain ⟨hrefs, hop⟩ := hc
  have hs := hf.shows
  cases op with
  | create v => exact hf.reply (Agrees.plant (After.refl hs) v.wellformed)
  | index r i =>
    exact hf.through (hrefs r List.mem_cons_self) fun x P hx => row_index_agrees hs hx i
  | newindex r i arg =>
    have hm := hf.means pg fun r' hr' => hrefs r' (List.mem_cons_of_mem _ hr')
    exact hf.through (hrefs r List.mem_cons_self) fun x P hx => row_newindex_agrees hs hx i hm
  | element r key =>
    have hkey := hf.key fun r' hr' => hrefs r' (List.mem_cons_of_mem _ hr')
    unfold datums.step Tree.step
    obtain ⟨hnone, hnone'⟩ | ⟨k, k', hk, hk', hmatch⟩ := hkey
    · simp only [hnone, hnone']
      exact hf.refl .error
    · simp only [hk, hk']
      exact hf.through (hrefs r List.mem_cons_self) fun x P hx => array_index_agrees hs hx hmatch
  | set_element r key arg =>
    have hkey := hf.key fun r' hr' =>
      hrefs r' (List.mem_cons_of_mem _ (List.mem_append_left _ hr'))
    have hm := hf.means pg fun r' hr' =>
      hrefs r' (List.mem_cons_of_mem _ (List.mem_append_right _ hr'))
    unfold datums.step Tree.step
    obtain ⟨hnone, hnone'⟩ | ⟨k, k', hk, hk', hmatch⟩ := hkey
    · simp only [hnone, hnone']
      exact hf.refl .error
    · simp only [hk, hk']
      exact hf.through (hrefs r List.mem_cons_self) fun x P hx =>
        array_newindex_agrees hs hx hmatch hm
  | idxlist_index r l i =>
    exact hf.through (hrefs r List.mem_cons_self) fun x P hx => idxlist_index_agrees hs hx l i
  | idxlist_newindex r l i arg =>
    exact hf.through (hrefs r List.mem_cons_self) fun _ _ _ =>
      Agrees.same .error (After.refl hs) rfl rfl
  | construct oid r =>
    exact hf.through (hrefs r List.mem_cons_self) fun x P hx => construct_agrees hs hx oid
  | tostring r =>
    exact hf.through (hrefs r List.mem_cons_self) fun x P hx => tostring_agrees hs hx
  | lose xs => exact hf.lose hop.1 hop.2
  | finalize x => exact hf.finalize hop

end

theorem Following.start : Following types (.start : State α) .start (fun _ => none) where
  shows := by
    refine ⟨⟨?_, fun _ _ => nofun,
      ⟨fun _ _ _ _ _ _ => nofun, fun _ _ _ _ => nofun, fun _ _ => rfl⟩⟩, fun _ _ => nofun⟩
    constructor
    case calm => rfl
    case unused => exact fun _ _ => rfl
    case alive => exact fun _ _ => nofun
    case planted => exact fun _ _ => nofun
    case inj => exact fun _ _ _ => nofun
    case flat => exact fun _ _ _ => nofun
    case row => exact fun _ _ => nofun
    case slots => exact fun _ _ _ => nofun
    case lined => exact fun _ _ _ _ _ => nofun
    case refs => exact fun _ _ _ => nofun
    case bytes => exact fun _ _ _ _ => nofun
    case owned => exact fun _ => nofun
    case owners => exact fun _ _ _ _ => nofun
    case byval => exact fun _ _ _ => nofun
  dead := fun _ => nofun
  refs := .nil

end

/-- A row type with a row and an array in it. -/
def nested_types : Types where
  typeinfo
    | 1 => .row [⟨"inner", 2, -1, false⟩, ⟨"numbers", 4, -1, false⟩]
    | 2 => .row [⟨"name", 3, -1, false⟩]
    | 4 => .array 3
    | _ => .scalar false true
  nesting
    | 1 => 2
    | 2 | 4 => 1
    | _ => 0
  nesting_lt := by
    intro oid attrs att ht hatt
    split at ht
    · cases ht
      simp only [List.mem_cons, List.not_mem_nil, or_false] at hatt
      rcases hatt with rfl | rfl <;> decide
    · cases ht
      rw [List.mem_singleton] at hatt
      subst hatt
      decide
    · cases ht
    · cases ht
  elem_lt := by
    intro oid elemtype ht
    split at ht
    · cases ht
    · cases ht
    · cases ht
      decide
    · cases ht

/-- Arrays with one dimension, as lists of their elements. No name of a column is a number. -/
def list_backend : Backend (List Int) nested_types where
  ndims bytes := if bytes.isEmpty then 0 else 1
  array_get_element elemtype bytes idx :=
    if hflat : (nested_types.typeinfo elemtype).is_row = false then
      (idx.head?.bind fun i => bytes[(i - 1).toNat]?).map fun n => ⟨.flat [n], .flat hflat⟩
    else none
  array_set_element _ bytes idx
    | some (.flat [n]) =>
      idx.head?.map fun i => if bytes.isEmpty then [n] else bytes.set (i - 1).toNat n
    | _ => none
  construct_array _ vs := vs.flatMap fun
    | some (.flat ns) => ns
    | _ => []
  cast src dst
    | .flat bytes =>
      if h : src = dst ∧ (nested_types.typeinfo dst).is_row = false then
        some (some ⟨.flat bytes, .flat h.2⟩)
      else none
    | .row _ => none
  coerce_typmod _ _ v := some v
  coerce_wellformed := by
    intro oid typmod v w h hw
    cases h
    exact hw
  extended _ _ := true
  name_integer _ := none
  from_lua _ _ _ := none
  from_nil _ := some none
  scalar_keys _ := none

def nested_scalar (n : Int) : Typed (List Int) nested_types := ⟨3, .flat [n], .flat rfl⟩

def nested_inner (n : Int) : Typed (List Int) nested_types where
  typeoid := 2
  value := .row [some (.flat [n])]
  wellformed := by
    refine .row rfl rfl ?_ ?_ <;> intro i att v hatt hv
    · cases i with
      | zero =>
        cases hatt
        rfl
      | succ i => cases hatt
    · cases i with
      | zero =>
        cases hatt
        cases hv
        exact .flat rfl
      | succ i => cases hatt

def nested_outer (n : Int) (ns : List Int) : Typed (List Int) nested_types where
  typeoid := 1
  value := .row [some (nested_inner n).value, some (.flat ns)]
  wellformed := by
    refine .row rfl rfl ?_ ?_ <;> intro i att v hatt hv
    · match i with
      | 0 | 1 =>
        cases hatt
        rfl
      | i + 2 => cases hatt
    · match i with
      | 0 =>
        cases hatt
        cases hv
        exact (nested_inner n).wellformed
      | 1 =>
        cases hatt
        cases hv
        exact .flat rfl
      | i + 2 => cases hatt

end pllua.datums
