-- New datums and writes to rows and arrays: the heap keeps following the forest, in which
-- the value that stood in a column before becomes a value of its own.
import Pllua.DatumExplosion

open pllua.catalog pllua.records

namespace pllua.datums

section
variable {α : Type} {types : Types} {pg : Backend α types} {h : Heap α} {s : Forest α}
  {loc : Places}

/-! ## New datums -/

/-- The datum that `pllua_newdatum` makes. -/
def fresh_datum (types : Types) (h : Heap α) (oid : Oid) (v : Value α) : Datum α :=
  (pllua_newdatum types oid v h).datum h.next

theorem newdatum_ne {oid : Oid} {v : Value α} {y : Id} (hne : y ≠ h.next) :
    (pllua_newdatum types oid v h).datum y = h.datum y := Function.update_of_ne hne _ _

theorem fresh_datum_eq (oid : Oid) (v : Value α) :
    fresh_datum types h oid v =
      { typeinfo := oid
        value := some ⟨if (types.typeinfo oid).typbyval then none else some h.next_chunk,
          (types.typeinfo oid).is_array, v⟩
        typmod := -1
        need_gc := !(types.typeinfo oid).typbyval
        modified := false
        datumref := none
        deformed := none
        metatable := true
        finalised := false } := Function.update_self _ _ _

theorem Inv.ne_next (hi : Inv types h s loc) {y : Id} {Q : Place} (hy : loc y = some Q) :
    y ≠ h.next := Nat.ne_of_lt (hi.alive y Q hy).1

/-- The new datum owns its chunk unless its value has none. -/
theorem fresh_datum_chunk {oid : Oid} {v : Value α} {ptr : Ptr α} {c : Chunk}
    (hv : (fresh_datum types h oid v).value = some ptr) (hc : ptr.chunk = some c) :
    c = h.next_chunk ∧ (fresh_datum types h oid v).need_gc = true := by
  rw [fresh_datum_eq] at hv ⊢
  cases hv
  simp only at hc ⊢
  split at hc
  · cases hc
  · rename_i hbyval
    cases hc
    exact ⟨rfl, by simpa using hbyval⟩

theorem fresh_datum_owned {oid : Oid} {v : Value α}
    (hneed : (fresh_datum types h oid v).need_gc = true) :
    ∃ ptr, (fresh_datum types h oid v).value = some ptr ∧ ptr.chunk = some h.next_chunk := by
  rw [fresh_datum_eq] at hneed ⊢
  simp only [Bool.not_eq_true'] at hneed
  exact ⟨_, rfl, by simp [hneed]⟩

theorem Inv.newdatum (hi : Inv types h s loc) {oid : Oid} {v : Value α}
    (hw : Wellformed types oid v) :
    Inv types (pllua_newdatum types oid v h) (s.plant v)
      (Function.update loc h.next (some ⟨s.next, []⟩)) := by
  have hnew : (pllua_newdatum types oid v h).datum h.next = fresh_datum types h oid v := rfl
  have hloc : ∀ {y Q}, Function.update loc h.next (some ⟨s.next, []⟩) y = some Q →
      y = h.next ∧ Q = ⟨s.next, []⟩ ∨ y ≠ h.next ∧ loc y = some Q := by
    intro y Q hy
    by_cases hne : y = h.next
    · subst hne
      rw [Function.update_self, Option.some.injEq] at hy
      exact Or.inl ⟨rfl, hy.symm⟩
    · rw [Function.update_of_ne hne] at hy
      exact Or.inr ⟨hne, hy⟩
  have hold : ∀ {y Q}, loc y = some Q →
      Function.update loc h.next (some ⟨s.next, []⟩) y = some Q := by
    intro y Q hy
    rw [Function.update_of_ne (hi.ne_next hy)]
    exact hy
  have hslot : ∀ {y i}, y ≠ h.next → (pllua_newdatum types oid v h).slot y i = h.slot y i := by
    intro y i hne
    unfold Heap.slot
    rw [newdatum_ne hne]
  have htype : ∀ {y}, y ≠ h.next →
      (pllua_newdatum types oid v h).type types y = h.type types y := by
    intro y hne
    unfold Heap.type
    rw [newdatum_ne hne]
  have hat : ∀ {y Q}, loc y = some Q → (s.plant v).at Q = s.at Q :=
    fun hy => at_plant_old v (hi.planted _ _ hy)
  have hnoslot : ∀ {i slot}, ¬ (pllua_newdatum types oid v h).slot h.next i = some slot := by
    intro i slot hs
    unfold Heap.slot at hs
    rw [hnew, fresh_datum_eq] at hs
    cases hs
  constructor
  case calm => exact hi.calm
  case unused => exact fun c hc => hi.unused c (Nat.le_of_succ_le hc)
  case alive =>
    intro y Q hy
    rcases hloc hy with ⟨rfl, -⟩ | ⟨hne, hy⟩
    · rw [hnew, fresh_datum_eq]
      exact ⟨Nat.lt_succ_self _, rfl, rfl⟩
    · rw [newdatum_ne hne]
      obtain ⟨h1, h2⟩ := hi.alive y Q hy
      exact ⟨Nat.lt_succ_of_lt h1, h2⟩
  case planted =>
    intro y Q hy
    rcases hloc hy with ⟨-, rfl⟩ | ⟨-, hy⟩
    · exact Nat.lt_succ_self _
    · exact Nat.lt_succ_of_lt (hi.planted y Q hy)
  case inj =>
    intro y z Q hy hz
    rcases hloc hy with ⟨rfl, rfl⟩ | ⟨-, hy⟩ <;> rcases hloc hz with ⟨rfl, hQ⟩ | ⟨-, hz⟩
    · rfl
    · exact absurd (hi.planted z _ hz) (Nat.lt_irrefl _)
    · subst hQ
      exact absurd (hi.planted y _ hy) (Nat.lt_irrefl _)
    · exact hi.inj y z Q hy hz
  case flat =>
    intro y Q ptr hy hv
    rcases hloc hy with ⟨rfl, rfl⟩ | ⟨hne, hy⟩
    · rw [hnew, fresh_datum_eq] at hv ⊢
      cases hv
      exact ⟨at_plant v, hw, rfl⟩
    · rw [newdatum_ne hne] at hv ⊢
      rw [hat hy]
      exact hi.flat y Q ptr hy hv
  case row =>
    intro y Q hy hv
    rcases hloc hy with ⟨rfl, -⟩ | ⟨hne, hy⟩
    · rw [hnew, fresh_datum_eq] at hv
      cases hv
    · rw [htype hne, hat hy, newdatum_ne hne]
      rw [newdatum_ne hne] at hv
      exact hi.row y Q hy hv
  case slots =>
    intro y Q slots hy hs
    rcases hloc hy with ⟨rfl, -⟩ | ⟨hne, hy⟩
    · rw [hnew, fresh_datum_eq] at hs
      cases hs
    · rw [newdatum_ne hne] at hs
      obtain ⟨attrs, ht, hlen, hok⟩ := hi.slots y Q slots hy hs
      rw [htype hne]
      refine ⟨attrs, ht, hlen, ?_⟩
      intro i att slot hatt hsl
      have hslotok := hok i att slot hatt hsl
      cases slot with
      | null | absent =>
        have hplanted : (Q.child i).root < s.next := hi.planted y Q hy
        refine ⟨hslotok.1, ?_⟩
        rw [at_plant_old v hplanted]
        exact hslotok.2
      | dropped => exact hslotok
      | datum c =>
        obtain ⟨h1, h2, h3⟩ := hslotok
        refine ⟨h1, hold h2, ?_⟩
        rw [newdatum_ne (hi.ne_next h2)]
        exact h3
  case lined =>
    intro b y Q R i hb hy hab
    rcases hloc hb with ⟨rfl, rfl⟩ | ⟨hbne, hb⟩
    · rcases hloc hy with ⟨rfl, rfl⟩ | ⟨-, hy⟩
      · exact absurd hab (Place.not_child_above _ i)
      · exact absurd hab.1 (Nat.ne_of_gt (hi.planted y R hy))
    · rcases hloc hy with ⟨rfl, rfl⟩ | ⟨-, hy⟩
      · exact absurd hab.1 (Nat.ne_of_lt (hi.planted b Q hb))
      · rw [hslot hbne]
        exact hi.lined b y Q R i hb hy hab
  case refs =>
    intro y Q z hy hz
    rcases hloc hy with ⟨rfl, -⟩ | ⟨hne, hy⟩
    · rw [hnew, fresh_datum_eq] at hz
      cases hz
    · rw [newdatum_ne hne] at hz
      obtain ⟨h1, h2, R, i, h3, h4⟩ := hi.refs y Q z hy hz
      have hzne := hi.ne_next h3
      rw [newdatum_ne hzne]
      exact ⟨h1, h2, R, i, hold h3, by rw [hslot hzne]; exact h4⟩
  case bytes =>
    intro y Q ptr c hy hv hc
    rcases hloc hy with ⟨rfl, -⟩ | ⟨hne, hy⟩
    · obtain ⟨rfl, hneed⟩ := fresh_datum_chunk hv hc
      exact ⟨Nat.lt_succ_self _, hi.unused _ (Nat.le_refl _), Or.inl hneed⟩
    · rw [newdatum_ne hne] at hv ⊢
      obtain ⟨h1, h2, h3⟩ := hi.bytes y Q ptr c hy hv hc
      refine ⟨Nat.lt_succ_of_lt h1, h2, ?_⟩
      rcases h3 with hown | ⟨z, p, hz, hzv, hzc⟩
      · exact Or.inl hown
      · obtain ⟨-, -, R, -, hzloc, -⟩ := hi.refs y Q z hy hz
        exact Or.inr ⟨z, p, hz, by rw [newdatum_ne (hi.ne_next hzloc)]; exact hzv, hzc⟩
  case owned =>
    intro y hneed
    by_cases hne : y = h.next
    · subst hne
      obtain ⟨ptr, hv, hc⟩ := fresh_datum_owned hneed
      exact ⟨Nat.lt_succ_self _, ptr, _, hv, hc, Nat.lt_succ_self _, hi.unused _ (Nat.le_refl _)⟩
    · rw [newdatum_ne hne] at hneed ⊢
      obtain ⟨hlt, ptr, c, hv, hc, hlt', hfree⟩ := hi.owned y hneed
      exact ⟨Nat.lt_succ_of_lt hlt, ptr, c, hv, hc, Nat.lt_succ_of_lt hlt', hfree⟩
  case owners =>
    intro y z p p' hny hnz hp hp' hc
    by_cases hyne : y = h.next <;> by_cases hzne : z = h.next
    · rw [hyne, hzne]
    · subst hyne
      obtain ⟨ptr, hv, hptr⟩ := fresh_datum_owned hny
      rw [newdatum_ne hzne] at hnz hp'
      have heq : p = ptr := Option.some.inj (hp.symm.trans hv)
      rw [heq, hptr] at hc
      exact absurd hc.symm (hi.owned_old hnz hp')
    · subst hzne
      obtain ⟨ptr, hv, hptr⟩ := fresh_datum_owned hnz
      rw [newdatum_ne hyne] at hny hp
      have heq : p' = ptr := Option.some.inj (hp'.symm.trans hv)
      rw [heq, hptr] at hc
      exact absurd hc (hi.owned_old hny hp)
    · rw [newdatum_ne hyne] at hny hp
      rw [newdatum_ne hzne] at hnz hp'
      exact hi.owners y z p p' hny hnz hp hp' hc
  case byval =>
    intro y Q p hy hp hby
    rcases hloc hy with ⟨rfl, -⟩ | ⟨hne, hy⟩
    · unfold Heap.type at hby
      rw [hnew, fresh_datum_eq] at hp hby
      cases hp
      have hby' : (types.typeinfo oid).typbyval = true := hby
      simp [hby']
    · rw [htype hne] at hby
      rw [newdatum_ne hne] at hp
      exact hi.byval y Q p hy hp hby

theorem Marked.newdatum {marks : Marks} (hm : Marked types h s loc marks) (hi : Inv types h s loc)
    (oid : Oid) (v : Value α) :
    Marked types (pllua_newdatum types oid v h) (s.plant v)
      (Function.update loc h.next (some ⟨s.next, []⟩)) marks := by
  refine ⟨?_, ?_, fun Q hQ => hm.unused Q (Nat.le_of_succ_le hQ)⟩
  · intro y Q i attrs att slot hy ht hatt hs
    have hne : y ≠ h.next := by
      rintro rfl
      have hnew : ((pllua_newdatum types oid v h).datum h.next).deformed = none :=
        congrArg Datum.deformed (fresh_datum_eq (h := h) oid v)
      unfold Heap.slot at hs
      rw [hnew] at hs
      cases hs
    rw [Function.update_of_ne hne] at hy
    unfold Heap.type at ht
    unfold Heap.slot at hs
    rw [newdatum_ne hne] at ht hs
    have hok := hm.slots y Q i attrs att slot hy ht hatt hs
    cases slot with
    | null | dropped | absent => exact hok
    | datum c =>
      obtain ⟨-, -, -, -, -, hcloc, -⟩ := hi.slot_datum hy hs
      refine ⟨hok.1, ?_⟩
      rw [newdatum_ne (hi.ne_next hcloc)]
      exact hok.2
  · intro y Q i R hy hym hab
    by_cases hne : y = h.next
    · subst hne
      rw [Function.update_self, Option.some.injEq] at hy
      subst hy
      exact hm.unused R (Nat.le_of_eq hab.1)
    · rw [Function.update_of_ne hne] at hy
      rw [newdatum_ne hne] at hym
      exact hm.whole y Q i R hy hym hab

/-! ## Writes to a column -/

/-- The entry of a column that was written: a new datum, or nothing for a nil. -/
def written_slot (n : Id) : Option (Value α) → Slot
  | some _ => .datum n
  | none => .absent

/-- A new datum goes into the table of a row, or the entry goes. -/
def stored (types : Types) (x : Id) (i : Nat) (oid : Oid) (w : Option (Value α)) (h : Heap α) :
    Heap α :=
  let h' := match w with
    | some v => pllua_newdatum types oid v h
    | none => h
  h'.set x ((h'.datum x).set_slot i (written_slot h.next w))

/-- A row that is ready for a write, and a value of the type of the column, or none for a
null. -/
structure Storing (types : Types) (h : Heap α) (s : Forest α) (loc : Places) (x : Id)
    (P : Place) (i : Nat) (att : Attribute) (w : Option (Value α)) (attrs : List Attribute) :
    Prop where
  inv : Inv types h s loc
  place : loc x = some P
  type : h.type types x = .row attrs
  column : attrs[i]? = some att
  live : att.attisdropped = false
  wellformed : ∀ v, w = some v → Wellformed types att.atttypid v
  opened : ∀ y Q, loc y = some Q → Q.Above P → (h.datum y).modified = true

/-- Where the datums stand after the write. -/
def moved (loc : Places) (n : Id) (w : Option (Value α)) (L : Place) (fresh : Nat) : Places :=
  fun y => if w.isSome ∧ y = n then some L else (loc y).map (L.detach fresh)

section
variable {x : Id} {P : Place} {i : Nat} {att : Attribute} {w : Option (Value α)}
  {attrs : List Attribute}

theorem Storing.value (hs : Storing types h s loc x P i att w attrs) :
    (h.datum x).value = none :=
  hs.inv.value_of_modified hs.place (hs.opened x P hs.place P.above_refl)

/-- The row, and its column, are there in the forest. -/
theorem Storing.row (hs : Storing types h s loc x P i att w attrs) :
    ∃ cols, s.at P = some (.row cols) ∧ i < cols.length := by
  obtain ⟨-, -, -, attrs', cols, ht, hrow, hlen, -⟩ := hs.inv.row x P hs.place hs.value
  rw [hs.type] at ht
  cases ht
  refine ⟨cols, hrow, ?_⟩
  rw [hlen]
  exact (List.getElem?_eq_some_iff.mp hs.column).1

theorem Storing.moved_cases {y : Id} {Q' : Place} {n : Id} {L : Place} {fresh : Nat}
    (hy : moved loc n w L fresh y = some Q') :
    (∃ v, w = some v) ∧ y = n ∧ Q' = L ∨ ∃ Q, loc y = some Q ∧ Q' = L.detach fresh Q := by
  unfold moved at hy
  split at hy
  · rename_i heq
    exact Or.inl ⟨Option.isSome_iff_exists.mp heq.1, heq.2, (Option.some.inj hy).symm⟩
  · obtain ⟨Q, hQ, rfl⟩ := Option.map_eq_some_iff.mp hy
    exact Or.inr ⟨Q, hQ, rfl⟩

theorem moved_old {y n : Id} {Q L : Place} {fresh : Nat} (hne : y ≠ n) (hy : loc y = some Q) :
    moved loc n w L fresh y = some (L.detach fresh Q) := by
  unfold moved
  rw [if_neg fun h => hne h.2, hy]
  rfl

/-- The datums of the heap after the write. -/
theorem stored_other {y : Id} (hyx : y ≠ x) :
    (stored types x i att.atttypid w h).datum y = h.datum y ∨
      ∃ v, w = some v ∧ y = h.next ∧
        (stored types x i att.atttypid w h).datum y = fresh_datum types h att.atttypid v := by
  unfold stored Heap.set
  simp only [Function.update_of_ne hyx]
  cases hw : w with
  | none => exact Or.inl rfl
  | some v =>
    by_cases hyn : y = h.next
    · subst hyn
      exact Or.inr ⟨v, rfl, rfl, rfl⟩
    · exact Or.inl (newdatum_ne hyn)

theorem Storing.datum_old (hs : Storing types h s loc x P i att w attrs) {y : Id} {Q : Place}
    (hy : loc y = some Q) (hne : y ≠ x) :
    (stored types x i att.atttypid w h).datum y = h.datum y := by
  rcases stored_other hne with heq | ⟨-, -, hn, -⟩
  · exact heq
  · exact absurd hn (hs.inv.ne_next hy)

theorem Storing.datum_self (hs : Storing types h s loc x P i att w attrs) :
    (stored types x i att.atttypid w h).datum x =
      (h.datum x).set_slot i (written_slot h.next w) := by
  unfold stored Heap.set
  simp only [Function.update_self]
  cases w with
  | none => rfl
  | some v =>
    simp only
    rw [newdatum_ne (hs.inv.ne_next hs.place)]

theorem Storing.datum_new (hs : Storing types h s loc x P i att w attrs) {v : Value α}
    (hw : w = some v) :
    (stored types x i att.atttypid w h).datum h.next = fresh_datum types h att.atttypid v := by
  subst hw
  unfold stored Heap.set
  simp only [Function.update_of_ne (hs.inv.ne_next hs.place).symm]
  rfl

theorem stored_calm : (stored types x i att.atttypid w h).fault = h.fault := by
  cases w <;> rfl

theorem stored_freed : (stored types x i att.atttypid w h).freed = h.freed := by
  cases w <;> rfl

theorem Storing.next (hs : Storing types h s loc x P i att w attrs) :
    h.next ≤ (stored types x i att.atttypid w h).next ∧
      h.next_chunk ≤ (stored types x i att.atttypid w h).next_chunk ∧
      ∀ v, w = some v → (stored types x i att.atttypid w h).next = h.next + 1 ∧
        (stored types x i att.atttypid w h).next_chunk = h.next_chunk + 1 := by
  cases w with
  | none => exact ⟨Nat.le_refl _, Nat.le_refl _, nofun⟩
  | some v => exact ⟨Nat.le_succ _, Nat.le_succ _, fun _ _ => ⟨rfl, rfl⟩⟩

/-- An old datum keeps everything but the entry of the column. -/
theorem Storing.keep (hs : Storing types h s loc x P i att w attrs) {y : Id} {Q : Place}
    (hy : loc y = some Q) : ∃ deformed, (stored types x i att.atttypid w h).datum y =
      { h.datum y with deformed } := by
  by_cases hne : y = x
  · subst hne
    exact ⟨_, hs.datum_self⟩
  · exact ⟨_, hs.datum_old hy hne⟩

/-- A datum after the write, in use or not. -/
theorem Storing.either (hs : Storing types h s loc x P i att w attrs) (y : Id) :
    (∃ deformed, (stored types x i att.atttypid w h).datum y = { h.datum y with deformed }) ∨
      ∃ v, w = some v ∧ y = h.next ∧
        (stored types x i att.atttypid w h).datum y = fresh_datum types h att.atttypid v := by
  by_cases hne : y = x
  · subst hne
    exact Or.inl ⟨_, hs.datum_self⟩
  · rcases stored_other hne with heq | hnew
    · exact Or.inl ⟨_, heq⟩
    · exact Or.inr hnew

theorem Storing.type_old (hs : Storing types h s loc x P i att w attrs) {y : Id} {Q : Place}
    (hy : loc y = some Q) :
    (stored types x i att.atttypid w h).type types y = h.type types y := by
  obtain ⟨_, hk⟩ := hs.keep hy
  unfold Heap.type
  rw [hk]

/-- The entries of the tables after the write. -/
theorem Storing.slot_old (hs : Storing types h s loc x P i att w attrs) {y : Id} {Q : Place} {j : Nat}
    (hy : loc y = some Q) (hne : Q.child j ≠ P.child i) :
    (stored types x i att.atttypid w h).slot y j = h.slot y j := by
  unfold Heap.slot
  by_cases hyx : y = x
  · subst hyx
    have hQ : Q = P := Option.some.inj (hy.symm.trans hs.place)
    subst hQ
    have hij : i ≠ j := by
      rintro rfl
      exact hne rfl
    rw [hs.datum_self]
    unfold Datum.set_slot
    cases (h.datum y).deformed with
    | none => rfl
    | some slots => exact List.getElem?_set_ne hij
  · rw [hs.datum_old hy hyx]

theorem Storing.slot_self (hs : Storing types h s loc x P i att w attrs) :
    (stored types x i att.atttypid w h).slot x i = some (written_slot h.next w) := by
  obtain ⟨-, -, hd, -⟩ := hs.inv.row x P hs.place hs.value
  obtain ⟨slots, hd⟩ := Option.isSome_iff_exists.mp hd
  obtain ⟨attrs', ht, hlen, -⟩ := hs.inv.slots x P slots hs.place hd
  rw [hs.type] at ht
  cases ht
  have hlt : i < slots.length := by
    rw [hlen]
    exact (List.getElem?_eq_some_iff.mp hs.column).1
  unfold Heap.slot
  rw [hs.datum_self]
  simp [Datum.set_slot, hd, hlt]

/-- The column that is written belongs to the row only. -/
theorem Storing.column_of (hs : Storing types h s loc x P i att w attrs) {y : Id} {Q : Place} {j : Nat}
    (hy : loc y = some Q) (heq : Q.child j = P.child i) : y = x ∧ Q = P ∧ j = i := by
  obtain ⟨rfl, rfl⟩ := Place.child_inj heq
  exact ⟨hs.inv.inj y x Q hy hs.place, rfl, rfl⟩

/-- What stands at the places of datums that are not exploded does not change. -/
theorem Storing.at_unmodified (hs : Storing types h s loc x P i att w attrs) {y : Id} {Q : Place}
    (hy : loc y = some Q) (hm : (h.datum y).modified = false) :
    (s.assign (P.child i) w).at ((P.child i).detach s.next Q) = s.at Q := by
  have hroot : (P.child i).root < s.next := hs.inv.planted x P hs.place
  by_cases hab : (P.child i).Above Q
  · exact at_assign_below w hroot hab
  · rw [detach_of_not_above hab]
    refine at_assign_beside w (hs.inv.planted y Q hy) hab ?_
    intro hQ
    rcases Place.above_of_child hQ with rfl | hQP
    · exact hab (Place.above_refl _)
    · rw [hs.opened y Q hy hQP] at hm
      cases hm

/-- An exploded row stays a row. -/
theorem Storing.at_row (hs : Storing types h s loc x P i att w attrs) {y : Id} {Q : Place}
    {attrs' : List Attribute} {cols : List (Option (Value α))} (hy : loc y = some Q)
    (ht : h.type types y = .row attrs') (hrow : s.at Q = some (.row cols))
    (hlen : cols.length = attrs'.length)
    (hdropped : ∀ (j : Nat) (att : Attribute) (v : Value α), attrs'[j]? = some att →
      cols[j]? = some (some v) → att.attisdropped = false) :
    ∃ cols', (s.assign (P.child i) w).at ((P.child i).detach s.next Q) = some (.row cols') ∧
      cols'.length = attrs'.length ∧
      ∀ (j : Nat) (att : Attribute) (v : Value α), attrs'[j]? = some att →
        cols'[j]? = some (some v) → att.attisdropped = false := by
  have hroot : (P.child i).root < s.next := hs.inv.planted x P hs.place
  by_cases hab : (P.child i).Above Q
  · exact ⟨cols, (at_assign_below w hroot hab).trans hrow, hlen, hdropped⟩
  · rw [detach_of_not_above hab]
    by_cases hQ : Q.Above (P.child i)
    · have hne : Q ≠ P.child i := by
        rintro rfl
        exact hab (Place.above_refl _)
      obtain ⟨j, c, hj, hat⟩ := at_assign_row w hrow hQ hne
      refine ⟨cols.set j c, hat, by simp [hlen], ?_⟩
      intro k att' u hatt hu
      by_cases hjk : j = k
      · subst hjk
        -- the column holds a datum, or is the one that is written
        rcases Place.above_of_child hj with heq | habove
        · obtain ⟨rfl, rfl, rfl⟩ := hs.column_of hy heq
          rw [hs.type] at ht
          cases ht
          rw [hs.column] at hatt
          cases hatt
          exact hs.live
        · obtain ⟨d, hd⟩ := hs.inv.lined y x Q P j hy hs.place habove
          obtain ⟨attrs'', att'', ht', hatt', hlive, -⟩ := hs.inv.slot_datum hy hd
          rw [ht] at ht'
          cases ht'
          rw [hatt] at hatt'
          cases hatt'
          exact hlive
      · rw [List.getElem?_set_ne hjk] at hu
        exact hdropped k att' u hatt hu
    · exact ⟨cols, (at_assign_beside w (hs.inv.planted y Q hy) hab hQ).trans hrow, hlen,
        hdropped⟩

theorem Storing.slots (hs : Storing types h s loc x P i att w attrs) {y : Id} {Q : Place}
    {slots : List Slot} (hy : loc y = some Q)
    (hd : ((stored types x i att.atttypid w h).datum y).deformed = some slots) :
    ∃ attrs', (stored types x i att.atttypid w h).type types y = .row attrs' ∧
      slots.length = attrs'.length ∧ ∀ j att' slot, attrs'[j]? = some att' →
        slots[j]? = some slot → SlotOk (stored types x i att.atttypid w h)
          (s.assign (P.child i) w) (moved loc h.next w (P.child i) s.next)
          ((P.child i).detach s.next Q) j att' slot := by
  have hi := hs.inv
  have hroot : (P.child i).root < s.next := hi.planted x P hs.place
  rw [hs.type_old hy]
  have hslots : ∀ j, slots[j]? = (stored types x i att.atttypid w h).slot y j := by
    intro j
    unfold Heap.slot
    rw [hd]
    rfl
  have holdd : ∃ old, (h.datum y).deformed = some old ∧ old.length = slots.length := by
    by_cases hne : y = x
    · subst hne
      rw [hs.datum_self] at hd
      obtain ⟨old, hold, rfl⟩ := Option.map_eq_some_iff.mp hd
      exact ⟨old, hold, by simp⟩
    · rw [hs.datum_old hy hne] at hd
      exact ⟨slots, hd, rfl⟩
  obtain ⟨old, hold, hlen⟩ := holdd
  obtain ⟨attrs', ht, hlen', hok⟩ := hi.slots y Q old hy hold
  refine ⟨attrs', ht, hlen.symm.trans hlen', ?_⟩
  intro j att' slot hatt hslot
  rw [hslots] at hslot
  by_cases heq : Q.child j = P.child i
  · obtain ⟨rfl, rfl, rfl⟩ := hs.column_of hy heq
    rw [hs.slot_self] at hslot
    cases hslot
    rw [hs.type] at ht
    cases ht
    rw [hs.column] at hatt
    cases hatt
    cases hw : w with
    | none =>
      refine ⟨hs.live, ?_⟩
      obtain ⟨cols, hrow, hlt⟩ := hs.row
      rw [detach_of_not_above (Q.not_child_above j)]
      exact at_assign_self none hrow hlt
    | some v =>
      refine ⟨hs.live, ?_, ?_⟩
      · rw [detach_of_not_above (Q.not_child_above j)]
        exact if_pos ⟨rfl, rfl⟩
      · rw [← hw, hs.datum_new hw, fresh_datum_eq]
  · rw [hs.slot_old hy heq] at hslot
    have hchild := detach_child s.next j heq
    have hslot' : old[j]? = some slot := by
      unfold Heap.slot at hslot
      rw [hold] at hslot
      exact hslot
    have hslotok := hok j att' slot hatt hslot'
    cases slot with
    | dropped => exact hslotok
    | datum c =>
      obtain ⟨h1, h2, h3⟩ := hslotok
      refine ⟨h1, ?_, ?_⟩
      · rw [← hchild]
        exact moved_old (hi.ne_next h2) h2
      · obtain ⟨_, hk⟩ := hs.keep h2
        rw [hk]
        exact h3
    | null | absent =>
      obtain ⟨h1, h2⟩ := hslotok
      refine ⟨h1, ?_⟩
      rw [← hchild]
      by_cases hab : (P.child i).Above (Q.child j)
      · exact (at_assign_below w hroot hab).trans h2
      · rw [detach_of_not_above hab]
        have hplanted : (Q.child j).root < s.next := hi.planted y Q hy
        refine (at_assign_beside w hplanted hab ?_).trans h2
        intro habove
        rcases Place.above_of_child habove with heq' | habove
        · exact heq heq'
        · obtain ⟨d, hd'⟩ := hi.lined y x Q P j hy hs.place habove
          rw [hslot] at hd'
          cases hd'

theorem Storing.lined (hs : Storing types h s loc x P i att w attrs) {b y : Id} {Q' R' : Place}
    {j : Nat} (hb : moved loc h.next w (P.child i) s.next b = some Q')
    (hy : moved loc h.next w (P.child i) s.next y = some R') (hab : (Q'.child j).Above R') :
    ∃ c, (stored types x i att.atttypid w h).slot b j = some (.datum c) := by
  have hi := hs.inv
  have hroot : (P.child i).root < s.next := hi.planted x P hs.place
  rcases Storing.moved_cases hb with ⟨-, rfl, rfl⟩ | ⟨Q, hbQ, rfl⟩
  · -- everything that stood below the column is detached
    exfalso
    rcases Storing.moved_cases hy with ⟨hw, rfl, rfl⟩ | ⟨R, hyR, rfl⟩
    · exact Place.not_child_above _ j hab
    · by_cases hR : (P.child i).Above R
      · unfold Place.detach at hab
        rw [if_pos hR] at hab
        exact absurd hab.1 (Nat.ne_of_lt hroot)
      · rw [detach_of_not_above hR] at hab
        exact hR ((Place.above_child _ j).trans hab)
  · rcases Storing.moved_cases hy with ⟨hw, rfl, rfl⟩ | ⟨R, hyR, rfl⟩
    · have hQ : ¬ (P.child i).Above Q := by
        intro hQ
        unfold Place.detach at hab
        rw [if_pos hQ] at hab
        exact absurd hab.1 (Nat.ne_of_gt hroot)
      rw [detach_of_not_above hQ] at hab
      rcases Place.above_of_child hab with heq | habove
      · obtain ⟨rfl, rfl, rfl⟩ := hs.column_of hbQ heq
        obtain ⟨v, rfl⟩ := hw
        exact ⟨h.next, hs.slot_self⟩
      · obtain ⟨c, hc⟩ := hi.lined b x Q P j hbQ hs.place habove
        refine ⟨c, (hs.slot_old hbQ ?_).trans hc⟩
        intro heq
        rw [heq] at habove
        exact P.not_child_above i habove
    · obtain ⟨habove, hne⟩ := child_above_of_detach hroot (hi.planted b Q hbQ) (hi.planted y R hyR) hab
      obtain ⟨c, hc⟩ := hi.lined b y Q R j hbQ hyR habove
      exact ⟨c, (hs.slot_old hbQ hne).trans hc⟩

/-- The write keeps the invariant. What stood in the column is a value of its own. -/
theorem Storing.store (hs : Storing types h s loc x P i att w attrs) :
    Inv types (stored types x i att.atttypid w h) (s.assign (P.child i) w)
      (moved loc h.next w (P.child i) s.next) := by
  have hi := hs.inv
  have hroot : (P.child i).root < s.next := hi.planted x P hs.place
  constructor
  case calm => exact stored_calm.trans hi.calm
  case unused =>
    intro c hc
    rw [stored_freed]
    exact hi.unused c (Nat.le_trans hs.next.2.1 hc)
  case alive =>
    intro y Q' hy'
    rcases Storing.moved_cases hy' with ⟨⟨v, hw⟩, rfl, -⟩ | ⟨Q, hy, -⟩
    · rw [hs.datum_new hw, fresh_datum_eq]
      refine ⟨?_, rfl, rfl⟩
      rw [(hs.next.2.2 v hw).1]
      exact Nat.lt_succ_self _
    · obtain ⟨_, hk⟩ := hs.keep hy
      rw [hk]
      obtain ⟨h1, h2⟩ := hi.alive y Q hy
      exact ⟨Nat.lt_of_lt_of_le h1 hs.next.1, h2⟩
  case planted =>
    intro y Q' hy'
    rcases Storing.moved_cases hy' with ⟨-, -, rfl⟩ | ⟨Q, hy, rfl⟩
    · exact Nat.lt_succ_of_lt hroot
    · unfold Place.detach
      split
      · exact Nat.lt_succ_self _
      · exact Nat.lt_succ_of_lt (hi.planted y Q hy)
  case inj =>
    have hL : ∀ {z R}, loc z = some R → P.child i ≠ (P.child i).detach s.next R := by
      intro z R hz heq
      unfold Place.detach at heq
      split at heq
      · exact absurd (congrArg Place.root heq) (Nat.ne_of_lt hroot)
      · rename_i hnot
        exact hnot (heq ▸ Place.above_refl _)
    intro y z Q' hy' hz'
    rcases Storing.moved_cases hy' with ⟨⟨v, hw⟩, rfl, rfl⟩ | ⟨Q, hy, rfl⟩ <;>
      rcases Storing.moved_cases hz' with ⟨-, rfl, hQ⟩ | ⟨R, hz, hQ⟩
    · rfl
    · exact absurd hQ (hL hz)
    · exact absurd hQ.symm (hL hy)
    · have heq := detach_inj (hi.planted y Q hy) (hi.planted z R hz) hQ
      subst heq
      exact hi.inj y z Q hy hz
  case flat =>
    intro y Q' ptr hy' hv
    rcases Storing.moved_cases hy' with ⟨⟨v, hw⟩, rfl, rfl⟩ | ⟨Q, hy, rfl⟩
    · rw [hs.datum_new hw, fresh_datum_eq] at hv ⊢
      cases hv
      obtain ⟨cols, hrow, hlt⟩ := hs.row
      exact ⟨(at_assign_self w hrow hlt).trans hw, hs.wellformed v hw, rfl⟩
    · obtain ⟨_, hk⟩ := hs.keep hy
      rw [hk] at hv ⊢
      obtain ⟨h1, h2, h3⟩ := hi.flat y Q ptr hy hv
      exact ⟨(hs.at_unmodified hy h3).trans h1, h2, h3⟩
  case row =>
    intro y Q' hy' hv
    rcases Storing.moved_cases hy' with ⟨⟨v, hw⟩, rfl, -⟩ | ⟨Q, hy, rfl⟩
    · rw [hs.datum_new hw, fresh_datum_eq] at hv
      cases hv
    · rw [hs.type_old hy]
      have hvold : (h.datum y).value = none := by
        obtain ⟨_, hk⟩ := hs.keep hy
        rw [hk] at hv
        exact hv
      obtain ⟨h1, h2, h3, attrs', cols, h4, h5, h6, h7⟩ := hi.row y Q hy hvold
      obtain ⟨cols', h8, h9, h10⟩ := hs.at_row hy h4 h5 h6 h7
      refine ⟨?_, ?_, ?_, attrs', cols', h4, h8, h9, h10⟩
      · obtain ⟨_, hk⟩ := hs.keep hy
        rw [hk]
        exact h1
      · obtain ⟨_, hk⟩ := hs.keep hy
        rw [hk]
        exact h2
      · by_cases hne : y = x
        · subst hne
          rw [hs.datum_self]
          simpa [Datum.set_slot] using h3
        · rw [hs.datum_old hy hne]
          exact h3
  case slots =>
    intro y Q' slots hy' hd
    rcases Storing.moved_cases hy' with ⟨⟨v, hw⟩, rfl, -⟩ | ⟨Q, hy, rfl⟩
    · rw [hs.datum_new hw, fresh_datum_eq] at hd
      cases hd
    · exact hs.slots hy hd
  case lined => exact fun b y Q R j hb hy hab => hs.lined hb hy hab
  case refs =>
    intro y Q' z hy' hz
    rcases Storing.moved_cases hy' with ⟨⟨v, hw⟩, rfl, -⟩ | ⟨Q, hy, rfl⟩
    · rw [hs.datum_new hw, fresh_datum_eq] at hz
      cases hz
    · obtain ⟨_, hk⟩ := hs.keep hy
      rw [hk] at hz
      obtain ⟨h1, h2, R, j, h3, h4⟩ := hi.refs y Q z hy hz
      obtain ⟨_, hkz⟩ := hs.keep h3
      have hne : R.child j ≠ P.child i := by
        intro heq
        obtain ⟨rfl, rfl, rfl⟩ := hs.column_of h3 heq
        rw [hs.opened z R h3 R.above_refl] at h2
        cases h2
      refine ⟨h1, ?_, _, j, moved_old (hi.ne_next h3) h3, (hs.slot_old h3 hne).trans h4⟩
      rw [hkz]
      exact h2
  case bytes =>
    intro y Q' ptr c hy' hv hc
    rcases Storing.moved_cases hy' with ⟨⟨v, hw⟩, rfl, -⟩ | ⟨Q, hy, rfl⟩
    · rw [hs.datum_new hw] at hv ⊢
      obtain ⟨rfl, hneed⟩ := fresh_datum_chunk hv hc
      rw [(hs.next.2.2 v hw).2, stored_freed]
      exact ⟨Nat.lt_succ_self _, hi.unused _ (Nat.le_refl _), Or.inl hneed⟩
    · obtain ⟨_, hk⟩ := hs.keep hy
      rw [hk] at hv ⊢
      obtain ⟨h1, h2, h3⟩ := hi.bytes y Q ptr c hy hv hc
      refine ⟨Nat.lt_of_lt_of_le h1 hs.next.2.1, (congrFun stored_freed c).trans h2, ?_⟩
      rcases h3 with hown | ⟨z, p, hz, hzv, hzc⟩
      · exact Or.inl hown
      · obtain ⟨-, -, R, -, hzloc, -⟩ := hi.refs y Q z hy hz
        obtain ⟨_, hkz⟩ := hs.keep hzloc
        refine Or.inr ⟨z, p, hz, ?_, hzc⟩
        rw [hkz]
        exact hzv
  case owned =>
    intro y hneed
    rcases hs.either y with ⟨_, hk⟩ | ⟨v, hw, rfl, hk⟩
    · rw [hk] at hneed ⊢
      obtain ⟨hlt, p, c, hp, hc, hlt', hfree⟩ := hi.owned y hneed
      exact ⟨Nat.lt_of_lt_of_le hlt hs.next.1, p, c, hp, hc, Nat.lt_of_lt_of_le hlt' hs.next.2.1,
        (congrFun stored_freed c).trans hfree⟩
    · rw [hk] at hneed ⊢
      obtain ⟨p, hp, hc⟩ := fresh_datum_owned hneed
      obtain ⟨hn, hnc⟩ := hs.next.2.2 v hw
      rw [hn, hnc, stored_freed]
      exact ⟨Nat.lt_succ_self _, p, _, hp, hc, Nat.lt_succ_self _, hi.unused _ (Nat.le_refl _)⟩
  case owners =>
    intro y z p p' hny hnz hp hp' hc
    rcases hs.either y with ⟨_, hky⟩ | ⟨v, hw, rfl, hky⟩ <;>
      rcases hs.either z with ⟨_, hkz⟩ | ⟨v', hw', rfl, hkz⟩
    · rw [hky] at hny hp
      rw [hkz] at hnz hp'
      exact hi.owners y z p p' hny hnz hp hp' hc
    · rw [hky] at hny hp
      rw [hkz] at hnz hp'
      obtain ⟨ptr, hv, hptr⟩ := fresh_datum_owned hnz
      have heq : p' = ptr := Option.some.inj (hp'.symm.trans hv)
      rw [heq, hptr] at hc
      exact absurd hc (hi.owned_old hny hp)
    · rw [hkz] at hnz hp'
      rw [hky] at hny hp
      obtain ⟨ptr, hv, hptr⟩ := fresh_datum_owned hny
      have heq : p = ptr := Option.some.inj (hp.symm.trans hv)
      rw [heq, hptr] at hc
      exact absurd hc.symm (hi.owned_old hnz hp')
    · rfl
  case byval =>
    intro y Q' p hy' hp hby
    rcases Storing.moved_cases hy' with ⟨⟨v, hw⟩, rfl, -⟩ | ⟨Q, hy, -⟩
    · unfold Heap.type at hby
      rw [hs.datum_new hw, fresh_datum_eq] at hp hby
      cases hp
      have hby' : (types.typeinfo att.atttypid).typbyval = true := hby
      simp [hby']
    · rw [hs.type_old hy] at hby
      obtain ⟨_, hk⟩ := hs.keep hy
      rw [hk] at hp
      exact hi.byval y Q p hy hp hby

/-- The marks after a write to a column: what stands there now is of one piece, and what stood
there takes its marks along. -/
def Marks.assign (marks : Marks) (L : Place) (fresh : Nat) (m : Mark) : Marks := fun Q =>
  if L.Above Q then if Q = L then m else .plain
  else if Q.root = fresh then marks (L.below Q.path)
  else marks Q

/-- The mark of a column that was written. -/
def written_mark : Option (Value α) → Mark
  | some _ => .raw
  | none => .cleared

theorem Marks.assign_self (marks : Marks) (L : Place) (fresh : Nat) (m : Mark) :
    marks.assign L fresh m L = m := by
  unfold Marks.assign
  rw [if_pos L.above_refl, if_pos rfl]

theorem Marks.assign_below (marks : Marks) {L Q : Place} (fresh : Nat) (m : Mark)
    (hab : L.Above Q) (hne : Q ≠ L) : marks.assign L fresh m Q = .plain := by
  unfold Marks.assign
  rw [if_pos hab, if_neg hne]

theorem Marks.assign_detach (marks : Marks) {L Q : Place} {fresh : Nat} (m : Mark)
    (hL : L.root < fresh) (hQ : Q.root < fresh) :
    marks.assign L fresh m (L.detach fresh Q) = marks Q := by
  by_cases hab : L.Above Q
  · obtain ⟨q, rfl⟩ := hab.below
    have hdetach : L.detach fresh (L.below q) = ⟨fresh, q⟩ := detach_below fresh q
    have hnot : ¬ L.Above ⟨fresh, q⟩ := fun h => absurd h.1 (Nat.ne_of_lt hL)
    rw [hdetach]
    unfold Marks.assign
    rw [if_neg hnot, if_pos rfl]
  · rw [detach_of_not_above hab]
    unfold Marks.assign
    rw [if_neg hab, if_neg (Nat.ne_of_lt hQ)]

/-- A write goes with the marks. -/
theorem Storing.marked (hs : Storing types h s loc x P i att w attrs) {marks : Marks}
    (hm : Marked types h s loc marks) :
    Marked types (stored types x i att.atttypid w h) (s.assign (P.child i) w)
      (moved loc h.next w (P.child i) s.next)
      (marks.assign (P.child i) s.next (written_mark w)) := by
  have hi := hs.inv
  have hroot : (P.child i).root < s.next := hi.planted x P hs.place
  refine ⟨?_, ?_, ?_⟩
  · intro y Q' j attrs' att' slot hy' ht hatt hslot
    rcases Storing.moved_cases hy' with ⟨⟨v, hw⟩, rfl, -⟩ | ⟨Q, hy, rfl⟩
    · unfold Heap.slot at hslot
      rw [hs.datum_new hw, fresh_datum_eq] at hslot
      cases hslot
    · by_cases heq : Q.child j = P.child i
      · obtain ⟨rfl, rfl, rfl⟩ := hs.column_of hy heq
        rw [hs.slot_self] at hslot
        cases hslot
        rw [detach_of_not_above (Q.not_child_above j), Marks.assign_self]
        cases hw : w with
        | none => rfl
        | some v =>
          refine ⟨nofun, ?_⟩
          rw [← hw, hs.datum_new hw, fresh_datum_eq, hw]
          rfl
      · rw [hs.slot_old hy heq] at hslot
        rw [hs.type_old hy] at ht
        rw [← detach_child s.next j heq,
          marks.assign_detach _ hroot (Q := Q.child j) (hi.planted y Q hy)]
        have hok := hm.slots y Q j attrs' att' slot hy ht hatt hslot
        cases slot with
        | null | dropped | absent => exact hok
        | datum c =>
          obtain ⟨-, -, -, -, -, hcloc, -⟩ := hi.slot_datum hy hslot
          obtain ⟨_, hk⟩ := hs.keep hcloc
          refine ⟨hok.1, ?_⟩
          rw [hk]
          exact hok.2
  · intro y Q' j R hy' hym hab
    rcases Storing.moved_cases hy' with ⟨-, rfl, rfl⟩ | ⟨Q, hy, rfl⟩
    · refine Marks.assign_below marks _ _ ((Place.above_child _ j).trans hab) ?_
      rintro rfl
      exact Place.not_child_above _ j hab
    · obtain ⟨_, hk⟩ := hs.keep hy
      rw [hk] at hym
      by_cases hLQ : (P.child i).Above Q
      · obtain ⟨q, rfl⟩ := hLQ.below
        obtain ⟨r, rfl⟩ := hab.below
        have hdetach : (P.child i).detach s.next ((P.child i).below q) = ⟨s.next, q⟩ :=
          detach_below s.next q
        have hback : (((P.child i).detach s.next ((P.child i).below q)).child j).below r =
            (P.child i).detach s.next ((((P.child i).below q).child j).below r) := by
          have hpath : (((P.child i).below q).child j).below r =
              (P.child i).below (q ++ j :: r) := by
            simp [Place.below, Place.child]
          rw [hdetach, hpath]
          exact (by simp [Place.below, Place.child] : Place.below (Place.child ⟨s.next, q⟩ j) r =
            ⟨s.next, q ++ j :: r⟩).trans (detach_below s.next _).symm
        have hunder : ((((P.child i).below q).child j).below r).root < s.next := hroot
        rw [hback, marks.assign_detach _ hroot hunder]
        exact hm.whole y _ j _ hy hym (Place.above_below _ r)
      · rw [detach_of_not_above hLQ] at hab
        have hplain := hm.whole y Q j R hy hym hab
        by_cases hLR : (P.child i).Above R
        · refine Marks.assign_below marks _ _ hLR ?_
          rintro rfl
          have hQP : Q.Above P := by
            rcases Place.above_of_child hab with heq | hQP
            · rw [(Place.child_inj heq).1]
              exact P.above_refl
            · exact (Q.above_child j).trans hQP
          rw [hs.opened y Q hy hQP] at hym
          cases hym
        · have hRroot : R.root < s.next := hab.1 ▸ hi.planted y Q hy
          have hkeep := marks.assign_detach (written_mark w) hroot hRroot
          rw [detach_of_not_above hLR] at hkeep
          rw [hkeep]
          exact hplain
  · intro Q hQ
    have hne : Q.root ≠ s.next := Nat.ne_of_gt hQ
    have hab : ¬ (P.child i).Above Q := by
      intro hab
      exact absurd (hab.1 ▸ hroot) (Nat.not_lt_of_le (Nat.le_of_succ_le hQ))
    unfold Marks.assign
    rw [if_neg hab, if_neg hne]
    exact hm.unused Q (Nat.le_of_succ_le hQ)

end

end

end pllua.datums
