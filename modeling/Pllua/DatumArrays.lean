-- Arrays among the datums: an array is expanded into memory of its own before an element is
-- read or written, and a write changes it where it stands.
import Pllua.DatumCasts

open pllua.catalog pllua.records

namespace pllua.datums

section
variable {α : Type} {types : Types} {pg : Backend α types} {h : Heap α} {s : Forest α}
  {loc : Places} {marks : Marks}

/-! ## Expansion -/

theorem Rested.of_kept {h' : Heap α} {x : Id} (hkept : ∀ y, Kept (h.datum y) (h'.datum y))
    (hr : Rested h x) : Rested h' x := by
  intro hm i c hc
  obtain ⟨_, _, hx⟩ := hkept x
  obtain ⟨_, _, hcd⟩ := hkept c
  rw [hx] at hm
  rw [slot_of_kept (hkept x)] at hc
  rw [hcd]
  exact hr hm i c hc

theorem Wellformed.bytes {oid : Oid} {v : Value α} (hw : Wellformed types oid v)
    (hflat : (types.typeinfo oid).is_row = false) : ∃ bytes, v = .flat bytes := by
  cases hw with
  | flat _ => exact ⟨_, rfl⟩
  | row ht _ _ _ =>
    rw [ht] at hflat
    cases hflat

/-- A datum that is no row holds bytes. -/
theorem Inv.flat_bytes (hi : Inv types h s loc) {x : Id} {P : Place} (hx : loc x = some P)
    (hflat : (h.type types x).is_row = false) :
    ∃ ptr bytes, (h.datum x).value = some ptr ∧ ptr.content = .flat bytes ∧
      s.at P = some (.flat bytes) ∧ (h.datum x).modified = false ∧ h.content x = .ok (.flat bytes) := by
  cases hv : (h.datum x).value with
  | none =>
    obtain ⟨-, -, -, attrs, _, ht, -⟩ := hi.row x P hx hv
    rw [ht] at hflat
    cases hflat
  | some ptr =>
    obtain ⟨hat, hw, hm⟩ := hi.flat x P ptr hx hv
    have hcontent := hi.content_eq hx hv
    obtain ⟨bytes, hbytes⟩ := hw.bytes hflat
    rw [hbytes] at hat hcontent
    exact ⟨ptr, bytes, rfl, hbytes, hat, hm, hcontent⟩

theorem array_value_settled (hs : Settled types h s loc marks) {x : Id} {P : Place} {elemtype : Oid}
    (hx : loc x = some P) (ht : h.type types x = .array elemtype) :
    Settled types (pllua_datum_array_value x h) s loc marks ∧
      ∀ y, Kept (h.datum y) ((pllua_datum_array_value x h).datum y) := by
  obtain ⟨ptr, bytes, hv, -, -, -, -⟩ := hs.inv.flat_bytes hx (by rw [ht]; rfl)
  unfold pllua_datum_array_value
  simp only [hv]
  split
  · exact ⟨hs, fun y => Kept.refl _⟩
  · rw [hs.inv.use_eq hx hv]
    have hinv := @Inv.own_chunk α types h s loc hs.inv x P ptr ⟨ptr.chunk, true, ptr.content⟩ hx hv
      rfl (by rw [ht]; rfl) (by rw [ht]; rfl)
    have hkept := fun y => @own_chunk_kept α h x y ⟨ptr.chunk, true, ptr.content⟩
    exact ⟨⟨hinv, fun y Q hy => (hs.rest y Q hy).of_kept hkept,
      hs.marked.of_unmarked fun y => (hkept y).unmarked⟩, hkept⟩

/-! ## Writes to an element -/

/-- The array of a datum is replaced where it stands. -/
def overwritten (x : Id) (ptr : Ptr α) (bytes : α) (h : Heap α) : Heap α :=
  h.set x { h.datum x with value := some { ptr with content := .flat bytes } }

/-- A value without columns that no row has in its tuple. -/
structure Writing (types : Types) (h : Heap α) (s : Forest α) (loc : Places) (marks : Marks)
    (x : Id) (P : Place) (ptr : Ptr α) : Prop where
  settled : Settled types h s loc marks
  place : loc x = some P
  bare : (h.type types x).is_row = false
  value : (h.datum x).value = some ptr
  alone : (h.datum x).datumref = none

section
variable {x : Id} {P : Place} {ptr : Ptr α} {bytes : α}

theorem overwritten_self : (overwritten x ptr bytes h).datum x =
    { h.datum x with value := some { ptr with content := .flat bytes } } :=
  Function.update_self _ _ _

theorem overwritten_ne {y : Id} (hne : y ≠ x) :
    (overwritten x ptr bytes h).datum y = h.datum y := Function.update_of_ne hne _ _

/-- Everything but the value stays. -/
theorem overwritten_keep (y : Id) : ∃ value, (overwritten x ptr bytes h).datum y =
    { h.datum y with value } := by
  by_cases hne : y = x
  · subst hne
    exact ⟨_, overwritten_self⟩
  · rw [overwritten_ne hne]
    exact ⟨_, rfl⟩

theorem overwritten_slot (y : Id) (i : Nat) : (overwritten x ptr bytes h).slot y i = h.slot y i := by
  obtain ⟨_, hk⟩ := @overwritten_keep α h x ptr bytes y
  unfold Heap.slot
  rw [hk]

theorem overwritten_type (y : Id) :
    (overwritten x ptr bytes h).type types y = h.type types y := by
  obtain ⟨_, hk⟩ := @overwritten_keep α h x ptr bytes y
  unfold Heap.type
  rw [hk]

theorem overwritten_unmarked (y : Id) :
    Unmarked (h.datum y) ((overwritten x ptr bytes h).datum y) := by
  obtain ⟨_, hk⟩ := @overwritten_keep α h x ptr bytes y
  rw [hk]
  exact ⟨rfl, rfl, rfl, id⟩

/-- The rows around the value are exploded. -/
theorem Writing.opened (hw : Writing types h s loc marks x P ptr) {y : Id} {Q : Place}
    (hy : loc y = some Q) (hab : Q.Above P) : y = x ∨ (h.datum y).modified = true := by
  by_contra hnot
  rw [not_or, Bool.not_eq_true] at hnot
  obtain ⟨-, heq | href⟩ := unmodified_below hw.settled.inv hw.settled.rest hw.place hy hnot.2 hab
  · exact hnot.1 heq.symm
  · exact href hw.alone

/-- Nothing stands below the value. -/
theorem Writing.nothing_below (hw : Writing types h s loc marks x P ptr) {y : Id} {Q : Place}
    (hy : loc y = some Q) (hab : P.Above Q) : y = x := by
  have hi := hw.settled.inv
  rcases hab.cases with rfl | ⟨i, hbelow⟩
  · exact hi.inj y x Q hy hw.place
  · obtain ⟨c, hc⟩ := hi.lined x y P Q i hw.place hy hbelow
    obtain ⟨attrs, _, ht, -⟩ := hi.slot_datum hw.place hc
    have hbare := hw.bare
    rw [ht] at hbare
    cases hbare

/-- A value that is not a row's stays, unless it is the one that is written. -/
theorem Writing.at_unmodified (hw : Writing types h s loc marks x P ptr) {y : Id} {Q : Place}
    (hy : loc y = some Q) (hne : y ≠ x) (hm : (h.datum y).modified = false) :
    (s.write P (some (.flat bytes))).at Q = s.at Q := by
  apply at_write_beside
  · exact fun hab => hne (hw.nothing_below hy hab)
  · intro hab
    rcases hw.opened hy hab with heq | hmod
    · exact hne heq
    · rw [hm] at hmod
      cases hmod

/-- A row is a row still, and has no new columns. -/
theorem Writing.at_row (hw : Writing types h s loc marks x P ptr) {y : Id} {Q : Place}
    {attrs : List Attribute} {cols : List (Option (Value α))} (hy : loc y = some Q)
    (ht : h.type types y = .row attrs) (hrow : s.at Q = some (.row cols))
    (hlen : cols.length = attrs.length)
    (hdropped : ∀ (i : Nat) (att : Attribute) (v : Value α), attrs[i]? = some att →
      cols[i]? = some (some v) → att.attisdropped = false) :
    ∃ cols', (s.write P (some (.flat bytes))).at Q = some (.row cols') ∧
      cols'.length = attrs.length ∧ ∀ (i : Nat) (att : Attribute) (v : Value α),
        attrs[i]? = some att → cols'[i]? = some (some v) → att.attisdropped = false := by
  have hne : y ≠ x := by
    rintro rfl
    have hbare := hw.bare
    rw [ht] at hbare
    cases hbare
  by_cases hab : Q.Above P
  · have hQP : Q ≠ P := by
      rintro rfl
      exact hne (hw.settled.inv.inj y x Q hy hw.place)
    obtain ⟨i, c, hbelow, hat⟩ := at_write_row (some (.flat bytes)) hrow hab hQP
    obtain ⟨d, hd⟩ := hw.settled.inv.lined y x Q P i hy hw.place hbelow
    obtain ⟨attrs', att', ht', hatt', hlive, -⟩ := hw.settled.inv.slot_datum hy hd
    rw [ht] at ht'
    cases ht'
    refine ⟨_, hat, by rw [List.length_set, hlen], ?_⟩
    intro j att v hatt hv
    by_cases hij : i = j
    · subst hij
      rw [hatt] at hatt'
      cases hatt'
      exact hlive
    · rw [List.getElem?_set_ne hij] at hv
      exact hdropped j att v hatt hv
  · refine ⟨cols, ?_, hlen, hdropped⟩
    rw [at_write_beside _ (fun hPQ => hne (hw.nothing_below hy hPQ)) hab]
    exact hrow

/-- An empty column stays empty. -/
theorem Writing.at_null (hw : Writing types h s loc marks x P ptr) {y : Id} {Q : Place} {i : Nat}
    {slot : Slot} (hy : loc y = some Q) (hslot : h.slot y i = some slot)
    (hempty : ∀ c, slot ≠ .datum c) (hnone : s.at (Q.child i) = none) :
    (s.write P (some (.flat bytes))).at (Q.child i) = none := by
  have hi := hw.settled.inv
  rw [← hnone]
  apply at_write_beside
  · intro hab
    rcases Place.above_of_child hab with rfl | hPQ
    · obtain ⟨c, hc⟩ := hi.lined y x Q _ i hy hw.place (Place.above_refl _)
      rw [hslot] at hc
      exact hempty c (Option.some.inj hc)
    · have heq := hw.nothing_below hy hPQ
      subst heq
      have hd : (h.datum y).deformed ≠ none := by
        intro hd
        unfold Heap.slot at hslot
        rw [hd] at hslot
        cases hslot
      obtain ⟨attrs, ht⟩ := hi.row_of_deformed hy hd
      have hbare := hw.bare
      rw [ht] at hbare
      cases hbare
  · intro hab
    obtain ⟨c, hc⟩ := hi.lined y x Q P i hy hw.place hab
    rw [hslot] at hc
    exact hempty c (Option.some.inj hc)

/-- A write to an array keeps the invariant. -/
theorem Writing.inv (hw : Writing types h s loc marks x P ptr) :
    Inv types (overwritten x ptr bytes h) (s.write P (some (.flat bytes))) loc := by
  have hi := hw.settled.inv
  have hkeep := fun y => @overwritten_keep α h x ptr bytes y
  have hself := @overwritten_self α h x ptr bytes
  -- the values that do not change
  have hval : ∀ {y p}, ((overwritten x ptr bytes h).datum y).value = some p →
      ∃ q, (h.datum y).value = some q ∧ p.chunk = q.chunk ∧ (y ≠ x → p = q) := by
    intro y p hp
    by_cases hne : y = x
    · subst hne
      rw [hself] at hp
      cases hp
      exact ⟨ptr, hw.value, rfl, fun hne => absurd rfl hne⟩
    · rw [overwritten_ne hne] at hp
      exact ⟨p, hp, rfl, fun _ => rfl⟩
  constructor
  case calm => exact hi.calm
  case unused => exact hi.unused
  case alive =>
    intro y Q hy
    obtain ⟨_, hk⟩ := hkeep y
    rw [hk]
    exact hi.alive y Q hy
  case planted => exact hi.planted
  case inj => exact hi.inj
  case flat =>
    intro y Q p hy hp
    by_cases hne : y = x
    · subst hne
      rw [hw.place] at hy
      cases hy
      rw [hself] at hp ⊢
      cases hp
      obtain ⟨hat, -, hm⟩ := hi.flat y P ptr hw.place hw.value
      refine ⟨at_write_self _ ?_, .flat hw.bare, hm⟩
      rw [hat]
      exact Option.some_ne_none _
    · rw [overwritten_ne hne] at hp ⊢
      obtain ⟨hat, hwell, hm⟩ := hi.flat y Q p hy hp
      exact ⟨(hw.at_unmodified hy hne hm).trans hat, hwell, hm⟩
  case row =>
    intro y Q hy hp
    have hne : y ≠ x := by
      rintro rfl
      rw [hself] at hp
      cases hp
    rw [overwritten_type]
    rw [overwritten_ne hne] at hp ⊢
    obtain ⟨h1, h2, h3, attrs, cols, h4, h5, h6, h7⟩ := hi.row y Q hy hp
    obtain ⟨cols', h8, h9, h10⟩ := hw.at_row hy h4 h5 h6 h7
    exact ⟨h1, h2, h3, attrs, cols', h4, h8, h9, h10⟩
  case slots =>
    intro y Q slots hy hd
    obtain ⟨_, hk⟩ := hkeep y
    have hd' : (h.datum y).deformed = some slots := by
      rw [hk] at hd
      exact hd
    rw [overwritten_type]
    obtain ⟨attrs, ht, hlen, hok⟩ := hi.slots y Q slots hy hd'
    refine ⟨attrs, ht, hlen, ?_⟩
    intro i att slot hatt hslot
    have hslotok := hok i att slot hatt hslot
    cases slot with
    | datum c =>
      obtain ⟨h1, h2, h3⟩ := hslotok
      obtain ⟨_, hkc⟩ := hkeep c
      refine ⟨h1, h2, ?_⟩
      rw [hkc]
      exact h3
    | null | absent =>
      have hslot' : h.slot y i = slots[i]? := by
        unfold Heap.slot
        rw [hd']
        rfl
      exact ⟨hslotok.1, hw.at_null hy (hslot'.trans hslot) (fun _ => nofun) hslotok.2⟩
    | dropped => exact hslotok
  case lined =>
    intro b y Q R i hb hy hab
    rw [overwritten_slot]
    exact hi.lined b y Q R i hb hy hab
  case refs =>
    intro y Q z hy hz
    obtain ⟨_, hky⟩ := hkeep y
    obtain ⟨_, hkz⟩ := hkeep z
    rw [hky] at hz
    obtain ⟨h1, h2, R, i, h3, h4⟩ := hi.refs y Q z hy hz
    refine ⟨h1, ?_, R, i, h3, (overwritten_slot z i).trans h4⟩
    rw [hkz]
    exact h2
  case bytes =>
    intro y Q p c hy hp hc
    obtain ⟨q, hq, hchunk, -⟩ := hval hp
    obtain ⟨h1, h2, h3⟩ := hi.bytes y Q q c hy hq (hchunk.symm.trans hc)
    obtain ⟨_, hk⟩ := hkeep y
    rw [hk]
    refine ⟨h1, h2, ?_⟩
    rcases h3 with hown | ⟨z, r, hz, hzv, hzc⟩
    · exact Or.inl hown
    · -- the row that it references is not the array
      have hne : z ≠ x := by
        rintro rfl
        obtain ⟨-, -, R, i, hzloc, hslot⟩ := hi.refs y Q z hy hz
        obtain ⟨attrs, _, ht, -⟩ := hi.slot_datum hzloc hslot
        have hbare := hw.bare
        rw [ht] at hbare
        cases hbare
      exact Or.inr ⟨z, r, hz, by rw [overwritten_ne hne]; exact hzv, hzc⟩
  case owned =>
    intro y hneed
    by_cases hne : y = x
    · subst hne
      rw [hself] at hneed ⊢
      obtain ⟨hlt, p, c, hp, hc, hlt', hfree⟩ := hi.owned y hneed
      rw [hw.value] at hp
      cases hp
      exact ⟨hlt, _, c, rfl, hc, hlt', hfree⟩
    · rw [overwritten_ne hne] at hneed ⊢
      exact hi.owned y hneed
  case owners =>
    intro y z p p' hny hnz hp hp' hc
    obtain ⟨_, hky⟩ := hkeep y
    obtain ⟨_, hkz⟩ := hkeep z
    obtain ⟨q, hq, hqc, -⟩ := hval hp
    obtain ⟨q', hq', hqc', -⟩ := hval hp'
    rw [hky] at hny
    rw [hkz] at hnz
    exact hi.owners y z q q' hny hnz hq hq' (hqc.symm.trans (hc.trans hqc'))
  case byval =>
    intro y Q p hy hp hby
    rw [overwritten_type] at hby
    obtain ⟨q, hq, hqc, -⟩ := hval hp
    rw [hqc]
    exact hi.byval y Q q hy hq hby

theorem Writing.write (hw : Writing types h s loc marks x P ptr) :
    Settled types (overwritten x ptr bytes h) (s.write P (some (.flat bytes))) loc marks := by
  have hmarked := hw.settled.marked.of_unmarked fun y => @overwritten_unmarked α h x ptr bytes y
  refine ⟨hw.inv, ?_, ⟨hmarked.slots, hmarked.whole, hmarked.unused⟩⟩
  intro y Q hy hm i c hc
  obtain ⟨_, hky⟩ := @overwritten_keep α h x ptr bytes y
  obtain ⟨_, hkc⟩ := @overwritten_keep α h x ptr bytes c
  rw [hky] at hm
  rw [overwritten_slot] at hc
  rw [hkc]
  exact hw.settled.rest y Q hy hm i c hc

end

end

end pllua.datums
