-- Exploding a row: its children are saved from the memory of its tuple, the rows among them
-- are exploded first, and the tuple is freed. Every datum keeps what it holds.
import Pllua.DatumPlaces

open pllua.catalog pllua.records

namespace pllua.datums

section
variable {α : Type} {types : Types} {pg : Backend α types} {h : Heap α} {s : Forest α}
  {loc : Places}

/-! ## Saving a child -/

/-- The datum has a chunk of its own from now on. -/
def own_chunk (h : Heap α) (x : Id) (ptr : Ptr α) : Heap α :=
  { h.set x { h.datum x with value := some { ptr with chunk := some h.next_chunk },
                             need_gc := true } with
    next_chunk := h.next_chunk + 1 }

/-- The parts of a datum that saving it does not touch. -/
def Kept (d d' : Datum α) : Prop :=
  ∃ value need_gc, d' = { d with value, need_gc }

theorem Kept.refl (d : Datum α) : Kept d d := ⟨d.value, d.need_gc, rfl⟩

theorem Kept.trans {d d' d'' : Datum α} (h : Kept d d') (h' : Kept d' d'') : Kept d d'' := by
  obtain ⟨v, g, rfl⟩ := h
  obtain ⟨v', g', rfl⟩ := h'
  exact ⟨v', g', rfl⟩

theorem Kept.unmarked {d d' : Datum α} (h : Kept d d') : Unmarked d d' := by
  obtain ⟨_, _, rfl⟩ := h
  exact ⟨rfl, rfl, rfl, id⟩

theorem own_chunk_self (x : Id) (ptr : Ptr α) : (own_chunk h x ptr).datum x =
    { h.datum x with value := some { ptr with chunk := some h.next_chunk }, need_gc := true } :=
  Function.update_self _ _ _

theorem own_chunk_ne {x y : Id} (hne : y ≠ x) (ptr : Ptr α) :
    (own_chunk h x ptr).datum y = h.datum y := Function.update_of_ne hne _ _

theorem own_chunk_kept (x y : Id) (ptr : Ptr α) :
    Kept (h.datum y) ((own_chunk h x ptr).datum y) := by
  by_cases hne : y = x
  · subst hne
    exact ⟨_, _, own_chunk_self y ptr⟩
  · rw [own_chunk_ne hne]
    exact Kept.refl _

theorem slot_of_kept {h h' : Heap α} {x : Id} (hk : Kept (h.datum x) (h'.datum x)) (i : Nat) :
    h'.slot x i = h.slot x i := by
  obtain ⟨_, _, hx⟩ := hk
  unfold Heap.slot
  rw [hx]

theorem type_of_kept {h h' : Heap α} {x : Id} (hk : Kept (h.datum x) (h'.datum x)) :
    h'.type types x = h.type types x := by
  obtain ⟨_, _, hx⟩ := hk
  unfold Heap.type
  rw [hx]

/-- A value that is not a row moves to a chunk of its own. No other datum uses its memory. -/
theorem Inv.own_chunk (hi : Inv types h s loc) {x : Id} {P : Place} {ptr ptr' : Ptr α}
    (hx : loc x = some P) (hv : (h.datum x).value = some ptr) (hcontent : ptr'.content = ptr.content)
    (hflat : (h.type types x).is_row = false) (hbyval : (h.type types x).typbyval = false) :
    Inv types (own_chunk h x ptr') s loc := by
  have hkept := fun y => @own_chunk_kept α h x y ptr'
  have hne : ∀ {y i slot}, h.slot y i = some slot → loc y ≠ none → y ≠ x := by
    rintro y i slot hs hy rfl
    have hd : (h.datum y).deformed ≠ none := by
      intro hd
      unfold Heap.slot at hs
      rw [hd] at hs
      cases hs
    obtain ⟨attrs, htype⟩ := hi.row_of_deformed hx hd
    rw [htype] at hflat
    cases hflat
  have hvx : ((pllua.datums.own_chunk h x ptr').datum x).value =
      some { ptr' with chunk := some h.next_chunk } := by rw [own_chunk_self]
  constructor
  case calm => exact hi.calm
  case unused => exact fun c hc => hi.unused c (Nat.le_of_succ_le hc)
  case alive =>
    intro y Q hy
    obtain ⟨_, _, hy'⟩ := hkept y
    rw [hy']
    exact hi.alive y Q hy
  case planted => exact hi.planted
  case inj => exact hi.inj
  case flat =>
    intro y Q p hy hp
    obtain ⟨_, _, hy'⟩ := hkept y
    by_cases heq : y = x
    · subst heq
      rw [hx] at hy
      cases hy
      rw [hvx] at hp
      cases hp
      rw [hy', hcontent]
      exact hi.flat y P ptr hx hv
    · rw [own_chunk_ne heq] at hp ⊢
      exact hi.flat y Q p hy hp
  case row =>
    intro y Q hy hnone
    have heq : y ≠ x := by
      rintro rfl
      rw [hvx] at hnone
      cases hnone
    rw [type_of_kept (hkept y), own_chunk_ne heq]
    rw [own_chunk_ne heq] at hnone
    exact hi.row y Q hy hnone
  case slots =>
    intro y Q slots hy hs
    have hdeformed : (h.datum y).deformed = some slots := by
      obtain ⟨_, _, hy'⟩ := hkept y
      rw [hy'] at hs
      exact hs
    obtain ⟨attrs, htype, hlen, hok⟩ := hi.slots y Q slots hy hdeformed
    rw [type_of_kept (hkept y)]
    refine ⟨attrs, htype, hlen, ?_⟩
    intro i att slot hatt hslot
    have hslotok := hok i att slot hatt hslot
    cases slot with
    | null => exact hslotok
    | dropped => exact hslotok
    | absent => exact hslotok
    | datum c =>
      obtain ⟨_, _, hc'⟩ := hkept c
      refine ⟨hslotok.1, hslotok.2.1, ?_⟩
      rw [hc']
      exact hslotok.2.2
  case lined =>
    intro b y Q R i hb hy hab
    rw [slot_of_kept (hkept b)]
    exact hi.lined b y Q R i hb hy hab
  case refs =>
    intro y Q z hy hz
    obtain ⟨_, _, hy'⟩ := hkept y
    obtain ⟨_, _, hz'⟩ := hkept z
    rw [hy'] at hz
    simp only [slot_of_kept (hkept z), hz']
    exact hi.refs y Q z hy hz
  case bytes =>
    intro y Q p c hy hp hc
    by_cases heq : y = x
    · subst heq
      rw [hvx] at hp
      cases hp
      cases hc
      refine ⟨Nat.lt_succ_self _, hi.unused _ (Nat.le_refl _), Or.inl ?_⟩
      rw [own_chunk_self]
    · rw [own_chunk_ne heq] at hp ⊢
      obtain ⟨h1, h2, h3⟩ := hi.bytes y Q p c hy hp hc
      refine ⟨Nat.lt_succ_of_lt h1, h2, ?_⟩
      rcases h3 with hown | ⟨z, p', hz, hzv, hzc⟩
      · exact Or.inl hown
      · obtain ⟨-, -, R, i, hzloc, hslot⟩ := hi.refs y Q z hy hz
        have hzne : z ≠ x := hne hslot (by simp [hzloc])
        exact Or.inr ⟨z, p', hz, by rw [own_chunk_ne hzne]; exact hzv, hzc⟩
  case owned =>
    intro y hneed
    by_cases heq : y = x
    · subst heq
      exact ⟨(hi.alive y P hx).1, _, _, hvx, rfl, Nat.lt_succ_self _, hi.unused _ (Nat.le_refl _)⟩
    · rw [own_chunk_ne heq] at hneed ⊢
      obtain ⟨hlt, p, c, hp, hc, hnext, hfree⟩ := hi.owned y hneed
      exact ⟨hlt, p, c, hp, hc, Nat.lt_succ_of_lt hnext, hfree⟩
  case owners =>
    intro y z p p' hny hnz hp hp' hc
    by_cases hyx : y = x
    · by_cases hzx : z = x
      · rw [hyx, hzx]
      · subst hyx
        rw [hvx] at hp
        cases hp
        rw [own_chunk_ne hzx] at hnz hp'
        exact absurd hc.symm (hi.owned_old hnz hp')
    · rw [own_chunk_ne hyx] at hny hp
      by_cases hzx : z = x
      · subst hzx
        rw [hvx] at hp'
        cases hp'
        exact absurd hc (hi.owned_old hny hp)
      · rw [own_chunk_ne hzx] at hnz hp'
        exact hi.owners y z p p' hny hnz hp hp' hc
  case byval =>
    intro y Q p hy hp hby
    rw [type_of_kept (hkept y)] at hby
    by_cases heq : y = x
    · subst heq
      rw [hbyval] at hby
      cases hby
    · rw [own_chunk_ne heq] at hp
      exact hi.byval y Q p hy hp hby

theorem savedatum_byval {c : Id} (hbyval : (h.type types c).typbyval = true) :
    pllua_savedatum types c h = h := by
  unfold Heap.type at hbyval
  unfold pllua_savedatum
  cases hv : (h.datum c).value with
  | none => simp only [hv]
  | some ptr => simp only [hv, hbyval, if_true]

theorem savedatum_eq {c : Id} {ptr : Ptr α} (hv : (h.datum c).value = some ptr)
    (hbyval : (h.type types c).typbyval = false) (huse : h.use ptr = h) :
    pllua_savedatum types c h =
      own_chunk h c ⟨ptr.chunk, (h.type types c).is_array, ptr.content⟩ := by
  unfold Heap.type at hbyval
  unfold pllua_savedatum
  simp only [hv, hbyval, huse, Bool.false_eq_true, if_false]
  rfl

/-- The datum does not use the memory of the row that it references. -/
def Safe (h : Heap α) (c : Id) : Prop :=
  (h.datum c).modified = true ∨ (h.datum c).need_gc = true ∨
    ∃ ptr, (h.datum c).value = some ptr ∧ ptr.chunk = none

/-- What saving a child does, or saving all of a table. -/
structure Saved (types : Types) (h h' : Heap α) (s : Forest α) (loc : Places) (saved : Id → Prop) :
    Prop where
  inv : Inv types h' s loc
  frame : ∀ y, ¬ saved y → h'.datum y = h.datum y
  kept : ∀ y, Kept (h.datum y) (h'.datum y)
  safe : ∀ y, saved y ∨ Safe h y → Safe h' y
  next : h'.next = h.next

theorem save_child_saved (hi : Inv types h s loc) {c : Id} {P : Place} (hc : loc c = some P)
    (hflat : (h.datum c).modified = false → (h.type types c).is_row = false) :
    Saved types h (save_child types c h) s loc (· = c) := by
  have hsame : Safe h c → Saved types h h s loc (· = c) := by
    intro hsafe
    refine ⟨hi, fun _ _ => rfl, fun y => Kept.refl _, ?_, rfl⟩
    rintro y (rfl | hy)
    · exact hsafe
    · exact hy
  unfold save_child
  simp only
  split
  · rename_i hcond
    simp only [Bool.and_eq_true, Bool.not_eq_true'] at hcond
    obtain ⟨ptr, hv⟩ := hi.value_of_unmodified hc hcond.2
    cases hbyval : (h.type types c).typbyval with
    | true =>
      rw [savedatum_byval hbyval]
      exact hsame (Or.inr (Or.inr ⟨ptr, hv, hi.byval c P ptr hc hv hbyval⟩))
    | false =>
      rw [savedatum_eq hv hbyval (hi.use_eq hc hv)]
      refine ⟨hi.own_chunk hc hv rfl (hflat hcond.2) hbyval, fun y hne => own_chunk_ne hne _,
        fun y => own_chunk_kept c y _, ?_, rfl⟩
      intro y hy
      by_cases heq : y = c
      · subst heq
        exact Or.inr (Or.inl (by rw [own_chunk_self]))
      · unfold Safe
        rw [own_chunk_ne heq]
        exact hy.resolve_left heq
  · rename_i hcond
    apply hsame
    simp only [Bool.and_eq_true, Bool.not_eq_true', not_and, Bool.not_eq_false] at hcond
    cases hneed : (h.datum c).need_gc with
    | true => exact Or.inr (Or.inl hneed)
    | false => exact Or.inl (hcond hneed)

/-- The second loop of the explosion: all children are saved. -/
theorem save_children_saved {slots : List Slot} (hi : Inv types h s loc)
    (hslots : ∀ c, .datum c ∈ slots → loc c ≠ none ∧
      ((h.datum c).modified = false → (h.type types c).is_row = false)) :
    Saved types h (each_datum (save_child types) slots h) s loc (.datum · ∈ slots) := by
  induction slots generalizing h with
  | nil =>
    refine ⟨hi, fun _ _ => rfl, fun y => Kept.refl _, ?_, rfl⟩
    rintro y (hy | hy)
    · cases hy
    · exact hy
  | cons slot slots ih =>
    have hrest : ∀ c, .datum c ∈ slots → loc c ≠ none ∧
        ((h.datum c).modified = false → (h.type types c).is_row = false) :=
      fun c hc => hslots c (List.mem_cons_of_mem _ hc)
    cases slot with
    | null | dropped | absent =>
      simp only [each_datum]
      have h2 := ih hi hrest
      refine ⟨h2.inv, ?_, h2.kept, ?_, h2.next⟩
      · exact fun y hy => h2.frame y (fun hm => hy (List.mem_cons_of_mem _ hm))
      · intro y hy
        apply h2.safe
        rcases hy with hy | hy
        · exact Or.inl ((List.mem_cons.mp hy).resolve_left nofun)
        · exact Or.inr hy
    | datum c =>
      simp only [each_datum]
      obtain ⟨hc, hflat⟩ := hslots c List.mem_cons_self
      obtain ⟨P, hP⟩ := Option.ne_none_iff_exists'.mp hc
      have h1 := save_child_saved hi hP hflat
      have h2 := ih h1.inv (by
        intro d hd
        obtain ⟨_, _, hk⟩ := h1.kept d
        rw [type_of_kept (h1.kept d), hk]
        exact hrest d hd)
      refine ⟨h2.inv, ?_, fun y => (h1.kept y).trans (h2.kept y), ?_, h2.next.trans h1.next⟩
      · intro y hy
        rw [h2.frame y (fun hm => hy (List.mem_cons_of_mem _ hm))]
        apply h1.frame
        rintro rfl
        exact hy List.mem_cons_self
      · intro y hy
        apply h2.safe
        rcases hy with hy | hy
        · rcases List.mem_cons.mp hy with heq | hm
          · cases heq
            exact Or.inr (h1.safe c (Or.inl rfl))
          · exact Or.inl hm
        · exact Or.inr (h1.safe y (Or.inr hy))

/-! ## Dropping the tuple -/

theorem drop_tuple_freed (hi : Inv types h s loc) {x : Id} {P : Place} {ptr : Ptr α}
    (hx : loc x = some P) (hv : (h.datum x).value = some ptr) (slots : List Slot) :
    drop_tuple x slots h =
      { h with
        freed := fun c => h.freed c || ((h.datum x).need_gc && ptr.chunk = some c)
        datum := fun y =>
          if y = x then
            { h.datum x with modified := true, need_gc := false, value := none, datumref := none }
          else if .datum y ∈ slots then { h.datum y with datumref := none }
          else h.datum y } := by
  unfold drop_tuple
  simp only [hv]
  cases hneed : (h.datum x).need_gc with
  | false => simp
  | true =>
    obtain ⟨-, p, c, hp, hc, -⟩ := hi.owned x hneed
    rw [hv] at hp
    cases hp
    simp only [Heap.pfree, hc, hi.use_eq hx hv, Bool.true_and, Option.some.injEq]
    congr 1
    funext d
    by_cases hd : d = c
    · subst hd
      simp
    · have hdc : ¬ c = d := fun heq => hd heq.symm
      simp [Function.update_of_ne hd, hdc]

theorem drop_tuple_next (x : Id) (slots : List Slot) : (drop_tuple x slots h).next = h.next := by
  unfold drop_tuple
  simp only
  split
  · unfold Heap.pfree Heap.use Heap.crash
    split
    · rfl
    · split <;> rfl
  · rfl

theorem drop_tuple_self (x : Id) (slots : List Slot) : (drop_tuple x slots h).datum x =
    { h.datum x with modified := true, need_gc := false, value := none, datumref := none } :=
  if_pos rfl

/-- A child loses its reference. The other datums stay. -/
theorem drop_tuple_ne {x y : Id} (hne : y ≠ x) (slots : List Slot) :
    (drop_tuple x slots h).datum y =
        { h.datum y with datumref := none } ∧ .datum y ∈ slots ∨
      (drop_tuple x slots h).datum y = h.datum y ∧ .datum y ∉ slots := by
  unfold drop_tuple
  simp only [if_neg hne]
  by_cases hm : .datum y ∈ slots
  · simp only [if_pos hm]
    exact Or.inl ⟨trivial, hm⟩
  · simp only [if_neg hm]
    exact Or.inr ⟨trivial, hm⟩

theorem drop_tuple_slot (x y : Id) (slots : List Slot) (i : Nat) :
    (drop_tuple x slots h).slot y i = h.slot y i := by
  unfold Heap.slot
  by_cases hne : y = x
  · subst hne
    rw [drop_tuple_self]
  · rcases drop_tuple_ne (h := h) hne slots with ⟨heq, -⟩ | ⟨heq, -⟩ <;> rw [heq]

theorem drop_tuple_type (x y : Id) (slots : List Slot) :
    (drop_tuple x slots h).type types y = h.type types y := by
  unfold Heap.type
  by_cases hne : y = x
  · subst hne
    rw [drop_tuple_self]
  · rcases drop_tuple_ne (h := h) hne slots with ⟨heq, -⟩ | ⟨heq, -⟩ <;> rw [heq]

/-- Once the children are safe, no other datum uses the chunk of a row. -/
theorem Inv.sole_user (hi : Inv types h s loc) {x : Id} {P : Place} {ptr : Ptr α}
    (hx : loc x = some P) (hv : (h.datum x).value = some ptr) (hneed : (h.datum x).need_gc = true)
    (hsafe : ∀ i c, h.slot x i = some (.datum c) → Safe h c) (c : Chunk)
    (hc : ptr.chunk = some c) : ∀ y Q ptr', loc y = some Q → (h.datum y).value = some ptr' →
      ptr'.chunk = some c → y = x := by
  intro y
  induction y using Nat.strongRecOn with
  | ind y ih =>
    intro Q ptr' hy hv' hc'
    obtain ⟨-, -, hown | ⟨z, ptr'', hz, hzv, hzc⟩⟩ := hi.bytes y Q ptr' c hy hv' hc'
    · exact hi.owners y x ptr' ptr hown hneed hv' hv (hc'.trans hc.symm)
    · -- the row that it references uses the chunk too, so that row is `x`
      obtain ⟨hlt, -, R, i, hzloc, hslot⟩ := hi.refs y Q z hy hz
      have hzx := ih z hlt R ptr'' hzloc hzv hzc
      subst hzx
      obtain ⟨-, -, hm⟩ := hi.flat y Q ptr' hy hv'
      rcases hsafe i y hslot with hmod | hown | ⟨p, hp, hnone⟩
      · rw [hm] at hmod
        cases hmod
      · exact hi.owners y z ptr' ptr hown hneed hv' hv (hc'.trans hc.symm)
      · rw [hv'] at hp
        cases hp
        rw [hnone] at hc'
        cases hc'

theorem Inv.drop_tuple (hi : Inv types h s loc) {x : Id} {P : Place} {ptr : Ptr α}
    {slots : List Slot} (hx : loc x = some P) (hv : (h.datum x).value = some ptr)
    (hd : (h.datum x).deformed = some slots) (hsafe : ∀ c, .datum c ∈ slots → Safe h c) :
    Inv types (drop_tuple x slots h) s loc := by
  have hmem : ∀ i y, h.slot x i = some (.datum y) → .datum y ∈ slots := by
    intro i y hs
    unfold Heap.slot at hs
    rw [hd] at hs
    exact List.mem_of_getElem? hs
  have hself := drop_tuple_self (h := h) x slots
  have hold : ∀ y, y ≠ x → ∃ ref, (pllua.datums.drop_tuple x slots h).datum y =
      { h.datum y with datumref := ref } ∧
        (ref = none ∧ .datum y ∈ slots ∨ ref = (h.datum y).datumref ∧ .datum y ∉ slots) := by
    intro y hne
    rcases drop_tuple_ne (h := h) hne slots with ⟨heq, hm⟩ | ⟨heq, hm⟩
    · exact ⟨none, heq, Or.inl ⟨rfl, hm⟩⟩
    · exact ⟨(h.datum y).datumref, heq, Or.inr ⟨rfl, hm⟩⟩
  have hfreed := drop_tuple_freed hi hx hv slots
  have hcalm : (pllua.datums.drop_tuple x slots h).fault = h.fault := by rw [hfreed]
  have hnext : (pllua.datums.drop_tuple x slots h).next = h.next := by rw [hfreed]
  have hchunk : (pllua.datums.drop_tuple x slots h).next_chunk = h.next_chunk := by rw [hfreed]
  constructor
  case calm => exact hcalm.trans hi.calm
  case unused =>
    intro c hc
    rw [hchunk] at hc
    rw [hfreed]
    simp only [Bool.or_eq_false_iff, Bool.and_eq_false_imp, decide_eq_false_iff_not]
    refine ⟨hi.unused c hc, ?_⟩
    intro _ heq
    exact absurd (hi.bytes x P ptr c hx hv heq).1 (Nat.not_lt_of_le hc)
  case alive =>
    intro y Q hy
    rw [hnext]
    by_cases hne : y = x
    · subst hne
      rw [hself]
      exact hi.alive y Q hy
    · obtain ⟨_, heq, -⟩ := hold y hne
      rw [heq]
      exact hi.alive y Q hy
  case planted => exact hi.planted
  case inj => exact hi.inj
  case flat =>
    intro y Q p hy hp
    by_cases hne : y = x
    · subst hne
      rw [hself] at hp
      cases hp
    · obtain ⟨_, heq, -⟩ := hold y hne
      rw [heq] at hp ⊢
      exact hi.flat y Q p hy hp
  case row =>
    intro y Q hy hnone
    rw [drop_tuple_type]
    by_cases hne : y = x
    · subst hne
      rw [hx] at hy
      cases hy
      rw [hself]
      obtain ⟨hat, hw, -⟩ := hi.flat y P ptr hx hv
      obtain ⟨attrs, htype, -⟩ := hi.slots y P slots hx hd
      refine ⟨rfl, rfl, by simp [hd], attrs, ?_⟩
      unfold Heap.type at htype
      cases hcontent : ptr.content with
      | flat bytes =>
        rw [hcontent] at hw
        cases hw with
        | flat hflat =>
          rw [htype] at hflat
          cases hflat
      | row cols =>
        rw [hcontent] at hw
        cases hw with
        | row ht hlen hdropped hcols =>
          rw [htype] at ht
          cases ht
          refine ⟨cols, htype, ?_, hlen, hdropped⟩
          rw [hat, hcontent]
    · obtain ⟨_, heq, -⟩ := hold y hne
      rw [heq] at hnone ⊢
      exact hi.row y Q hy hnone
  case slots =>
    intro y Q slots' hy hs
    have hdeformed : (h.datum y).deformed = some slots' := by
      by_cases hne : y = x
      · subst hne
        rw [hself] at hs
        exact hs
      · obtain ⟨_, heq, -⟩ := hold y hne
        rw [heq] at hs
        exact hs
    obtain ⟨attrs, htype, hlen, hok⟩ := hi.slots y Q slots' hy hdeformed
    rw [drop_tuple_type]
    refine ⟨attrs, htype, hlen, ?_⟩
    intro i att slot hatt hslot
    have hslotok := hok i att slot hatt hslot
    cases slot with
    | null => exact hslotok
    | dropped => exact hslotok
    | absent => exact hslotok
    | datum c =>
      refine ⟨hslotok.1, hslotok.2.1, ?_⟩
      by_cases hne : c = x
      · subst hne
        rw [hself]
        exact hslotok.2.2
      · obtain ⟨_, heq, -⟩ := hold c hne
        rw [heq]
        exact hslotok.2.2
  case lined =>
    intro b y Q R i hb hy hab
    rw [drop_tuple_slot]
    exact hi.lined b y Q R i hb hy hab
  case refs =>
    intro y Q z hy hz
    have hne : y ≠ x := by
      rintro rfl
      rw [hself] at hz
      cases hz
    obtain ⟨ref, heq, ⟨rfl, hm⟩ | ⟨rfl, hm⟩⟩ := hold y hne
    · rw [heq] at hz
      cases hz
    · rw [heq] at hz
      obtain ⟨h1, h2, R, i, h3, h4⟩ := hi.refs y Q z hy hz
      have hzne : z ≠ x := by
        rintro rfl
        exact hm (hmem i y h4)
      obtain ⟨_, heqz, -⟩ := hold z hzne
      simp only [drop_tuple_slot]
      refine ⟨h1, ?_, R, i, h3, h4⟩
      rw [heqz]
      exact h2
  case bytes =>
    intro y Q p c hy hp hc
    have hne : y ≠ x := by
      rintro rfl
      rw [hself] at hp
      cases hp
    obtain ⟨ref, heq, href⟩ := hold y hne
    rw [heq] at hp
    obtain ⟨h1, h2, h3⟩ := hi.bytes y Q p c hy hp hc
    refine ⟨hchunk ▸ h1, ?_, ?_⟩
    · rw [hfreed]
      simp only [h2, Bool.false_or, Bool.and_eq_false_imp, decide_eq_false_iff_not]
      intro hneed hcx
      exact hne (hi.sole_user hx hv hneed (fun i d hs => hsafe d (hmem i d hs)) c hcx y Q p hy hp hc)
    · rw [heq]
      rcases href with ⟨-, hm⟩ | ⟨rfl, hm⟩
      · obtain ⟨-, -, hmod⟩ := hi.flat y Q p hy hp
        rcases hsafe y hm with h | h | ⟨p', hp', hnone⟩
        · rw [hmod] at h
          cases h
        · exact Or.inl h
        · rw [hp] at hp'
          cases hp'
          rw [hnone] at hc
          cases hc
      · rcases h3 with hown | ⟨z, p', hz, hzv, hzc⟩
        · exact Or.inl hown
        · obtain ⟨-, -, R, i, -, hslot⟩ := hi.refs y Q z hy hz
          have hzne : z ≠ x := by
            rintro rfl
            exact hm (hmem i y hslot)
          obtain ⟨_, heqz, -⟩ := hold z hzne
          refine Or.inr ⟨z, p', hz, ?_, hzc⟩
          rw [heqz]
          exact hzv
  case owned =>
    intro y hneed
    have hne : y ≠ x := by
      rintro rfl
      rw [hself] at hneed
      cases hneed
    obtain ⟨_, heq, -⟩ := hold y hne
    rw [heq] at hneed ⊢
    obtain ⟨hlt, p, c, hp, hc, hlt', hfree⟩ := hi.owned y hneed
    refine ⟨hnext ▸ hlt, p, c, hp, hc, hchunk ▸ hlt', ?_⟩
    rw [hfreed]
    simp only [hfree, Bool.false_or, Bool.and_eq_false_imp, decide_eq_false_iff_not]
    intro hxneed hcx
    exact hne (hi.owners y x p ptr hneed hxneed hp hv (hc.trans hcx.symm))
  case owners =>
    intro y z p p' hny hnz hp hp' hc
    have hyne : y ≠ x := by
      rintro rfl
      rw [hself] at hp
      cases hp
    have hzne : z ≠ x := by
      rintro rfl
      rw [hself] at hp'
      cases hp'
    obtain ⟨_, heqy, -⟩ := hold y hyne
    obtain ⟨_, heqz, -⟩ := hold z hzne
    rw [heqy] at hny hp
    rw [heqz] at hnz hp'
    exact hi.owners y z p p' hny hnz hp hp' hc
  case byval =>
    intro y Q p hy hp hby
    rw [drop_tuple_type] at hby
    have hne : y ≠ x := by
      rintro rfl
      rw [hself] at hp
      cases hp
    obtain ⟨_, heq, -⟩ := hold y hne
    rw [heq] at hp
    exact hi.byval y Q p hy hp hby

/-- The tables and the typmods stay. -/
theorem drop_tuple_marked (x y : Id) (slots : List Slot) :
    Unmarked (h.datum y) ((drop_tuple x slots h).datum y) := by
  by_cases hne : y = x
  · subst hne
    rw [drop_tuple_self]
    exact ⟨rfl, rfl, rfl, nofun⟩
  · rcases drop_tuple_ne (h := h) hne slots with ⟨heq, -⟩ | ⟨heq, -⟩
    · rw [heq]
      exact ⟨rfl, rfl, rfl, id⟩
    · rw [heq]
      exact ⟨rfl, rfl, rfl, id⟩

/-! ## Exploding a row and all rows in it -/


/-- What the explosion of the row at a place does. -/
structure Exploded (types : Types) (h h' : Heap α) (s : Forest α) (loc loc' : Places) (P : Place) :
    Prop where
  inv : Inv types h' s loc'
  grown : ∀ y Q, loc y = some Q → loc' y = some Q
  inside : ∀ y Q, loc' y = some Q → loc y = some Q ∨ P.Above Q
  typed : ∀ y Q, loc y = some Q → (h'.datum y).typed = (h.datum y).typed
  frame : ∀ y Q, loc y = some Q → ¬ P.Above Q → h'.datum y = h.datum y
  done : ∀ y Q, loc' y = some Q → P.Above Q → (h'.type types y).is_row = true →
    (h'.datum y).modified = true
  marked : ∀ marks, Marked types h s loc marks → Marked types h' s loc' marks
  numbered : Numbered h h' loc loc'

/-- The first loop of the explosion after the columns before `k`. -/
structure Looping (types : Types) (h h' : Heap α) (s : Forest α) (loc loc' : Places) (P : Place)
    (k : Nat) : Prop where
  inv : Inv types h' s loc'
  grown : ∀ y Q, loc y = some Q → loc' y = some Q
  inside : ∀ y Q, loc' y = some Q → loc y = some Q ∨ ∃ i < k, (P.child i).Above Q
  typed : ∀ y Q, loc y = some Q → (h'.datum y).typed = (h.datum y).typed
  frame : ∀ y Q, loc y = some Q → (∀ i < k, ¬ (P.child i).Above Q) → h'.datum y = h.datum y
  done : ∀ i < k, ∀ y Q, loc' y = some Q → (P.child i).Above Q →
    (h'.type types y).is_row = true → (h'.datum y).modified = true
  marked : ∀ marks, Marked types h s loc marks → Marked types h' s loc' marks
  numbered : Numbered h h' loc loc'

theorem Looping.refl (hi : Inv types h s loc) (P : Place) : Looping types h h s loc loc P 0 where
  inv := hi
  grown := fun _ _ hy => hy
  inside := fun _ _ hy => Or.inl hy
  typed := fun _ _ _ => rfl
  frame := fun _ _ _ _ => rfl
  done := fun i hi => absurd hi (Nat.not_lt_zero i)
  marked := fun _ hm => hm
  numbered := .refl _ _

/-- A column below which there is no row to explode. -/
theorem Looping.skip {h' : Heap α} {loc' : Places} {P : Place} {k : Nat}
    (hl : Looping types h h' s loc loc' P k)
    (hnone : ∀ y Q, loc' y = some Q → (P.child k).Above Q → (h'.type types y).is_row = false) :
    Looping types h h' s loc loc' P (k + 1) where
  inv := hl.inv
  grown := hl.grown
  inside := by
    intro y Q hy
    rcases hl.inside y Q hy with hold | ⟨i, hik, hab⟩
    · exact Or.inl hold
    · exact Or.inr ⟨i, Nat.lt_succ_of_lt hik, hab⟩
  typed := hl.typed
  frame := fun y Q hy hab => hl.frame y Q hy fun i hik => hab i (Nat.lt_succ_of_lt hik)
  done := by
    intro i hik y Q hy hab hrow
    rcases Nat.lt_succ_iff_lt_or_eq.mp hik with hlt | rfl
    · exact hl.done i hlt y Q hy hab hrow
    · rw [hnone y Q hy hab] at hrow
      cases hrow
  marked := hl.marked
  numbered := hl.numbered

/-- The explosion of the row in a column. -/
theorem Looping.explode {h' h'' : Heap α} {loc' loc'' : Places} {P : Place} {k : Nat}
    (hl : Looping types h h' s loc loc' P k) (he : Exploded types h' h'' s loc' loc'' (P.child k)) :
    Looping types h h'' s loc loc'' P (k + 1) where
  inv := he.inv
  grown := fun y Q hy => he.grown y Q (hl.grown y Q hy)
  inside := by
    intro y Q hy
    rcases he.inside y Q hy with hold | hab
    · rcases hl.inside y Q hold with hold | ⟨i, hik, hab⟩
      · exact Or.inl hold
      · exact Or.inr ⟨i, Nat.lt_succ_of_lt hik, hab⟩
    · exact Or.inr ⟨k, Nat.lt_succ_self k, hab⟩
  typed := fun y Q hy => (he.typed y Q (hl.grown y Q hy)).trans (hl.typed y Q hy)
  frame := by
    intro y Q hy hab
    rw [he.frame y Q (hl.grown y Q hy) (hab k (Nat.lt_succ_self k))]
    exact hl.frame y Q hy fun i hik => hab i (Nat.lt_succ_of_lt hik)
  done := by
    intro i hik y Q hy hab hrow
    rcases Nat.lt_succ_iff_lt_or_eq.mp hik with hlt | rfl
    · have hk : ¬ (P.child k).Above Q := by
        intro hk
        exact absurd (Place.child_unique hab hk) (Nat.ne_of_lt hlt)
      rcases he.inside y Q hy with hold | hab'
      · unfold Heap.type at hrow
        rw [he.frame y Q hold hk] at hrow ⊢
        exact hl.done i hlt y Q hold hab hrow
      · exact absurd hab' hk
    · exact he.done y Q hy hab hrow
  marked := fun marks hm => he.marked marks (hl.marked marks hm)
  numbered := hl.numbered.trans he.numbered

/-- The children of a row that is at rest stand at rest until their column is reached. -/
theorem Looping.rested {h' : Heap α} {loc' : Places} {P : Place} {k : Nat}
    (hi : Inv types h s loc) (hl : Looping types h h' s loc loc' P k)
    (hrest : ∀ y Q, loc y = some Q → P.Above Q → Rested h y) {y : Id} {Q : Place}
    (hy : loc' y = some Q) (hab : (P.child k).Above Q) : Rested h' y := by
  have hbeside : ∀ {R : Place}, (P.child k).Above R → ∀ i < k, ¬ (P.child i).Above R := by
    intro R hR i hik hR'
    exact absurd (Place.child_unique hR' hR) (Nat.ne_of_lt hik)
  rcases hl.inside y Q hy with hold | ⟨i, hik, hab'⟩
  · intro hm i c hc
    have hsame := hl.frame y Q hold (hbeside hab)
    rw [hsame] at hm
    have hc' : h.slot y i = some (.datum c) := by
      unfold Heap.slot at hc ⊢
      rw [hsame] at hc
      exact hc
    obtain ⟨-, -, -, -, -, hcloc, -⟩ := hi.slot_datum hold hc'
    rw [hl.frame c _ hcloc (hbeside (hab.trans (Q.above_child i)))]
    exact hrest y Q hold ((P.above_child k).trans hab) hm i c hc'
  · exact absurd hab' (hbeside hab i hik)

/-- Deforming the row at a place and exploding it is one explosion. -/
theorem Exploded.of_deformed {h₁ h₂ : Heap α} {loc₁ loc₂ : Places} {x : Id} {P : Place}
    (hx : loc x = some P) (hd : Deformed types h h₁ s loc loc₁ x P)
    (he : Exploded types h₁ h₂ s loc₁ loc₂ P) : Exploded types h h₂ s loc loc₂ P where
  inv := he.inv
  grown := fun y Q hy => he.grown y Q (hd.grown y Q hy)
  inside := by
    intro y Q hy
    rcases he.inside y Q hy with hold | hab
    · rcases hd.inside y Q hold with hold | ⟨⟨i, rfl⟩, -⟩
      · exact Or.inl hold
      · exact Or.inr (P.above_child i)
    · exact Or.inr hab
  typed := by
    intro y Q hy
    rw [he.typed y Q (hd.grown y Q hy)]
    by_cases hne : y = x
    · subst hne
      obtain ⟨_, htable⟩ := hd.table
      rw [htable]
      rfl
    · rw [hd.frame y Q hy hne]
  frame := by
    intro y Q hy hab
    have hne : y ≠ x := by
      rintro rfl
      rw [hx] at hy
      cases hy
      exact hab P.above_refl
    rw [he.frame y Q (hd.grown y Q hy) hab]
    exact hd.frame y Q hy hne
  done := he.done
  marked := fun marks hm => he.marked marks (hd.marked marks hm)
  numbered := hd.numbered.trans he.numbered

/-- Deforming a row leaves the others at rest. -/
theorem Deformed.rest {h₁ : Heap α} {loc₁ : Places} {x y : Id} {P Q : Place} (hi : Inv types h s loc)
    (hd : Deformed types h h₁ s loc loc₁ x P) (hy : loc₁ y = some Q)
    (hrest : loc y = some Q → Rested h y) : Rested h₁ y := by
  rcases hd.inside y Q hy with hold | ⟨-, hnone⟩
  · by_cases hne : y = x
    · subst hne
      exact hd.rested (hrest hold)
    · intro hm i c hc
      have hsame := hd.frame y Q hold hne
      rw [hsame] at hm
      have hc' : h.slot y i = some (.datum c) := by
        unfold Heap.slot at hc ⊢
        rw [hsame] at hc
        exact hc
      have hchild := hrest hold hm i c hc'
      by_cases hcx : c = x
      · subst hcx
        obtain ⟨_, htable⟩ := hd.table
        rw [htable]
        exact hchild
      · obtain ⟨-, -, -, -, -, hcloc, -⟩ := hi.slot_datum hold hc'
        rw [hd.frame c _ hcloc hcx]
        exact hchild
  · intro _ i c hc
    unfold Heap.slot at hc
    rw [hnone] at hc
    cases hc

/-- The statement of `explode_inner` for one bound. -/
def Explodes (types : Types) (pg : Backend α types) (n : Nat) : Prop :=
  ∀ (h : Heap α) (s : Forest α) (loc : Places) (x : Id) (P : Place), Inv types h s loc →
    loc x = some P → (∀ y Q, loc y = some Q → P.Above Q → Rested h y) →
    (h.datum x).modified = false → (h.datum x).deformed.isSome = true →
    types.nesting (h.datum x).typeinfo < n →
    ∃ loc', Exploded types h (pllua_datum_explode_tuple_inner types pg n x h) s loc loc' P

/-- The step of the first loop for one child. -/
def explode_child (types : Types) (pg : Backend α types) (n : Nat) (c : Id) (h : Heap α) : Heap α :=
  if (types.typeinfo (h.datum c).typeinfo).is_row then
    pllua_datum_explode_tuple_inner types pg n c (pllua_datum_deform_tuple types pg c h)
  else h

theorem Looping.child {n : Nat} (ih : Explodes types pg n) {h' : Heap α} {loc' : Places} {x c : Id}
    {P : Place} {k : Nat} (hi : Inv types h s loc) (hx : loc x = some P)
    (hrest : ∀ y Q, loc y = some Q → P.Above Q → Rested h y)
    (hm : (h.datum x).modified = false) (hn : types.nesting (h.datum x).typeinfo ≤ n)
    (hc : h.slot x k = some (.datum c)) (hl : Looping types h h' s loc loc' P k) :
    ∃ loc'', Looping types h (explode_child types pg n c h') s loc loc'' P (k + 1) := by
  obtain ⟨attrs, att, htype, hatt, -, hcloc, hctype⟩ := hi.slot_datum hx hc
  have hsame : h'.datum c = h.datum c := by
    apply hl.frame c _ hcloc
    intro i hik hab
    rcases Place.above_of_child hab with heq | hab
    · exact absurd (Place.child_inj heq).2 (Nat.ne_of_lt hik)
    · exact P.not_child_above i hab
  have hcloc' := hl.grown c _ hcloc
  unfold explode_child
  split
  · rename_i hrow
    have hcrow : ∃ attrs', h'.type types c = .row attrs' := by
      unfold Heap.type
      cases ht : types.typeinfo (h'.datum c).typeinfo with
      | row attrs' => exact ⟨attrs', rfl⟩
      | _ =>
        rw [ht] at hrow
        cases hrow
    obtain ⟨attrs', ht⟩ := hcrow
    have hrested := fun y Q hy hab => hl.rested hi hrest (y := y) (Q := Q) hy hab
    obtain ⟨loc₁, hd⟩ := @deform_row α types pg h' s loc' c (P.child k) attrs' hl.inv hcloc' ht
    obtain ⟨table, htable⟩ := hd.table
    have hcm : (h.datum c).modified = false := (hrest x P hx P.above_refl hm k c hc).2
    have hlt : types.nesting (h.datum c).typeinfo < n := by
      unfold Heap.type at htype
      rw [hsame, hctype] at hrow
      have := types.nesting_lt htype (List.mem_of_getElem? hatt)
      rw [hctype]
      exact Nat.lt_of_lt_of_le this hn
    obtain ⟨loc₂, he⟩ := ih _ s loc₁ c (P.child k) hd.inv (hd.grown c _ hcloc')
      (fun y Q hy hab => hd.rest hl.inv hy fun hold => hrested y Q hold hab)
      (by rw [htable, hsame]; exact hcm) (by rw [htable]; rfl) (by rw [htable, hsame]; exact hlt)
    exact ⟨loc₂, hl.explode (Exploded.of_deformed hcloc' hd he)⟩
  · rename_i hrow
    refine ⟨loc', hl.skip ?_⟩
    intro y Q hy hab
    rcases hab.cases with heq | ⟨i, hab⟩
    · subst heq
      rw [hl.inv.inj y c _ hy hcloc']
      exact Bool.eq_false_iff.mpr hrow
    · obtain ⟨d, hd⟩ := hl.inv.lined c y _ Q i hcloc' hy hab
      obtain ⟨attrs', _, ht, -⟩ := hl.inv.slot_datum hcloc' hd
      unfold Heap.type at ht
      rw [ht] at hrow
      exact absurd rfl hrow

theorem explode_loop {n : Nat} (ih : Explodes types pg n) {x : Id} {P : Place}
    (hi : Inv types h s loc) (hx : loc x = some P)
    (hrest : ∀ y Q, loc y = some Q → P.Above Q → Rested h y)
    (hm : (h.datum x).modified = false) (hn : types.nesting (h.datum x).typeinfo ≤ n)
    {slots : List Slot} (hd : (h.datum x).deformed = some slots) (rest : List Slot) :
    ∀ (k : Nat) (h' : Heap α) (loc' : Places), slots.drop k = rest →
      Looping types h h' s loc loc' P k → ∃ loc'' k',
        Looping types h (each_datum (explode_child types pg n) rest h') s loc loc'' P k' ∧
          slots.length ≤ k' := by
  induction rest with
  | nil =>
    intro k h' loc' hdrop hl
    exact ⟨loc', k, hl, List.drop_eq_nil_iff.mp hdrop⟩
  | cons slot rest ihr =>
    intro k h' loc' hdrop hl
    have hslot : h.slot x k = some slot := by
      unfold Heap.slot
      rw [hd]
      have := congrArg (·[0]?) hdrop
      simpa using this
    have hdrop' : slots.drop (k + 1) = rest := by
      rw [← List.drop_drop, hdrop]
      rfl
    cases slot with
    | datum c =>
      obtain ⟨loc₁, hl₁⟩ := hl.child ih hi hx hrest hm hn hslot
      exact ihr (k + 1) _ loc₁ hdrop' hl₁
    | null | dropped | absent =>
      -- nothing stands below a column without a datum
      refine ihr (k + 1) h' loc' hdrop' (hl.skip ?_)
      intro y Q hy hab
      have hsame : h'.slot x k = h.slot x k := by
        unfold Heap.slot
        rw [hl.frame x P hx fun i _ hab' => P.not_child_above i hab']
      obtain ⟨d, hd'⟩ := hl.inv.lined x y P Q k (hl.grown x P hx) hy hab
      rw [hsame, hslot] at hd'
      cases hd'

theorem explode_inner_eq {n : Nat} {x : Id} {ptr : Ptr α} {slots : List Slot}
    (hv : (h.datum x).value = some ptr) (hd : (h.datum x).deformed = some slots) :
    pllua_datum_explode_tuple_inner types pg (n + 1) x h =
      drop_tuple x slots (each_datum (save_child types) slots
        (each_datum (explode_child types pg n) slots h)) := by
  unfold pllua_datum_explode_tuple_inner
  simp only [hv, hd]
  rfl

theorem slot_mem {x : Id} {slots : List Slot} (hd : (h.datum x).deformed = some slots) {y : Id} :
    .datum y ∈ slots ↔ ∃ i, h.slot x i = some (.datum y) := by
  unfold Heap.slot
  rw [hd]
  exact List.mem_iff_getElem?

/-- Exploding a row that is at rest turns every row in it into a modified one and leaves what
every datum holds. The induction is on how deep rows nest. -/
theorem explode_inner (n : Nat) : Explodes types pg n := by
  induction n with
  | zero => exact fun h s loc x P _ _ _ _ _ hn => absurd hn (Nat.not_lt_zero _)
  | succ n ih =>
    intro h s loc x P hi hx hrest hm hd hn
    obtain ⟨slots, hd⟩ := Option.isSome_iff_exists.mp hd
    obtain ⟨ptr, hv⟩ := hi.value_of_unmodified hx hm
    rw [explode_inner_eq hv hd]
    obtain ⟨loc₁, k, hl, hk⟩ := explode_loop ih hi hx hrest hm (Nat.le_of_lt_succ hn) hd slots 0 h
      loc rfl (Looping.refl hi P)
    have hx₁ := hl.grown x P hx
    have hsame := hl.frame x P hx fun i _ hab => P.not_child_above i hab
    have hd₁ : ((each_datum (explode_child types pg n) slots h).datum x).deformed = some slots := by
      rw [hsame]
      exact hd
    have hchild : ∀ c, .datum c ∈ slots → ∃ i < k, loc₁ c = some (P.child i) := by
      intro c hc
      obtain ⟨i, hs⟩ := (slot_mem hd).mp hc
      obtain ⟨-, -, -, -, -, hcloc, -⟩ := hi.slot_datum hx hs
      have hlt : i < slots.length := by
        unfold Heap.slot at hs
        rw [hd] at hs
        exact (List.getElem?_eq_some_iff.mp hs).1
      exact ⟨i, Nat.lt_of_lt_of_le hlt hk, hl.grown c _ hcloc⟩
    have hsaved := @save_children_saved α types _ s loc₁ slots hl.inv (by
      intro c hc
      obtain ⟨i, hik, hcloc⟩ := hchild c hc
      refine ⟨by simp [hcloc], ?_⟩
      intro hunmodified
      by_contra hrow
      have := hl.done i hik c _ hcloc (Place.above_refl _) (by simpa using hrow)
      rw [hunmodified] at this
      cases this)
    have hnot : .datum x ∉ slots := by
      intro hmem
      obtain ⟨i, -, hxi⟩ := hchild x hmem
      rw [hx₁] at hxi
      exact absurd (Option.some.inj hxi ▸ P.above_refl) (P.not_child_above i)
    have hsame₂ := (hsaved.frame x hnot).trans hsame
    refine ⟨loc₁, ?_, hl.grown, ?_, ?_, ?_, ?_, ?_, ?_⟩
    · refine hsaved.inv.drop_tuple hx₁ (by rw [hsame₂]; exact hv) (by rw [hsame₂]; exact hd) ?_
      exact fun c hc => hsaved.safe c (Or.inl hc)
    · intro y Q hy
      rcases hl.inside y Q hy with hold | ⟨i, -, hab⟩
      · exact Or.inl hold
      · exact Or.inr ((P.above_child i).trans hab)
    · intro y Q hy
      obtain ⟨_, _, hk⟩ := hsaved.kept y
      have htyped := hl.typed y Q hy
      by_cases hne : y = x
      · subst hne
        rw [drop_tuple_self, hk]
        exact htyped
      · rcases drop_tuple_ne (h := each_datum (save_child types) slots
          (each_datum (explode_child types pg n) slots h)) hne slots with ⟨heq, -⟩ | ⟨heq, -⟩
        · rw [heq, hk]
          exact htyped
        · rw [heq, hk]
          exact htyped
    · intro y Q hy hab
      have hne : y ≠ x := by
        rintro rfl
        rw [hx] at hy
        cases hy
        exact hab P.above_refl
      have hmem : .datum y ∉ slots := by
        intro hmem
        obtain ⟨i, -, hyi⟩ := hchild y hmem
        rw [hl.grown y Q hy] at hyi
        cases hyi
        exact hab (P.above_child i)
      rcases drop_tuple_ne (h := each_datum (save_child types) slots
        (each_datum (explode_child types pg n) slots h)) hne slots with ⟨-, hin⟩ | ⟨heq, -⟩
      · exact absurd hin hmem
      · rw [heq, hsaved.frame y hmem]
        exact hl.frame y Q hy fun i _ hi' => hab ((P.above_child i).trans hi')
    · intro y Q hy hab hrow
      rw [drop_tuple_type] at hrow
      by_cases hne : y = x
      · subst hne
        rw [drop_tuple_self]
      · have hmod : ((each_datum (save_child types) slots
            (each_datum (explode_child types pg n) slots h)).datum y).modified = true := by
          rcases hab.cases with rfl | ⟨i, hab⟩
          · exact absurd (hl.inv.inj y x _ hy hx₁) hne
          · obtain ⟨c, hc⟩ := hl.inv.lined x y P Q i hx₁ hy hab
            have hmem := (slot_mem hd₁).mpr ⟨i, hc⟩
            obtain ⟨j, hjk, hcj⟩ := hchild c hmem
            obtain ⟨-, -, -, -, -, hci, -⟩ := hl.inv.slot_datum hx₁ hc
            rw [hcj] at hci
            obtain ⟨-, rfl⟩ := Place.child_inj (Option.some.inj hci)
            have hkept := hsaved.kept y
            rw [type_of_kept hkept] at hrow
            have hdone := hl.done j hjk y Q hy hab hrow
            obtain ⟨_, _, hk⟩ := hkept
            rw [hk]
            exact hdone
        rcases drop_tuple_ne (h := each_datum (save_child types) slots
          (each_datum (explode_child types pg n) slots h)) hne slots with ⟨heq, -⟩ | ⟨heq, -⟩
        · rw [heq]
          exact hmod
        · rw [heq]
          exact hmod
    · intro marks hmarks
      exact ((hl.marked marks hmarks).of_unmarked fun y => (hsaved.kept y).unmarked).of_unmarked
        fun y => drop_tuple_marked x y slots
    · refine ⟨?_, hl.numbered.old⟩
      rw [drop_tuple_next, hsaved.next]
      exact hl.numbered.next

/-! ## Exploding from the ultimate parent -/

/-- Below a row that is not exploded nothing is, and every datum references its row. -/
theorem unmodified_below (hi : Inv types h s loc) (hrest : ∀ y Q, loc y = some Q → Rested h y)
    {x y : Id} {P Q : Place} (hx : loc x = some P) (hy : loc y = some Q)
    (hm : (h.datum y).modified = false) (hab : Q.Above P) :
    (h.datum x).modified = false ∧ (x = y ∨ (h.datum x).datumref ≠ none) := by
  obtain ⟨r, p⟩ := P
  obtain ⟨hroot, q, hq⟩ := hab
  simp only at hroot hq
  induction q generalizing y Q with
  | nil =>
    rw [List.append_nil] at hq
    have heq : x = y := by
      apply hi.inj x y _ hx
      cases Q
      simp_all
    subst heq
    exact ⟨hm, Or.inl rfl⟩
  | cons i q ih =>
    have hchild : (Q.child i).Above ⟨r, p⟩ := ⟨hroot, q, by simpa [Place.child] using hq⟩
    obtain ⟨c, hc⟩ := hi.lined y x Q ⟨r, p⟩ i hy hx hchild
    obtain ⟨-, -, -, -, -, hcloc, -⟩ := hi.slot_datum hy hc
    obtain ⟨href, hcm⟩ := hrest y Q hy hm i c hc
    obtain ⟨h1, h2⟩ := ih hcloc hcm hroot (by simpa [Place.child] using hq)
    refine ⟨h1, Or.inr ?_⟩
    rcases h2 with rfl | h2
    · rw [href]
      exact Option.some_ne_none y
    · exact h2

/-- The loop over the references ends at a row that depends on no other. -/
theorem ultimate_parent_spec (hi : Inv types h s loc) (n : Nat) {x : Id} {P : Place}
    (hn : x ≤ n) (hx : loc x = some P) (hm : (h.datum x).modified = false)
    (hd : (h.datum x).deformed.isSome = true) :
    ∃ U, loc (ultimate_parent h n x) = some U ∧ U.Above P ∧
      (h.datum (ultimate_parent h n x)).modified = false ∧
      (h.datum (ultimate_parent h n x)).deformed.isSome = true ∧
      (h.datum (ultimate_parent h n x)).datumref = none := by
  induction n generalizing x P with
  | zero =>
    refine ⟨P, hx, P.above_refl, hm, hd, ?_⟩
    cases href : (h.datum x).datumref with
    | none => exact href
    | some y =>
      obtain ⟨hlt, -⟩ := hi.refs x P y hx href
      exact absurd (Nat.lt_of_lt_of_le hlt hn) (Nat.not_lt_zero y)
  | succ n ih =>
    unfold ultimate_parent
    cases href : (h.datum x).datumref with
    | none => exact ⟨P, hx, P.above_refl, hm, hd, href⟩
    | some y =>
      obtain ⟨hlt, hym, Q, i, hy, hslot⟩ := hi.refs x P y hx href
      have hyd : (h.datum y).deformed.isSome = true := by
        unfold Heap.slot at hslot
        cases hdef : (h.datum y).deformed with
        | none =>
          rw [hdef] at hslot
          cases hslot
        | some slots => rfl
      obtain ⟨-, -, -, -, -, hxloc, -⟩ := hi.slot_datum hy hslot
      rw [hx] at hxloc
      cases hxloc
      obtain ⟨U, h1, h2, h3⟩ := ih (Nat.le_of_lt_succ (Nat.lt_of_lt_of_le hlt hn)) hy hym hyd
      exact ⟨U, h1, h2.trans (Q.above_child i), h3⟩

/-- What making a row ready for a write does. -/
structure Opened (types : Types) (h h' : Heap α) (s : Forest α) (loc loc' : Places) (P : Place) :
    Prop where
  inv : Inv types h' s loc'
  rest : ∀ y Q, loc' y = some Q → Rested h' y
  grown : ∀ y Q, loc y = some Q → loc' y = some Q
  typed : ∀ y Q, loc y = some Q → (h'.datum y).typed = (h.datum y).typed
  /-- the rows around it know of the change -/
  opened : ∀ y Q, loc' y = some Q → Q.Above P → (h'.datum y).modified = true
  /-- other values are not touched -/
  inside : ∀ y Q, loc' y = some Q → Q.root ≠ P.root → loc y = some Q ∧ h'.datum y = h.datum y
  marked : ∀ marks, Marked types h s loc marks → Marked types h' s loc' marks
  numbered : Numbered h h' loc loc'

/-- The explosion of the ultimate parent of a row. -/
theorem Exploded.opened {h' : Heap α} {loc' : Places} {u x : Id} {U P : Place}
    (hi : Inv types h s loc) (hrest : ∀ y Q, loc y = some Q → Rested h y) (hu : loc u = some U)
    (href : (h.datum u).datumref = none) (hx : loc x = some P) (hUP : U.Above P)
    (hrow : (h.type types x).is_row = true) (he : Exploded types h h' s loc loc' U) :
    Opened types h h' s loc loc' P where
  inv := he.inv
  grown := he.grown
  typed := he.typed
  marked := he.marked
  numbered := he.numbered
  rest := by
    intro y Q hy hm i c hc
    by_cases hab : U.Above Q
    · obtain ⟨attrs, _, htype, -⟩ := he.inv.slot_datum hy hc
      rw [he.done y Q hy hab (by rw [htype]; rfl)] at hm
      cases hm
    · have hold := (he.inside y Q hy).resolve_right hab
      have hsame := he.frame y Q hold hab
      rw [hsame] at hm
      have hc' : h.slot y i = some (.datum c) := by
        unfold Heap.slot at hc ⊢
        rw [hsame] at hc
        exact hc
      obtain ⟨-, -, -, -, -, hcloc, -⟩ := hi.slot_datum hold hc'
      obtain ⟨hcref, hcm⟩ := hrest y Q hold hm i c hc'
      have hcU : ¬ U.Above (Q.child i) := by
        intro hcU
        rcases Place.above_of_child hcU with rfl | hUQ
        · -- the ultimate parent would reference this row
          have hcu := hi.inj c u _ hcloc hu
          rw [hcu, href] at hcref
          cases hcref
        · exact hab hUQ
      rw [he.frame c _ hcloc hcU]
      exact ⟨hcref, hcm⟩
  opened := by
    intro y Q hy hQP
    by_cases hab : U.Above Q
    · apply he.done y Q hy hab
      rcases hQP.cases with rfl | ⟨i, hi'⟩
      · have hyx := he.inv.inj y x P hy (he.grown x P hx)
        subst hyx
        unfold Heap.type at hrow ⊢
        rw [typeinfo_of_typed (he.typed y P hx)]
        exact hrow
      · obtain ⟨c, hc⟩ := he.inv.lined y x Q P i hy (he.grown x P hx) hi'
        obtain ⟨attrs, _, htype, -⟩ := he.inv.slot_datum hy hc
        rw [htype]
        rfl
    · have hold := (he.inside y Q hy).resolve_right hab
      rw [he.frame y Q hold hab]
      by_contra hm
      have hQU : Q.Above U := (Place.above_or hQP hUP).resolve_right hab
      obtain ⟨-, hself | hsome⟩ := unmodified_below hi hrest hu hold (by simpa using hm) hQU
      · rw [← hself, hu] at hold
        cases hold
        exact hab U.above_refl
      · exact hsome href
  inside := by
    intro y Q hy hroot
    have hab : ¬ U.Above Q := fun hab => hroot (hab.1.symm.trans hUP.1)
    have hold := (he.inside y Q hy).resolve_right hab
    exact ⟨hold, he.frame y Q hold hab⟩

variable (pg) in
theorem explode_tuple_opened (hi : Inv types h s loc)
    (hrest : ∀ y Q, loc y = some Q → Rested h y) {x : Id} {P : Place} {attrs : List Attribute}
    (hx : loc x = some P) (ht : h.type types x = .row attrs) :
    ∃ loc', Opened types h (pllua_datum_explode_tuple types pg x h) s loc loc' P := by
  obtain ⟨loc₁, hd⟩ := @deform_row α types pg h s loc x P attrs hi hx ht
  have hx₁ := hd.grown x P hx
  have hrest₁ := fun y Q hy => hd.rest (y := y) (Q := Q) hi hy (hrest y Q)
  have hother : ∀ y Q, loc₁ y = some Q → Q.root ≠ P.root → loc y = some Q ∧
      (pllua_datum_deform_tuple types pg x h).datum y = h.datum y := by
    intro y Q hy hroot
    rcases hd.inside y Q hy with hold | ⟨⟨i, rfl⟩, -⟩
    · refine ⟨hold, hd.frame y Q hold ?_⟩
      rintro rfl
      rw [hx] at hold
      cases hold
      exact hroot rfl
    · exact absurd rfl hroot
  obtain ⟨table, htable⟩ := hd.table
  have htyped : ∀ y Q, loc y = some Q →
      ((pllua_datum_deform_tuple types pg x h).datum y).typed = (h.datum y).typed := by
    intro y Q hy
    by_cases hne : y = x
    · rw [hne, htable]
      rfl
    · rw [hd.frame y Q hy hne]
  unfold pllua_datum_explode_tuple
  simp only
  split
  · rename_i hnone
    refine ⟨loc₁, hd.inv, hrest₁, hd.grown, htyped, ?_, hother, hd.marked, hd.numbered⟩
    intro y Q hy hab
    by_contra hm
    obtain ⟨hxm, -⟩ := unmodified_below hd.inv hrest₁ hx₁ hy (by simpa using hm) hab
    rw [(hd.inv.row x P hx₁ hnone).1] at hxm
    cases hxm
  · rename_i ptr hv
    obtain ⟨-, -, hxm⟩ := hd.inv.flat x P ptr hx₁ hv
    obtain ⟨U, hu, hUP, hum, hud, href⟩ :=
      ultimate_parent_spec hd.inv x (Nat.le_refl x) hx₁ hxm (by rw [htable]; rfl)
    rw [@deform_id α types pg _ _ (Option.isSome_iff_ne_none.mp hud)]
    obtain ⟨loc₂, he⟩ := @explode_inner α types pg _ _ s loc₁ _ U hd.inv hu
      (fun y Q hy _ => hrest₁ y Q hy) hum hud (Nat.lt_succ_self _)
    have hrow : ((pllua_datum_deform_tuple types pg x h).type types x).is_row = true := by
      unfold Heap.type at ht ⊢
      rw [htable, ht]
      rfl
    have ho := he.opened hd.inv hrest₁ hu href hx₁ hUP hrow
    refine ⟨loc₂, ho.inv, ho.rest, fun y Q hy => ho.grown y Q (hd.grown y Q hy), ?_, ho.opened, ?_,
      fun marks hm => ho.marked marks (hd.marked marks hm), hd.numbered.trans ho.numbered⟩
    · exact fun y Q hy => (ho.typed y Q (hd.grown y Q hy)).trans (htyped y Q hy)
    intro y Q hy hroot
    obtain ⟨hold, hsame⟩ := ho.inside y Q hy hroot
    obtain ⟨hold', hsame'⟩ := hother y Q hold hroot
    exact ⟨hold', hsame.trans hsame'⟩

end

end pllua.datums
