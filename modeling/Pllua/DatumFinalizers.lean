-- What the garbage collector does to datums: it gives up those that nothing else refers to, and
-- runs their finalizers later, one at a time and in any order. The others keep what they hold.
import Pllua.DatumArrays

open pllua.catalog pllua.records

namespace pllua.datums

section
variable {α : Type}

/-- A datum after its finalizer. -/
def Datum.gone (d : Datum α) : Datum α :=
  if d.need_gc && d.value.isSome then
    { d with need_gc := false, metatable := false, finalised := true }
  else { d with finalised := true }

/-- The datum refers to none of these. -/
def Datum.Without (d : Datum α) (dead : List Id) : Prop :=
  (∀ z ∈ d.datumref, z ∉ dead) ∧ ∀ slots ∈ d.deformed, ∀ c ∈ dead, .datum c ∉ slots

instance (d : Datum α) (dead : List Id) : Decidable (d.Without dead) :=
  inferInstanceAs (Decidable (_ ∧ _))

/-- Nothing that is left refers to a datum that was given up. -/
def Unreferenced (h : Heap α) (dead : List Id) : Prop :=
  ∀ y, y < h.next → y ∉ dead → (h.datum y).finalised = false → (h.datum y).Without dead

instance (h : Heap α) (dead : List Id) : Decidable (Unreferenced h dead) :=
  inferInstanceAs (Decidable (∀ y, y < h.next → _))

/-- The places of the datums that are left. -/
def remaining (loc : Places) (dead : List Id) : Places := fun y => if y ∈ dead then none else loc y

theorem pfree_datum (h : Heap α) (ptr : Ptr α) : (h.pfree ptr).datum = h.datum := by
  unfold Heap.pfree Heap.use Heap.crash
  split
  · rfl
  · split <;> rfl

/-- The finalizer frees the memory of a datum that owns it, and only marks another one. -/
theorem gc_cases (h : Heap α) (x : Id) :
    (∃ ptr, (h.datum x).need_gc = true ∧ (h.datum x).value = some ptr ∧
      pllua_datum_gc x h = (h.pfree ptr).set x (h.datum x).gone) ∨
    ((h.datum x).need_gc && (h.datum x).value.isSome) = false ∧
      pllua_datum_gc x h = h.set x (h.datum x).gone := by
  unfold pllua_datum_gc Datum.gone
  cases hneed : (h.datum x).need_gc with
  | false => exact Or.inr ⟨rfl, by simp [hneed]⟩
  | true =>
    cases hv : (h.datum x).value with
    | none => exact Or.inr ⟨rfl, by simp [hneed, hv]⟩
    | some ptr => exact Or.inl ⟨ptr, rfl, rfl, by simp [hneed, hv]⟩

theorem gc_datum (h : Heap α) (x y : Id) :
    (pllua_datum_gc x h).datum y = if y = x then (h.datum x).gone else h.datum y := by
  rcases gc_cases h x with ⟨ptr, -, -, heq⟩ | ⟨-, heq⟩
  · rw [heq, Heap.set, pfree_datum]
    exact Function.update_apply _ _ _ _
  · rw [heq, Heap.set]
    exact Function.update_apply _ _ _ _

theorem gc_next (h : Heap α) (x : Id) :
    (pllua_datum_gc x h).next = h.next ∧ (pllua_datum_gc x h).next_chunk = h.next_chunk := by
  rcases gc_cases h x with ⟨ptr, -, -, heq⟩ | ⟨-, heq⟩
  · rw [heq]
    unfold Heap.pfree Heap.use Heap.crash
    split
    · exact ⟨rfl, rfl⟩
    · split <;> exact ⟨rfl, rfl⟩
  · rw [heq]
    exact ⟨rfl, rfl⟩

/-- A datum that owns its chunk, as the finalizer sees it. -/
def Frees (h : Heap α) (x : Id) (c : Chunk) : Prop :=
  (h.datum x).need_gc = true ∧ ∃ ptr, (h.datum x).value = some ptr ∧ ptr.chunk = some c

/-- A finalizer frees the chunk of its datum, which must not have been freed before. -/
theorem gc_freed (h : Heap α) (x : Id) :
    (∀ c, (pllua_datum_gc x h).freed c = true → h.freed c = true ∨ Frees h x c) ∧
      (h.fault = false → (∀ c, Frees h x c → h.freed c = false) →
        (pllua_datum_gc x h).fault = false) := by
  rcases gc_cases h x with ⟨ptr, hneed, hv, heq⟩ | ⟨-, heq⟩
  · rw [heq]
    unfold Heap.pfree
    cases hc : ptr.chunk with
    | none => exact ⟨fun c hf => Or.inl hf, fun hf _ => hf⟩
    | some c₀ =>
      have howns : Frees h x c₀ := ⟨hneed, ptr, hv, hc⟩
      constructor
      · intro c hf
        by_cases hcc : c = c₀
        · exact Or.inr (hcc ▸ howns)
        · have hf' : Function.update h.freed c₀ true c = true := hf
          rw [Function.update_of_ne hcc] at hf'
          exact Or.inl hf'
      · intro hf hfree
        have huse : h.use ptr = h := by simp [Heap.use, hc, hfree c₀ howns]
        rw [huse]
        exact hf
  · rw [heq]
    exact ⟨fun c hf => Or.inl hf, fun hf _ => hf⟩

/-! ## What is left -/

variable {types : Types} {h : Heap α} {s : Forest α} {loc : Places} {marks : Marks}
  {dead : List Id}

theorem remaining_cases {y : Id} {Q : Place} (hy : remaining loc dead y = some Q) :
    y ∉ dead ∧ loc y = some Q := by
  unfold remaining at hy
  split at hy
  · cases hy
  · rename_i hnot
    exact ⟨hnot, hy⟩

theorem remaining_of_not_dead {y : Id} (hy : y ∉ dead) : remaining loc dead y = loc y := if_neg hy

/-- What is left refers to what is left. -/
theorem Inv.unreferenced (hi : Inv types h s loc) (hdead : Unreferenced h dead) {y : Id} {Q : Place}
    (hy : loc y = some Q) (hnot : y ∉ dead) :
    (∀ z, (h.datum y).datumref = some z → z ∉ dead) ∧
      ∀ i c, h.slot y i = some (.datum c) → c ∉ dead := by
  obtain ⟨hlt, halive, -⟩ := hi.alive y Q hy
  obtain ⟨href, hslots⟩ := hdead y hlt hnot halive
  refine ⟨href, ?_⟩
  intro i c hc hmem
  unfold Heap.slot at hc
  cases hd : (h.datum y).deformed with
  | none =>
    rw [hd] at hc
    cases hc
  | some slots =>
    rw [hd] at hc
    exact hslots slots hd c hmem (List.mem_of_getElem? hc)

/-- Giving up datums that nothing refers to leaves the others as they are. -/
theorem Inv.lose (hi : Inv types h s loc) (hdead : Unreferenced h dead) :
    Inv types h s (remaining loc dead) := by
  have hold : ∀ {y Q}, remaining loc dead y = some Q → loc y = some Q :=
    fun hy => (remaining_cases hy).2
  constructor
  case calm => exact hi.calm
  case unused => exact hi.unused
  case alive => exact fun y Q hy => hi.alive y Q (hold hy)
  case planted => exact fun y Q hy => hi.planted y Q (hold hy)
  case inj => exact fun y z Q hy hz => hi.inj y z Q (hold hy) (hold hz)
  case flat => exact fun y Q ptr hy hv => hi.flat y Q ptr (hold hy) hv
  case row => exact fun y Q hy hv => hi.row y Q (hold hy) hv
  case slots =>
    intro y Q slots hy hd
    obtain ⟨hnot, hy⟩ := remaining_cases hy
    obtain ⟨attrs, ht, hlen, hok⟩ := hi.slots y Q slots hy hd
    refine ⟨attrs, ht, hlen, ?_⟩
    intro i att slot hatt hslot
    have hslotok := hok i att slot hatt hslot
    cases slot with
    | datum c =>
      have hc : c ∉ dead := by
        refine (hi.unreferenced hdead hy hnot).2 i c ?_
        unfold Heap.slot
        rw [hd]
        exact hslot
      exact ⟨hslotok.1, (remaining_of_not_dead hc).trans hslotok.2.1, hslotok.2.2⟩
    | null | dropped | absent => exact hslotok
  case lined => exact fun b y Q R i hb hy hab => hi.lined b y Q R i (hold hb) (hold hy) hab
  case refs =>
    intro y Q z hy hz
    obtain ⟨hnot, hy⟩ := remaining_cases hy
    have hznot := (hi.unreferenced hdead hy hnot).1 z hz
    obtain ⟨h1, h2, R, i, h3, h4⟩ := hi.refs y Q z hy hz
    exact ⟨h1, h2, R, i, (remaining_of_not_dead hznot).trans h3, h4⟩
  case bytes => exact fun y Q ptr c hy hv hc => hi.bytes y Q ptr c (hold hy) hv hc
  case owned => exact hi.owned
  case owners => exact hi.owners
  case byval => exact fun y Q p hy hp hby => hi.byval y Q p (hold hy) hp hby

/-- No finalizer of a datum that was given up frees memory that is still in use. -/
theorem Inv.kept_memory (hi : Inv types h s loc) {x : Id} {c : Chunk} (hx : loc x = none)
    (hxc : Frees h x c) : ∀ (y : Id) (Q : Place) (ptr : Ptr α), loc y = some Q →
      (h.datum y).value = some ptr → ptr.chunk ≠ some c := by
  intro y
  -- along the references, from a datum to the one that owns its memory
  induction y using Nat.strongRecOn with
  | ind y ih =>
    intro Q ptr hy hv hc
    obtain ⟨hneed, ptr', hv', hc'⟩ := hxc
    obtain ⟨-, -, hown | ⟨z, ptr'', hz, hzv, hzc⟩⟩ := hi.bytes y Q ptr c hy hv hc
    · have heq := hi.owners y x ptr ptr' hown hneed hv hv' (hc.trans hc'.symm)
      rw [heq, hx] at hy
      cases hy
    · obtain ⟨hlt, -, R, i, hzloc, -⟩ := hi.refs y Q z hy hz
      exact ih z hlt R ptr'' hzloc hzv hzc

/-- The finalizer of a datum that was given up. -/
theorem Inv.finalize (hi : Inv types h s loc) {x : Id} (hx : loc x = none) :
    Inv types (pllua_datum_gc x h) s loc := by
  obtain ⟨hnext, hnext_chunk⟩ := gc_next h x
  obtain ⟨hfreed, hfault⟩ := gc_freed h x
  have hchunk : ∀ {c}, Frees h x c → c < h.next_chunk ∧ h.freed c = false := by
    rintro c ⟨hneed, ptr, hv, hc⟩
    obtain ⟨-, p, d, hp, hd, hlt, hfree⟩ := hi.owned x hneed
    rw [hv] at hp
    cases hp
    rw [hc] at hd
    cases hd
    exact ⟨hlt, hfree⟩
  have hne : ∀ {y Q}, loc y = some Q → y ≠ x := by
    rintro y Q hy rfl
    rw [hx] at hy
    cases hy
  have hsame : ∀ {y}, y ≠ x → (pllua_datum_gc x h).datum y = h.datum y :=
    fun hne => (gc_datum h x _).trans (if_neg hne)
  have hslot : ∀ {y}, y ≠ x → ∀ i, (pllua_datum_gc x h).slot y i = h.slot y i := by
    intro y hne i
    unfold Heap.slot
    rw [hsame hne]
  have htype : ∀ {y}, y ≠ x → (pllua_datum_gc x h).type types y = h.type types y := by
    intro y hne
    unfold Heap.type
    rw [hsame hne]
  -- the finalizer leaves nothing of its own datum to be freed
  have hdone : ((pllua_datum_gc x h).datum x).need_gc = false := by
    rw [gc_datum, if_pos rfl]
    unfold Datum.gone
    split
    · rfl
    · rename_i howns
      cases hneed : (h.datum x).need_gc with
      | false => rfl
      | true =>
        obtain ⟨-, ptr, _, hv, -⟩ := hi.owned x hneed
        rw [hneed, hv] at howns
        exact absurd rfl howns
  have hother : ∀ {y}, ((pllua_datum_gc x h).datum y).need_gc = true → y ≠ x := by
    rintro y hneed rfl
    rw [hdone] at hneed
    cases hneed
  constructor
  case calm => exact hfault hi.calm fun c hxc => (hchunk hxc).2
  case unused =>
    intro c hc
    rw [hnext_chunk] at hc
    by_contra hnot
    rcases hfreed c (by simpa using hnot) with hold | hxc
    · rw [hi.unused c hc] at hold
      cases hold
    · exact absurd (hchunk hxc).1 (Nat.not_lt_of_le hc)
  case alive =>
    intro y Q hy
    rw [hsame (hne hy), hnext]
    exact hi.alive y Q hy
  case planted => exact hi.planted
  case inj => exact hi.inj
  case flat =>
    intro y Q ptr hy hv
    rw [hsame (hne hy)] at hv ⊢
    exact hi.flat y Q ptr hy hv
  case row =>
    intro y Q hy hv
    rw [hsame (hne hy)] at hv ⊢
    rw [htype (hne hy)]
    exact hi.row y Q hy hv
  case slots =>
    intro y Q slots hy hd
    rw [hsame (hne hy)] at hd
    rw [htype (hne hy)]
    obtain ⟨attrs, ht, hlen, hok⟩ := hi.slots y Q slots hy hd
    refine ⟨attrs, ht, hlen, ?_⟩
    intro i att slot hatt hslot
    have hslotok := hok i att slot hatt hslot
    cases slot with
    | datum c =>
      refine ⟨hslotok.1, hslotok.2.1, ?_⟩
      rw [hsame (hne hslotok.2.1)]
      exact hslotok.2.2
    | null | dropped | absent => exact hslotok
  case lined =>
    intro b y Q R i hb hy hab
    rw [hslot (hne hb)]
    exact hi.lined b y Q R i hb hy hab
  case refs =>
    intro y Q z hy hz
    rw [hsame (hne hy)] at hz
    obtain ⟨h1, h2, R, i, h3, h4⟩ := hi.refs y Q z hy hz
    rw [hsame (hne h3)]
    exact ⟨h1, h2, R, i, h3, (hslot (hne h3) i).trans h4⟩
  case bytes =>
    intro y Q ptr c hy hv hc
    rw [hsame (hne hy)] at hv ⊢
    obtain ⟨h1, h2, h3⟩ := hi.bytes y Q ptr c hy hv hc
    rw [hnext_chunk]
    refine ⟨h1, ?_, ?_⟩
    · by_contra hf
      rcases hfreed c (by simpa using hf) with hold | hxc
      · rw [h2] at hold
        cases hold
      · exact hi.kept_memory hx hxc y Q ptr hy hv hc
    · rcases h3 with hown | ⟨z, ptr', hz, hzv, hzc⟩
      · exact Or.inl hown
      · obtain ⟨-, -, R, i, hzloc, -⟩ := hi.refs y Q z hy hz
        exact Or.inr ⟨z, ptr', hz, by rw [hsame (hne hzloc)]; exact hzv, hzc⟩
  case owned =>
    intro y hneed
    have hyx := hother hneed
    rw [hsame hyx] at hneed ⊢
    obtain ⟨hlt, ptr, c, hv, hc, hlt', hfree⟩ := hi.owned y hneed
    rw [hnext, hnext_chunk]
    refine ⟨hlt, ptr, c, hv, hc, hlt', ?_⟩
    by_contra hf
    rcases hfreed c (by simpa using hf) with hold | ⟨hneed', ptr', hv', hc'⟩
    · rw [hfree] at hold
      cases hold
    · exact hyx (hi.owners y x ptr ptr' hneed hneed' hv hv' (hc.trans hc'.symm))
  case owners =>
    intro y z p p' hny hnz hp hp' hc
    have hyx := hother hny
    have hzx := hother hnz
    rw [hsame hyx] at hny hp
    rw [hsame hzx] at hnz hp'
    exact hi.owners y z p p' hny hnz hp hp' hc
  case byval =>
    intro y Q p hy hp hby
    rw [hsame (hne hy)] at hp
    rw [htype (hne hy)] at hby
    exact hi.byval y Q p hy hp hby

theorem Settled.lose (hs : Settled types h s loc marks) (hdead : Unreferenced h dead) :
    Settled types h s (remaining loc dead) marks := by
  have hold : ∀ {y Q}, remaining loc dead y = some Q → loc y = some Q :=
    fun hy => (remaining_cases hy).2
  refine ⟨hs.inv.lose hdead, fun y Q hy => hs.rest y Q (hold hy), ?_, ?_, hs.marked.unused⟩
  · exact fun x P i attrs att slot hx => hs.marked.slots x P i attrs att slot (hold hx)
  · exact fun x P i Q hx => hs.marked.whole x P i Q (hold hx)

theorem Settled.finalize (hs : Settled types h s loc marks) {x : Id} (hx : loc x = none) :
    Settled types (pllua_datum_gc x h) s loc marks := by
  have hne : ∀ {y Q}, loc y = some Q → (pllua_datum_gc x h).datum y = h.datum y := by
    intro y Q hy
    rw [gc_datum, if_neg]
    rintro rfl
    rw [hx] at hy
    cases hy
  refine ⟨hs.inv.finalize hx, ?_, hs.marked.of_unmarked ?_⟩
  · intro y Q hy hm i c hc
    rw [hne hy] at hm
    have hc' : h.slot y i = some (.datum c) := by
      unfold Heap.slot at hc ⊢
      rw [hne hy] at hc
      exact hc
    obtain ⟨-, -, -, -, -, hcloc, -⟩ := hs.inv.slot_datum hy hc'
    rw [hne hcloc]
    exact hs.rest y Q hy hm i c hc'
  · intro y
    rw [gc_datum]
    unfold Datum.gone
    split
    · rename_i heq
      subst heq
      split <;> exact ⟨rfl, rfl, rfl, id⟩
    · exact ⟨rfl, rfl, rfl, id⟩

end

end pllua.datums
