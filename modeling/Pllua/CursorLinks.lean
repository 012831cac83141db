-- The law of the links between cursors and portals: a cursor with a portal has
-- an armed callback in the memory of the portal, and a callback is armed only
-- for a cursor that has its portal and is not freed. It holds in every run.
import Mathlib.Data.List.Basic
import Pllua.Cursors

open pllua.runs

namespace pllua.spi

/-! ## Fields after updates -/

section
variable (s : State)

@[simp] theorem set_cursor_self (c : CursorId) (curs : Cursor) :
    (s.set_cursor c curs).cursors c = curs := by simp [State.set_cursor]

theorem set_cursor_of_ne {c k : CursorId} (curs : Cursor) (h : k ≠ c) :
    (s.set_cursor c curs).cursors k = s.cursors k := by simp [State.set_cursor, h]

@[simp] theorem set_life_self (c : CursorId) (l : Life) : (s.set_life c l).life c = l := by
  simp [State.set_life]

theorem set_life_of_ne {c k : CursorId} (l : Life) (h : k ≠ c) :
    (s.set_life c l).life k = s.life k := by simp [State.set_life, h]

@[simp] theorem set_registry_self (p : Portal) (c : Option CursorId) :
    (s.set_registry p c).registry p = c := by simp [State.set_registry]

theorem set_registry_of_ne {p q : Portal} (c : Option CursorId) (h : q ≠ p) :
    (s.set_registry p c).registry q = s.registry q := by simp [State.set_registry, h]

@[simp] theorem set_callbacks_self (p : Portal) (cs : List CursorId) :
    (s.set_callbacks p cs).callbacks p = cs := by simp [State.set_callbacks]

theorem set_callbacks_of_ne {p q : Portal} (cs : List CursorId) (h : q ≠ p) :
    (s.set_callbacks p cs).callbacks q = s.callbacks q := by simp [State.set_callbacks, h]

end

/-! ## The law -/

/-- The object is still in the weak tables. -/
def Life.listed : Life → Prop
  | .reachable | .unreachable => True
  | _ => False

structure Linked (s : State) : Prop where
  fresh : ∀ c, s.next_cursor ≤ c → s.life c = .freed
  armed : ∀ c p, (s.cursors c).portal = some p → c ∈ s.callbacks p ∧
    (s.cursors c).cb = some p ∧ (s.cursors c).is_live = true ∧ s.life c ≠ .freed
  callback : ∀ c p, c ∈ s.callbacks p → (s.cursors c).portal = some p
  entry : ∀ p c, s.registry p = some c → (s.life c).listed
  calling : ∀ a ∈ s.attaching, s.life a.curs = .reachable

/-- A cursor after its callback. -/
def Cursor.closed (curs : Cursor) : Cursor :=
  { curs with portal := none, cb := none, is_live := false }

/-- What the callbacks of cursors of one portal do. -/
structure CallbacksRun (p : Portal) (cs : List CursorId) (s s' : State) : Prop where
  life : s'.life = s.life
  next_cursor : s'.next_cursor = s.next_cursor
  portals : s'.portals = s.portals
  callbacks : s'.callbacks = s.callbacks
  attaching : s'.attaching = s.attaching
  cursors : ∀ c, s'.cursors c =
    if c ∈ cs ∧ (s.cursors c).is_live = true then (s.cursors c).closed else s.cursors c
  others : ∀ q, q ≠ p → s'.registry q = s.registry q
  registry : s'.registry p = none ∨
    s'.registry p = s.registry p ∧ ∀ c ∈ cs, (s.cursors c).is_live = false

theorem cursor_cb_live {s : State} {c : CursorId} {p : Portal} (hl : (s.cursors c).is_live = true)
    (hp : (s.cursors c).portal = some p) :
    pllua_cursor_cb s c = (s.set_cursor c (s.cursors c).closed).set_registry p none := by
  unfold pllua_cursor_cb
  simp only [hl, if_true, hp]
  rfl

theorem cursor_cb_dead {s : State} {c : CursorId} (hl : (s.cursors c).is_live = false) :
    pllua_cursor_cb s c = s := by
  unfold pllua_cursor_cb
  simp [hl]

theorem callbacks_run (p : Portal) (cs : List CursorId) (s : State)
    (h : ∀ c ∈ cs, (s.cursors c).is_live = true → (s.cursors c).portal = some p) :
    CallbacksRun p cs s (cs.foldl pllua_cursor_cb s) := by
  induction cs generalizing s with
  | nil => exact ⟨rfl, rfl, rfl, rfl, rfl, by simp, fun _ _ => rfl, Or.inr ⟨rfl, by simp⟩⟩
  | cons c cs ih =>
    rw [List.foldl_cons]
    cases hl : (s.cursors c).is_live with
    | false =>
      rw [cursor_cb_dead hl]
      have hr := ih s fun k hk => h k (List.mem_cons_of_mem _ hk)
      refine ⟨hr.life, hr.next_cursor, hr.portals, hr.callbacks, hr.attaching, ?_, hr.others, ?_⟩
      · intro k
        rw [hr.cursors k]
        by_cases hk : k = c
        · subst hk
          simp [hl]
        · simp [hk]
      · rcases hr.registry with hnone | ⟨hsame, hdead⟩
        · exact Or.inl hnone
        · refine Or.inr ⟨hsame, ?_⟩
          intro k hk
          rcases List.mem_cons.mp hk with rfl | hk
          · exact hl
          · exact hdead k hk
    | true =>
      have hp := h c List.mem_cons_self hl
      rw [cursor_cb_live hl hp]
      have hcurs : ∀ k, (((s.set_cursor c (s.cursors c).closed).set_registry p none).cursors k) =
          if k = c then (s.cursors c).closed else s.cursors k := by
        intro k
        by_cases hk : k = c
        · subst hk
          simp [State.set_registry]
        · simp only [State.set_registry, hk, if_false]
          exact set_cursor_of_ne s _ hk
      have hr := ih ((s.set_cursor c (s.cursors c).closed).set_registry p none) (by
        intro k hk
        rw [hcurs k]
        split
        · intro hdead
          cases hdead
        · exact h k (List.mem_cons_of_mem _ hk))
      refine ⟨hr.life, hr.next_cursor, hr.portals, hr.callbacks, hr.attaching, ?_, ?_, ?_⟩
      · intro k
        rw [hr.cursors k, hcurs k]
        by_cases hk : k = c
        · subst hk
          simp [Cursor.closed, hl]
        · simp [hk]
      · intro q hq
        rw [hr.others q hq]
        exact set_registry_of_ne _ _ hq
      · rcases hr.registry with hnone | ⟨hsame, -⟩
        · exact Or.inl hnone
        · exact Or.inl (hsame.trans (set_registry_self _ _ _))

/-- What the drop of a portal does. -/
structure Dropped (p : Portal) (s s' : State) : Prop where
  life : s'.life = s.life
  next_cursor : s'.next_cursor = s.next_cursor
  attaching : s'.attaching = s.attaching
  portals : s'.portals = s.portals.filter (·.1 ≠ p)
  callbacks : ∀ q, s'.callbacks q = if q = p then [] else s.callbacks q
  cursors : ∀ c, s'.cursors c =
    if (s.cursors c).portal = some p then (s.cursors c).closed else s.cursors c
  others : ∀ q, q ≠ p → s'.registry q = s.registry q
  registry : s'.registry p = none ∨
    s'.registry p = s.registry p ∧ ∀ c, (s.cursors c).portal ≠ some p

theorem drop_spec {s : State} (h : Linked s) (p : Portal) : Dropped p s (drop_portal p s) := by
  have hr := callbacks_run p (s.callbacks p)
    { s.set_callbacks p [] with portals := s.portals.filter (·.1 ≠ p) }
    (fun c hc _ => h.callback c p hc)
  have hiff : ∀ c, (c ∈ s.callbacks p ∧ (s.cursors c).is_live = true) ↔
      (s.cursors c).portal = some p := by
    intro c
    constructor
    · intro hc
      exact h.callback c p hc.1
    · intro hp
      exact ⟨(h.armed c p hp).1, (h.armed c p hp).2.2.1⟩
  refine ⟨hr.life, hr.next_cursor, hr.attaching, hr.portals, ?_, ?_, hr.others, ?_⟩
  · intro q
    have hcall : (drop_portal p s).callbacks = (s.set_callbacks p []).callbacks := hr.callbacks
    rw [hcall]
    by_cases hq : q = p
    · subst hq
      simp
    · rw [if_neg hq]
      exact set_callbacks_of_ne s [] hq
  · intro c
    have hc : (drop_portal p s).cursors c = if c ∈ s.callbacks p ∧ (s.cursors c).is_live = true then
        (s.cursors c).closed else s.cursors c := hr.cursors c
    rw [hc]
    by_cases hp : (s.cursors c).portal = some p
    · rw [if_pos ((hiff c).mpr hp), if_pos hp]
    · rw [if_neg (fun hcp => hp ((hiff c).mp hcp)), if_neg hp]
  · rcases hr.registry with hnone | ⟨hsame, hdead⟩
    · exact Or.inl hnone
    · refine Or.inr ⟨hsame, ?_⟩
      intro c hp
      obtain ⟨hmem, -, hlive, -⟩ := h.armed c p hp
      rw [show (s.cursors c).is_live = false from hdead c hmem] at hlive
      cases hlive

theorem linked_drop {s : State} (h : Linked s) (p : Portal) : Linked (drop_portal p s) := by
  have hd := drop_spec h p
  have hportal : ∀ c q, ((drop_portal p s).cursors c).portal = some q →
      q ≠ p ∧ (s.cursors c).portal = some q ∧ (drop_portal p s).cursors c = s.cursors c := by
    intro c q hq
    rw [hd.cursors c] at hq ⊢
    split at hq
    · cases hq
    · rename_i hp
      refine ⟨?_, hq, if_neg hp⟩
      rintro rfl
      exact hp hq
  refine ⟨?_, ?_, ?_, ?_, ?_⟩
  · intro c hc
    rw [hd.next_cursor] at hc
    rw [hd.life]
    exact h.fresh c hc
  · intro c q hq
    obtain ⟨hne, hold, hsame⟩ := hportal c q hq
    rw [hsame, hd.life, hd.callbacks, if_neg hne]
    exact h.armed c q hold
  · intro c q hc
    rw [hd.callbacks] at hc
    split at hc
    · cases hc
    · rename_i hne
      have hold := h.callback c q hc
      rw [hd.cursors c, if_neg]
      · exact hold
      · rw [hold]
        intro heq
        exact hne (Option.some.inj heq)
  · intro q c hq
    rw [hd.life]
    by_cases hne : q = p
    · subst hne
      rcases hd.registry with hnone | ⟨hsame, -⟩
      · rw [hnone] at hq
        cases hq
      · exact h.entry q c (hsame ▸ hq)
    · rw [hd.others q hne] at hq
      exact h.entry q c hq
  · rw [hd.attaching, hd.life]
    exact h.calling

/-! ## Setting the portal of a cursor -/

/-- What `dissociate` does for a cursor that has a portal. -/
theorem dissociate_some {s : State} (h : Linked s) {c : CursorId} {p : Portal}
    (hp : (s.cursors c).portal = some p) :
    dissociate c s = ((s.set_callbacks p ((s.callbacks p).filter (· ≠ c))).set_registry p
      none).set_cursor c { s.cursors c with portal := none } := by
  unfold dissociate
  simp only [hp, (h.armed c p hp).2.1]

theorem dissociate_none {s : State} {c : CursorId} (hp : (s.cursors c).portal = none) :
    dissociate c s = s := by
  unfold dissociate
  simp only [hp]

theorem dissociate_portal {s : State} (h : Linked s) (c : CursorId) :
    ((dissociate c s).cursors c).portal = none := by
  cases hp : (s.cursors c).portal with
  | none => rw [dissociate_none hp, hp]
  | some p => rw [dissociate_some h hp, set_cursor_self]

theorem dissociate_life {s : State} (h : Linked s) (c : CursorId) :
    (dissociate c s).life = s.life := by
  cases hp : (s.cursors c).portal with
  | none => rw [dissociate_none hp]
  | some p =>
    rw [dissociate_some h hp]
    rfl

theorem linked_dissociate {s : State} (h : Linked s) (c : CursorId) : Linked (dissociate c s) := by
  cases hp : (s.cursors c).portal with
  | none =>
    rw [dissociate_none hp]
    exact h
  | some p =>
    rw [dissociate_some h hp]
    refine ⟨h.fresh, ?_, ?_, ?_, h.calling⟩
    · intro k q hq
      have hk : k ≠ c := by
        rintro rfl
        simp at hq
      rw [set_cursor_of_ne _ _ hk] at hq ⊢
      obtain ⟨hmem, hrest⟩ := h.armed k q hq
      refine ⟨?_, hrest⟩
      by_cases hqp : q = p
      · subst hqp
        show k ∈ (s.set_callbacks q _).callbacks q
        rw [set_callbacks_self]
        exact List.mem_filter.mpr ⟨hmem, by simpa using hk⟩
      · show k ∈ (s.set_callbacks p _).callbacks q
        rw [set_callbacks_of_ne _ _ hqp]
        exact hmem
    · intro k q hk
      have hk' : k ≠ c ∧ k ∈ s.callbacks q := by
        by_cases hqp : q = p
        · subst hqp
          have hmem : k ∈ (s.set_callbacks q ((s.callbacks q).filter (· ≠ c))).callbacks q := hk
          rw [set_callbacks_self] at hmem
          obtain ⟨hmem, hne⟩ := List.mem_filter.mp hmem
          exact ⟨by simpa using hne, hmem⟩
        · have hmem : k ∈ (s.set_callbacks p ((s.callbacks p).filter (· ≠ c))).callbacks q := hk
          rw [set_callbacks_of_ne _ _ hqp] at hmem
          refine ⟨?_, hmem⟩
          rintro rfl
          exact hqp (Option.some.inj ((h.callback k q hmem).symm.trans hp))
      rw [set_cursor_of_ne _ _ hk'.1]
      exact h.callback k q hk'.2
    · intro q k hq
      by_cases hqp : q = p
      · subst hqp
        have hnone : (none : Option CursorId) = some k := (set_registry_self _ q none).symm.trans hq
        cases hnone
      · exact h.entry q k ((set_registry_of_ne _ none hqp).symm.trans hq)

theorem linked_associate {s : State} (h : Linked s) {c : CursorId} {p : Portal} (is_ours : Bool)
    (L : Thread) (hp : (s.cursors c).portal = none) (hl : s.life c = .reachable) :
    Linked (associate c p is_ours L s) := by
  refine ⟨h.fresh, ?_, ?_, ?_, h.calling⟩
  · intro k q hq
    by_cases hk : k = c
    · subst hk
      have hqp : some p = some q := by
        have hq : ((associate k p is_ours L s).cursors k).portal = some q := hq
        unfold associate at hq
        rw [set_cursor_self] at hq
        exact hq
      cases hqp
      unfold associate
      rw [set_cursor_self]
      refine ⟨?_, rfl, rfl, ?_⟩
      · show k ∈ ((s.set_registry p (some k)).set_callbacks p (k :: s.callbacks p)).callbacks p
        rw [set_callbacks_self]
        exact List.mem_cons_self
      · show s.life k ≠ .freed
        rw [hl]
        simp
    · unfold associate at hq ⊢
      rw [set_cursor_of_ne _ _ hk] at hq ⊢
      obtain ⟨hmem, hrest⟩ := h.armed k q hq
      refine ⟨?_, hrest⟩
      show k ∈ ((s.set_registry p (some c)).set_callbacks p (c :: s.callbacks p)).callbacks q
      by_cases hqp : q = p
      · subst hqp
        rw [set_callbacks_self]
        exact List.mem_cons_of_mem _ hmem
      · rw [set_callbacks_of_ne _ _ hqp]
        exact hmem
  · intro k q hk
    have hk' : k = c ∧ q = p ∨ k ∈ s.callbacks q := by
      by_cases hqp : q = p
      · subst hqp
        have hmem : k ∈ ((s.set_registry q (some c)).set_callbacks q
          (c :: s.callbacks q)).callbacks q := hk
        rw [set_callbacks_self] at hmem
        rcases List.mem_cons.mp hmem with rfl | hmem
        · exact Or.inl ⟨rfl, rfl⟩
        · exact Or.inr hmem
      · have hmem : k ∈ ((s.set_registry p (some c)).set_callbacks p
          (c :: s.callbacks p)).callbacks q := hk
        rw [set_callbacks_of_ne _ _ hqp] at hmem
        exact Or.inr hmem
    unfold associate
    rcases hk' with ⟨rfl, rfl⟩ | hmem
    · rw [set_cursor_self]
    · have hold := h.callback k q hmem
      have hne : k ≠ c := by
        rintro rfl
        rw [hp] at hold
        cases hold
      rw [set_cursor_of_ne _ _ hne]
      exact hold
  · intro q k hq
    by_cases hqp : q = p
    · subst hqp
      have hk : some c = some k := (set_registry_self s q (some c)).symm.trans hq
      cases hk
      show (s.life c).listed
      rw [hl]
      trivial
    · exact h.entry q k ((set_registry_of_ne s (some c) hqp).symm.trans hq)

/-- The rule for `pllua_cursor_setportal`: `I` holds once the cursor is dissociated, and the
drop of its old portal keeps it; the association with the new portal makes `J` of it. -/
theorem setportal_rule {I J : State → Prop} {luck : Luck} {c : CursorId} {portal : Option Portal}
    {is_ours : Bool} {L : Thread} {s : State} (hdis : I (dissociate c s))
    (hdrop : ∀ s' old, (s.cursors c).portal = some old → I s' → I (drop_portal old s'))
    (hassoc : ∀ s' p, portal = some p → I s' → J (associate c p is_ours L s'))
    (hend : ∀ s', I s' → J s') : J (pllua_cursor_setportal luck c portal is_ours L s) := by
  have hclosed : I (close_owned (if (s.cursors c).is_ours then (s.cursors c).portal else none)
      (dissociate c s)) := by
    unfold close_owned
    split
    · rename_i old hold
      refine hdrop _ old ?_ hdis
      split at hold
      · exact hold
      · cases hold
    · exact hdis
  unfold pllua_cursor_setportal
  simp only
  generalize (if (s.cursors c).is_ours then (s.cursors c).portal else none) = owned at hclosed ⊢
  split
  · exact hend _ hdis
  · cases portal with
    | none => exact hend _ hclosed
    | some p =>
      simp only
      split
      · exact hend _ hclosed
      · exact hassoc _ p rfl hclosed

/-- The cursor has no portal, and the objects are as they were. -/
structure Detached (c : CursorId) (s s' : State) : Prop where
  linked : Linked s'
  portal : (s'.cursors c).portal = none
  life : s'.life = s.life

theorem detached_dissociate {s : State} (h : Linked s) (c : CursorId) :
    Detached c s (dissociate c s) :=
  ⟨linked_dissociate h c, dissociate_portal h c, dissociate_life h c⟩

theorem detached_drop {c : CursorId} {s s' : State} (h : Detached c s s') (p : Portal) :
    Detached c s (drop_portal p s') := by
  have hd := drop_spec h.linked p
  refine ⟨linked_drop h.linked p, ?_, hd.life.trans h.life⟩
  rw [hd.cursors c, if_neg]
  · exact h.portal
  · rw [h.portal]
    simp

/-- A cursor that gives its portal away. -/
theorem detached_setportal {s : State} (h : Linked s) (luck : Luck) (c : CursorId)
    (is_ours : Bool) (L : Thread) :
    Detached c s (pllua_cursor_setportal luck c none is_ours L s) :=
  setportal_rule (I := Detached c s) (detached_dissociate h c)
    (fun _ old _ hs => detached_drop hs old) (fun _ _ hp => by cases hp) (fun _ hs => hs)

theorem linked_setportal {s : State} (h : Linked s) (luck : Luck) {c : CursorId} (p : Portal)
    (is_ours : Bool) (L : Thread) (hl : s.life c = .reachable) :
    Linked (pllua_cursor_setportal luck c (some p) is_ours L s) := by
  refine setportal_rule (I := Detached c s) (detached_dissociate h c)
    (fun _ old _ hs => detached_drop hs old) ?_ (fun _ hs => hs.linked)
  intro s' q _ hs
  refine linked_associate hs.linked is_ours L hs.portal ?_
  rw [hs.life]
  exact hl

/-! ## Each function keeps the law -/

theorem linked_set_life {s : State} (h : Linked s) {c : CursorId} {l : Life}
    (hold : (s.life c).listed) (hnew : l.listed)
    (hcall : l = .reachable ∨ ∀ a ∈ s.attaching, a.curs ≠ c) : Linked (s.set_life c l) := by
  have hlife : ∀ k, k ≠ c → (s.set_life c l).life k = s.life k := fun k hk => set_life_of_ne s l hk
  refine ⟨?_, ?_, h.callback, ?_, ?_⟩
  · intro k hk
    have hfree := h.fresh k hk
    by_cases hkc : k = c
    · subst hkc
      rw [hfree] at hold
      exact hold.elim
    · rw [hlife k hkc]
      exact hfree
  · intro k q hq
    obtain ⟨hmem, hcb, hlive, hfree⟩ := h.armed k q hq
    refine ⟨hmem, hcb, hlive, ?_⟩
    by_cases hkc : k = c
    · subst hkc
      rw [set_life_self]
      rintro rfl
      exact hnew
    · rw [hlife k hkc]
      exact hfree
  · intro q k hq
    by_cases hkc : k = c
    · subst hkc
      rw [set_life_self]
      exact hnew
    · rw [hlife k hkc]
      exact h.entry q k hq
  · intro a ha
    by_cases hac : a.curs = c
    · rcases hcall with rfl | hcall
      · rw [hac, set_life_self]
      · exact absurd hac (hcall a ha)
    · rw [hlife _ hac]
      exact h.calling a ha

theorem linked_newcursor {s : State} (h : Linked s) (name : Option String) (L : Thread) :
    Linked (pllua_newcursor name L s).2 := by
  have hfree := h.fresh s.next_cursor (Nat.le_refl _)
  have hnone : ∀ q, (s.cursors s.next_cursor).portal ≠ some q :=
    fun q hq => (h.armed _ q hq).2.2.2 hfree
  refine ⟨?_, ?_, ?_, ?_, ?_⟩
  · intro k hk
    have hle : s.next_cursor ≤ k := Nat.le_of_succ_le hk
    have hne : k ≠ s.next_cursor := Nat.ne_of_gt hk
    exact (set_life_of_ne s .reachable hne).trans (h.fresh k hle)
  · intro k q hq
    have hq : ((s.set_cursor s.next_cursor ⟨none, none, L, false, false, name⟩).cursors k).portal =
      some q := hq
    show k ∈ s.callbacks q ∧
      ((s.set_cursor s.next_cursor ⟨none, none, L, false, false, name⟩).cursors k).cb = some q ∧
      ((s.set_cursor s.next_cursor ⟨none, none, L, false, false, name⟩).cursors k).is_live = true ∧
      (s.set_life s.next_cursor .reachable).life k ≠ .freed
    by_cases hk : k = s.next_cursor
    · subst hk
      simp at hq
    · rw [set_cursor_of_ne _ _ hk] at hq ⊢
      rw [set_life_of_ne _ _ hk]
      exact h.armed k q hq
  · intro k q hk
    have hold := h.callback k q hk
    have hne : k ≠ s.next_cursor := by
      rintro rfl
      exact hnone q hold
    show ((s.set_cursor s.next_cursor ⟨none, none, L, false, false, name⟩).cursors k).portal = some q
    rw [set_cursor_of_ne _ _ hne]
    exact hold
  · intro q k hq
    have hlist := h.entry q k hq
    show ((s.set_life s.next_cursor .reachable).life k).listed
    by_cases hk : k = s.next_cursor
    · subst hk
      rw [set_life_self]
      trivial
    · rw [set_life_of_ne _ _ hk]
      exact hlist
  · intro a ha
    have hr := h.calling a ha
    show (s.set_life s.next_cursor .reachable).life a.curs = .reachable
    by_cases hk : a.curs = s.next_cursor
    · rw [hk, set_life_self]
    · rw [set_life_of_ne _ _ hk]
      exact hr

theorem linked_attaching {s : State} (h : Linked s) {as : List Attaching}
    (has : ∀ a ∈ as, s.life a.curs = .reachable) : Linked { s with attaching := as } :=
  ⟨h.fresh, h.armed, h.callback, h.entry, has⟩

theorem linked_portals {s : State} (h : Linked s) (ps : List (Portal × String)) :
    Linked { s with portals := ps } :=
  ⟨h.fresh, h.armed, h.callback, h.entry, h.calling⟩

theorem linked_findcursor {s : State} (h : Linked s) (name : String) (L : Thread) :
    Linked (pllua_spi_findcursor name L s).2 := by
  unfold pllua_spi_findcursor
  split
  · exact h
  · split
    · rename_i c hc
      split
      · exact h
      · exact linked_set_life h (h.entry _ c hc) trivial (Or.inl rfl)
    · have hnew := linked_newcursor h (some name) L
      refine linked_attaching hnew ?_
      intro a ha
      rcases List.mem_cons.mp ha with rfl | ha
      · exact set_life_self _ _ _
      · exact hnew.calling a ha

theorem linked_spi_newcursor {s : State} (h : Linked s) (name : Option String) (L : Thread) :
    Linked (pllua_spi_newcursor name L s) := by
  unfold pllua_spi_newcursor
  cases name with
  | none => exact linked_newcursor h none L
  | some name =>
    have hf := linked_findcursor h name L
    simp only
    split
    · rename_i s' heq
      rw [heq] at hf
      exact linked_newcursor hf (some name) L
    · rename_i r s' _ heq
      rw [heq] at hf
      exact hf

theorem linked_open {s : State} (h : Linked s) {c : CursorId} (p : Portal) (unnamed : String)
    (L : Thread) (hl : s.life c = .reachable) : Linked (pllua_spi_cursor_open c p unnamed L s) := by
  unfold pllua_spi_cursor_open
  simp only
  split
  · exact h
  · refine ⟨h.fresh, h.armed, h.callback, h.entry, ?_⟩
    intro a ha
    rcases List.mem_cons.mp ha with rfl | ha
    · exact hl
    · exact h.calling a ha

theorem linked_attach {s : State} (h : Linked s) (luck : Luck) : Linked (attach luck s) := by
  unfold attach
  split
  · exact h
  · rename_i a rest ha
    have hrest : ∀ b ∈ rest, s.life b.curs = .reachable := by
      intro b hb
      exact h.calling b (by rw [ha]; exact List.mem_cons_of_mem _ hb)
    exact linked_setportal (linked_attaching h hrest) luck a.portal a.is_ours a.L
      (h.calling a (by rw [ha]; exact List.mem_cons_self))

/-- Changing the owner changes no link. -/
theorem linked_is_ours {s : State} (h : Linked s) (c : CursorId) (is_ours : Bool) :
    Linked (s.set_cursor c { s.cursors c with is_ours }) := by
  have hsame : ∀ k, ((s.set_cursor c { s.cursors c with is_ours }).cursors k).portal =
        (s.cursors k).portal ∧
      ((s.set_cursor c { s.cursors c with is_ours }).cursors k).cb = (s.cursors k).cb ∧
      ((s.set_cursor c { s.cursors c with is_ours }).cursors k).is_live = (s.cursors k).is_live := by
    intro k
    by_cases hk : k = c
    · subst hk
      rw [set_cursor_self]
      exact ⟨rfl, rfl, rfl⟩
    · rw [set_cursor_of_ne _ _ hk]
      exact ⟨rfl, rfl, rfl⟩
  refine ⟨h.fresh, ?_, ?_, h.entry, h.calling⟩
  · intro k q hq
    rw [(hsame k).1] at hq
    rw [(hsame k).2.1, (hsame k).2.2]
    exact h.armed k q hq
  · intro k q hk
    rw [(hsame k).1]
    exact h.callback k q hk

theorem linked_set_ours {s : State} (h : Linked s) (is_ours : Bool) (c : CursorId) :
    Linked (set_ours is_ours c s) := by
  unfold set_ours
  simp only
  split
  · exact h
  · exact linked_is_ours h c is_ours

theorem linked_close {s : State} (h : Linked s) (luck : Luck) (c : CursorId) :
    Linked (pllua_cursor_close luck c s) := by
  unfold pllua_cursor_close
  simp only
  split
  · exact h
  · exact (detached_setportal (linked_is_ours h c true) luck c false _).linked

theorem linked_meta_close {s : State} (h : Linked s) (luck : Luck) (c : CursorId) :
    Linked (pllua_cursor_meta_close luck c s) := by
  unfold pllua_cursor_meta_close
  simp only
  split
  · exact h
  · exact (detached_setportal h luck c false _).linked

/-- A finalizer leaves the object without a portal. -/
theorem detached_gc {s : State} (h : Linked s) (luck : Luck) (c : CursorId) :
    Detached c s (pllua_cursor_gc luck c s) := by
  unfold pllua_cursor_gc
  simp only
  split
  · rename_i hdead
    refine ⟨h, ?_, rfl⟩
    cases hp : (s.cursors c).portal with
    | none => rfl
    | some p =>
      rw [hp, (h.armed c p hp).2.2.1] at hdead
      cases hdead
  · exact detached_setportal h luck c false _

theorem linked_clear {s : State} (h : Linked s) {c : CursorId} (hl : s.life c = .unreachable) :
    Linked (clear_weak c s) := by
  have hlife : ∀ k, k ≠ c → (clear_weak c s).life k = s.life k :=
    fun k hk => set_life_of_ne s .cleared hk
  refine ⟨?_, ?_, h.callback, ?_, ?_⟩
  · intro k hk
    have hfree := h.fresh k hk
    rw [hlife k (by rintro rfl; rw [hl] at hfree; cases hfree)]
    exact hfree
  · intro k q hq
    obtain ⟨hmem, hcb, hlive, hfree⟩ := h.armed k q hq
    refine ⟨hmem, hcb, hlive, ?_⟩
    by_cases hk : k = c
    · subst hk
      show (s.set_life k .cleared).life k ≠ .freed
      rw [set_life_self]
      simp
    · rw [hlife k hk]
      exact hfree
  · intro q k hq
    have hif : (if s.registry q = some c then none else s.registry q) = some k := hq
    split at hif
    · cases hif
    · rename_i hne
      have hk : k ≠ c := by
        rintro rfl
        exact hne hif
      rw [hlife k hk]
      exact h.entry q k hif
  · intro a ha
    have hr := h.calling a ha
    rw [hlife _ (by intro hac; rw [hac, hl] at hr; cases hr)]
    exact hr

theorem linked_finalize {s : State} (h : Linked s) (luck : Luck) {c : CursorId}
    (hl : s.life c = .cleared) : Linked ((pllua_cursor_gc luck c s).set_life c .freed) := by
  obtain ⟨hg, hportal, hlife⟩ := detached_gc h luck c
  have hcleared : (pllua_cursor_gc luck c s).life c = .cleared := by
    rw [hlife]
    exact hl
  generalize pllua_cursor_gc luck c s = s' at hg hportal hcleared
  have hother : ∀ k, k ≠ c → (s'.set_life c .freed).life k = s'.life k :=
    fun k hk => set_life_of_ne s' .freed hk
  refine ⟨?_, ?_, hg.callback, ?_, ?_⟩
  · intro k hk
    by_cases hkc : k = c
    · subst hkc
      exact set_life_self _ _ _
    · rw [hother k hkc]
      exact hg.fresh k hk
  · intro k q hq
    have hkc : k ≠ c := by
      rintro rfl
      have hq : (s'.cursors k).portal = some q := hq
      rw [hportal] at hq
      cases hq
    rw [hother k hkc]
    exact hg.armed k q hq
  · intro q k hq
    have hlist := hg.entry q k hq
    have hkc : k ≠ c := by
      rintro rfl
      rw [hcleared] at hlist
      exact hlist
    rw [hother k hkc]
    exact hlist
  · intro a ha
    have hr := hg.calling a ha
    rw [hother _ (by intro hac; rw [hac, hcleared] at hr; cases hr)]
    exact hr

/-- What each step keeps. -/
theorem step_linked (s : State) (a : Action) (h : Linked s) : Linked (step s a) := by
  cases a with
  | newcursor name L => exact linked_spi_newcursor h name L
  | findcursor name L => exact linked_findcursor h name L
  | begin_open c p unnamed L =>
    simp only [step]
    split
    · rename_i hl
      exact linked_open h p unnamed L hl
    · exact h
  | attach luck => exact linked_attach h luck
  | fail => exact linked_attaching h fun a ha => h.calling a (List.mem_of_mem_tail ha)
  | own c =>
    simp only [step]
    split
    · exact linked_set_ours h true c
    · exact h
  | disown c =>
    simp only [step]
    split
    · exact linked_set_ours h false c
    · exact h
  | close c luck =>
    simp only [step]
    split
    · exact linked_close h luck c
    · exact h
  | meta_close c luck =>
    simp only [step]
    split
    · exact linked_meta_close h luck c
    · exact h
  | declare p name =>
    simp only [step]
    split
    · exact h
    · exact linked_portals h _
  | drop p =>
    simp only [step]
    split
    · exact linked_drop h p
    · exact h
  | forget c =>
    simp only [step]
    split
    · rename_i hc
      exact linked_set_life h (by rw [hc.1]; trivial) trivial (Or.inr hc.2)
    · exact h
  | clear c =>
    simp only [step]
    split
    · rename_i hl
      exact linked_clear h hl
    · exact h
  | finalize c luck =>
    simp only [step]
    split
    · rename_i hl
      exact linked_finalize h luck hl
    · exact h

end pllua.spi
