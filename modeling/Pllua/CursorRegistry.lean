-- The law of the registry: an object that Lua code can reach and that has a
-- portal is the one that the registry gives for the portal. It breaks where an
-- old object of a portal is finalized after a new one has been made for it.
import Pllua.CursorLinks

open pllua.runs

namespace pllua.spi

/-! ## The law -/

def State.is_open (s : State) (p : Portal) : Bool := s.portals.any (·.1 = p)

structure Registered (s : State) : Prop where
  entry_portal : ∀ p c, s.registry p = some c → (s.cursors c).portal = some p
  found : ∀ c p, (s.cursors c).portal = some p → (s.life c).listed → s.registry p = some c
  opened : ∀ c p, (s.cursors c).portal = some p → s.is_open p = true

/-- The condition of a step. The portal of a `findcursor` or an `open` is still open when the
cursor gets it, and no other object has got it in between. The finalizer of an object with a
portal runs before another object gets the portal. -/
def Timely (s : State) : Action → Prop
  | .attach _ => ∀ a ∈ s.attaching.head?, s.is_open a.portal = true ∧ s.registry a.portal = none
  | .finalize c _ => s.life c = .cleared → ∀ p, (s.cursors c).portal = some p → s.registry p = none
  | _ => True

/-- A portal has one object that Lua code can reach at most, and the registry has it. -/
structure Unique (s : State) : Prop where
  registered : ∀ c p, s.life c = .reachable → (s.cursors c).portal = some p → s.registry p = some c
  single : ∀ c k p, s.life c = .reachable → s.life k = .reachable →
    (s.cursors c).portal = some p → (s.cursors k).portal = some p → c = k

theorem dissociate_registry {s : State} (hl : Linked s) (c : CursorId) (q : Portal) :
    (dissociate c s).registry q = s.registry q ∨
      (s.cursors c).portal = some q ∧ (dissociate c s).registry q = none := by
  cases hp : (s.cursors c).portal with
  | none =>
    rw [dissociate_none hp]
    exact Or.inl rfl
  | some p =>
    rw [dissociate_some hl hp]
    by_cases hq : q = p
    · subst hq
      exact Or.inr ⟨rfl, set_registry_self _ _ _⟩
    · exact Or.inl (set_registry_of_ne _ none hq)

theorem dissociate_portals {s : State} (hl : Linked s) (c : CursorId) :
    (dissociate c s).portals = s.portals := by
  cases hp : (s.cursors c).portal with
  | none => rw [dissociate_none hp]
  | some p =>
    rw [dissociate_some hl hp]
    rfl

theorem dissociate_cursor {s : State} (hl : Linked s) {c k : CursorId} (hk : k ≠ c) :
    (dissociate c s).cursors k = s.cursors k := by
  cases hp : (s.cursors c).portal with
  | none => rw [dissociate_none hp]
  | some p =>
    rw [dissociate_some hl hp]
    exact set_cursor_of_ne _ _ hk

/-- The entry of its portal is the cursor itself, if there is one. -/
def EntryOwn (c : CursorId) (s : State) : Prop :=
  ∀ p k, (s.cursors c).portal = some p → s.registry p = some k → k = c

theorem registered_dissociate {s : State} (hl : Linked s) (h : Registered s) {c : CursorId}
    (hc : EntryOwn c s) : Registered (dissociate c s) := by
  have hself := dissociate_portal hl c
  have hne : ∀ k q, ((dissociate c s).cursors k).portal = some q →
      k ≠ c ∧ (s.cursors k).portal = some q := by
    intro k q hq
    have hk : k ≠ c := by
      rintro rfl
      rw [hself] at hq
      cases hq
    rw [dissociate_cursor hl hk] at hq
    exact ⟨hk, hq⟩
  refine ⟨?_, ?_, ?_⟩
  · intro q k hq
    rcases dissociate_registry hl c q with hsame | ⟨-, hnone⟩
    · have hold := h.entry_portal q k (hsame ▸ hq)
      by_cases hk : k = c
      · subst hk
        -- then the entry has been removed
        rw [dissociate_some hl hold] at hq
        have hnone : (none : Option CursorId) = some k :=
          (set_registry_self _ q none).symm.trans hq
        cases hnone
      · rw [dissociate_cursor hl hk]
        exact hold
    · rw [hnone] at hq
      cases hq
  · intro k q hq hlist
    obtain ⟨hk, hold⟩ := hne k q hq
    rw [dissociate_life hl] at hlist
    have hreg := h.found k q hold hlist
    rcases dissociate_registry hl c q with hsame | ⟨hp, -⟩
    · exact hsame.trans hreg
    · exact absurd (hc q k hp hreg) hk
  · intro k q hq
    unfold State.is_open
    rw [dissociate_portals hl]
    exact h.opened k q (hne k q hq).2

theorem is_open_drop {s : State} (hl : Linked s) {p q : Portal} (hq : q ≠ p) :
    (drop_portal p s).is_open q = s.is_open q := by
  unfold State.is_open
  rw [(drop_spec hl p).portals, List.any_filter]
  congr 1
  funext e
  by_cases he : e.1 = q
  · simp [he, hq]
  · simp [he]

theorem registered_drop {s : State} (hl : Linked s) (h : Registered s) (p : Portal) :
    Registered (drop_portal p s) := by
  have hd := drop_spec hl p
  have hne : ∀ k q, ((drop_portal p s).cursors k).portal = some q →
      q ≠ p ∧ (s.cursors k).portal = some q := by
    intro k q hq
    rw [hd.cursors k] at hq
    split at hq
    · cases hq
    · rename_i hp
      refine ⟨?_, hq⟩
      rintro rfl
      exact hp hq
  refine ⟨?_, ?_, ?_⟩
  · intro q k hq
    by_cases hqp : q = p
    · subst hqp
      rcases hd.registry with hnone | ⟨hsame, hno⟩
      · rw [hnone] at hq
        cases hq
      · exact absurd (h.entry_portal q k (hsame ▸ hq)) (hno k)
    · rw [hd.others q hqp] at hq
      have hold := h.entry_portal q k hq
      rw [hd.cursors k, if_neg]
      · exact hold
      · rw [hold]
        intro heq
        exact hqp (Option.some.inj heq)
  · intro k q hq hlist
    obtain ⟨hqp, hold⟩ := hne k q hq
    rw [hd.life] at hlist
    rw [hd.others q hqp]
    exact h.found k q hold hlist
  · intro k q hq
    obtain ⟨hqp, hold⟩ := hne k q hq
    rw [is_open_drop hl hqp]
    exact h.opened k q hold

theorem registered_associate {s : State} (h : Registered s) {c : CursorId} {p : Portal}
    (is_ours : Bool) (L : Thread) (hc : (s.cursors c).portal = none) (hreg : s.registry p = none)
    (hopen : s.is_open p = true) : Registered (associate c p is_ours L s) := by
  have hself : ((associate c p is_ours L s).cursors c).portal = some p := by
    unfold associate
    rw [set_cursor_self]
  have hother : ∀ k, k ≠ c → (associate c p is_ours L s).cursors k = s.cursors k := by
    intro k hk
    unfold associate
    exact set_cursor_of_ne _ _ hk
  refine ⟨?_, ?_, ?_⟩
  · intro q k hq
    by_cases hqp : q = p
    · subst hqp
      have hk : some c = some k := (set_registry_self s q (some c)).symm.trans hq
      cases hk
      exact hself
    · have hold := h.entry_portal q k ((set_registry_of_ne s (some c) hqp).symm.trans hq)
      rw [hother k (by rintro rfl; rw [hc] at hold; cases hold)]
      exact hold
  · intro k q hq hlist
    by_cases hk : k = c
    · subst hk
      rw [hself] at hq
      cases hq
      exact set_registry_self s p (some k)
    · rw [hother k hk] at hq
      have hold := h.found k q hq hlist
      have hqp : q ≠ p := by
        rintro rfl
        rw [hreg] at hold
        cases hold
      exact (set_registry_of_ne s (some c) hqp).trans hold
  · intro k q hq
    by_cases hk : k = c
    · subst hk
      rw [hself] at hq
      cases hq
      exact hopen
    · rw [hother k hk] at hq
      exact h.opened k q hq

/-- A cursor that gives its portal away. -/
theorem registered_detach {s : State} (hl : Linked s) (h : Registered s) (luck : Luck)
    {c : CursorId} (is_ours : Bool) (L : Thread) (hc : EntryOwn c s) :
    Registered (pllua_cursor_setportal luck c none is_ours L s) := by
  refine setportal_rule (I := fun s' => Detached c s s' ∧ Registered s')
    ⟨detached_dissociate hl c, registered_dissociate hl h hc⟩ ?_ (fun _ _ hp => by cases hp)
    (fun _ hs => hs.2)
  rintro s' old - ⟨hd, hr⟩
  exact ⟨detached_drop hd old, registered_drop hd.linked hr old⟩

theorem entryOwn_of_reachable {s : State} (h : Registered s) {c : CursorId}
    (hl : s.life c = .reachable) : EntryOwn c s := by
  intro p k hp hk
  have hreg := h.found c p hp (by rw [hl]; trivial)
  exact Option.some.inj (hk.symm.trans hreg)

/-- A cursor that gets a portal that no object has. -/
theorem registered_setportal {s : State} (hl : Linked s) (h : Registered s) (luck : Luck)
    {c : CursorId} {p : Portal} (is_ours : Bool) (L : Thread) (hc : s.life c = .reachable)
    (hopen : s.is_open p = true) (hreg : s.registry p = none) :
    Registered (pllua_cursor_setportal luck c (some p) is_ours L s) := by
  refine setportal_rule
    (I := fun s' => (Detached c s s' ∧ Registered s') ∧ s'.is_open p = true ∧ s'.registry p = none)
    ?_ ?_ ?_ (fun _ hs => hs.1.2)
  · refine ⟨⟨detached_dissociate hl c,
      registered_dissociate hl h (entryOwn_of_reachable h hc)⟩, ?_, ?_⟩
    · unfold State.is_open
      rw [dissociate_portals hl]
      exact hopen
    · rcases dissociate_registry hl c p with hsame | ⟨-, hnone⟩
      · exact hsame.trans hreg
      · exact hnone
  · rintro s' old hold ⟨⟨hd, hr⟩, ho, hn⟩
    have hne : p ≠ old := by
      rintro rfl
      have hfound := h.found c p hold (by rw [hc]; trivial)
      rw [hreg] at hfound
      cases hfound
    refine ⟨⟨detached_drop hd old, registered_drop hd.linked hr old⟩, ?_, ?_⟩
    · rw [is_open_drop hd.linked hne]
      exact ho
    · rw [(drop_spec hd.linked old).others p hne]
      exact hn
  · rintro s' q hq ⟨⟨hd, hr⟩, ho, hn⟩
    cases hq
    exact registered_associate hr is_ours L hd.portal hn ho

theorem registered_set_life {s : State} (h : Registered s) {c : CursorId} {l : Life}
    (hold : l.listed → (s.life c).listed) : Registered (s.set_life c l) := by
  refine ⟨h.entry_portal, ?_, h.opened⟩
  intro k q hq hlist
  refine h.found k q hq ?_
  by_cases hk : k = c
  · subst hk
    rw [set_life_self] at hlist
    exact hold hlist
  · rw [set_life_of_ne _ _ hk] at hlist
    exact hlist

theorem registered_newcursor {s : State} (hl : Linked s) (h : Registered s) (name : Option String)
    (L : Thread) : Registered (pllua_newcursor name L s).2 := by
  have hnone : ∀ q, (s.cursors s.next_cursor).portal ≠ some q :=
    fun q hq => (hl.armed _ q hq).2.2.2 (hl.fresh _ (Nat.le_refl _))
  have hne : ∀ k q, (((pllua_newcursor name L s).2).cursors k).portal = some q →
      k ≠ s.next_cursor ∧ (s.cursors k).portal = some q := by
    intro k q hq
    have hq : ((s.set_cursor s.next_cursor ⟨none, none, L, false, false, name⟩).cursors k).portal =
      some q := hq
    by_cases hk : k = s.next_cursor
    · subst hk
      simp at hq
    · rw [set_cursor_of_ne _ _ hk] at hq
      exact ⟨hk, hq⟩
  refine ⟨?_, ?_, ?_⟩
  · intro q k hq
    have hold := h.entry_portal q k hq
    have hk : k ≠ s.next_cursor := by
      rintro rfl
      exact hnone q hold
    show ((s.set_cursor s.next_cursor ⟨none, none, L, false, false, name⟩).cursors k).portal = some q
    rw [set_cursor_of_ne _ _ hk]
    exact hold
  · intro k q hq hlist
    obtain ⟨hk, hold⟩ := hne k q hq
    have hlist : ((s.set_life s.next_cursor .reachable).life k).listed := hlist
    rw [set_life_of_ne _ _ hk] at hlist
    exact h.found k q hold hlist
  · intro k q hq
    exact h.opened k q (hne k q hq).2

theorem registered_findcursor {s : State} (hl : Linked s) (h : Registered s) (name : String)
    (L : Thread) : Registered (pllua_spi_findcursor name L s).2 := by
  unfold pllua_spi_findcursor
  split
  · exact h
  · split
    · rename_i c hc
      split
      · exact h
      · exact registered_set_life h fun _ => hl.entry _ c hc
    · have hnew := registered_newcursor hl h (some name) L
      exact ⟨hnew.entry_portal, hnew.found, hnew.opened⟩

theorem registered_spi_newcursor {s : State} (hl : Linked s) (h : Registered s)
    (name : Option String) (L : Thread) : Registered (pllua_spi_newcursor name L s) := by
  unfold pllua_spi_newcursor
  cases name with
  | none => exact registered_newcursor hl h none L
  | some name =>
    have hlf := linked_findcursor hl name L
    have hf := registered_findcursor hl h name L
    simp only
    split
    · rename_i s' heq
      rw [heq] at hf hlf
      exact registered_newcursor hlf hf (some name) L
    · rename_i r s' _ heq
      rw [heq] at hf
      exact hf

/-- One more portal. -/
theorem registered_portals {s : State} (h : Registered s) (p : Portal) (name : String)
    (as : List Attaching) :
    Registered { s with portals := (p, name) :: s.portals, attaching := as } := by
  refine ⟨h.entry_portal, h.found, ?_⟩
  intro c q hq
  have hopen := h.opened c q hq
  unfold State.is_open at hopen ⊢
  rw [List.any_cons, hopen, Bool.or_true]

theorem registered_is_ours {s : State} (h : Registered s) (c : CursorId) (is_ours : Bool) :
    Registered (s.set_cursor c { s.cursors c with is_ours }) := by
  have hsame : ∀ k, ((s.set_cursor c { s.cursors c with is_ours }).cursors k).portal =
      (s.cursors k).portal := by
    intro k
    by_cases hk : k = c
    · subst hk
      rw [set_cursor_self]
    · rw [set_cursor_of_ne _ _ hk]
  refine ⟨?_, ?_, ?_⟩
  · intro q k hq
    rw [hsame k]
    exact h.entry_portal q k hq
  · intro k q hq hlist
    rw [hsame k] at hq
    exact h.found k q hq hlist
  · intro k q hq
    rw [hsame k] at hq
    exact h.opened k q hq

theorem registered_clear {s : State} (h : Registered s) (c : CursorId) :
    Registered (clear_weak c s) := by
  refine ⟨?_, ?_, h.opened⟩
  · intro q k hq
    have hif : (if s.registry q = some c then none else s.registry q) = some k := hq
    split at hif
    · cases hif
    · exact h.entry_portal q k hif
  · intro k q hq hlist
    have hk : k ≠ c := by
      rintro rfl
      have hlist : ((s.set_life k .cleared).life k).listed := hlist
      rw [set_life_self] at hlist
      exact hlist
    have hlist : ((s.set_life c .cleared).life k).listed := hlist
    rw [set_life_of_ne _ _ hk] at hlist
    have hold := h.found k q hq hlist
    show (if s.registry q = some c then none else s.registry q) = some k
    rw [if_neg]
    · exact hold
    · rw [hold]
      intro heq
      exact hk (Option.some.inj heq)

theorem registered_gc {s : State} (hl : Linked s) (h : Registered s) (luck : Luck) {c : CursorId}
    (hc : EntryOwn c s) : Registered (pllua_cursor_gc luck c s) := by
  unfold pllua_cursor_gc
  simp only
  split
  · exact h
  · exact registered_detach hl h luck false _ hc

/-- What a timely step keeps. -/
theorem step_registered (s : State) (a : Action) (hl : Linked s) (h : Registered s)
    (hok : Timely s a) : Registered (step s a) := by
  cases a with
  | newcursor name L => exact registered_spi_newcursor hl h name L
  | findcursor name L => exact registered_findcursor hl h name L
  | begin_open c p unnamed L =>
    simp only [step]
    split
    · unfold pllua_spi_cursor_open
      simp only
      split
      · exact h
      · exact registered_portals h p _ _
    · exact h
  | attach luck =>
    simp only [step, attach]
    split
    · exact h
    · rename_i a rest ha
      obtain ⟨hopen, hreg⟩ := hok a (by rw [ha]; rfl)
      have hrest : ∀ b ∈ rest, s.life b.curs = .reachable := by
        intro b hb
        exact hl.calling b (by rw [ha]; exact List.mem_cons_of_mem _ hb)
      exact registered_setportal (linked_attaching hl hrest)
        ⟨h.entry_portal, h.found, h.opened⟩ luck a.is_ours a.L
        (hl.calling a (by rw [ha]; exact List.mem_cons_self)) hopen hreg
  | fail => exact ⟨h.entry_portal, h.found, h.opened⟩
  | own c =>
    simp only [step, pllua_cursor_own, set_ours]
    split
    · split
      · exact h
      · exact registered_is_ours h c true
    · exact h
  | disown c =>
    simp only [step, pllua_cursor_disown, set_ours]
    split
    · split
      · exact h
      · exact registered_is_ours h c false
    · exact h
  | close c luck =>
    simp only [step, pllua_cursor_close]
    split
    · rename_i hc
      split
      · exact h
      · have hr := registered_is_ours h c true
        exact registered_detach (linked_is_ours hl c true) hr luck false _
          (entryOwn_of_reachable hr hc)
    · exact h
  | meta_close c luck =>
    simp only [step, pllua_cursor_meta_close]
    split
    · rename_i hc
      split
      · exact h
      · exact registered_detach hl h luck false _ (entryOwn_of_reachable h hc)
    · exact h
  | declare p name =>
    simp only [step]
    split
    · exact h
    · exact registered_portals h p name s.attaching
  | drop p =>
    simp only [step]
    split
    · exact registered_drop hl h p
    · exact h
  | forget c =>
    simp only [step]
    split
    · rename_i hc
      exact registered_set_life h fun _ => by rw [hc.1]; trivial
    · exact h
  | clear c =>
    simp only [step]
    split
    · exact registered_clear h c
    · exact h
  | finalize c luck =>
    simp only [step]
    split
    · rename_i hc
      have hown : EntryOwn c s := by
        intro p k hp hk
        rw [hok hc p hp] at hk
        cases hk
      exact registered_set_life (registered_gc hl h luck hown) fun hlist => hlist.elim
    · exact h

/-! ## The law over runs -/

theorem step_laws (s : State) (a : Action) (h : Linked s ∧ Registered s) (hok : Timely s a) :
    Linked (step s a) ∧ Registered (step s a) :=
  ⟨step_linked s a h.1, step_registered s a h.1 h.2 hok⟩

end pllua.spi
