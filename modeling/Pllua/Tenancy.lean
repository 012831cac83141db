-- Whose code a Lua state runs. A state is set up for one user, and from then on it runs the code of
-- that user alone, whatever fails and however calls nest.
import Pllua.Interpreters

open pllua.runs

namespace pllua.init

/-- The user that a state was set up for. -/
def tenant (w : World) (i : StateId) : Option Oid := (w.states i).setup

/-- No state changes hands: those that wait have run no user's code, and an entry has a state that
was set up for its user. -/
structure Tenancy (w : World) : Prop where
  fresh : ∀ i, w.next ≤ i → tenant w i = none
  held : ∀ i ∈ w.held_states, i < w.next ∧ tenant w i = none
  once : w.held_states.Nodup
  owned : ∀ u i, Owned w u i → tenant w i = some u

/-- An operation that leaves the tenants where they are. -/
structure Settles (w w' : World) : Prop where
  tenancy : Tenancy w'
  stays : ∀ i u, tenant w i = some u → tenant w' i = some u

theorem Settles.refl {w : World} (h : Tenancy w) : Settles w w := ⟨h, fun _ _ hu => hu⟩

theorem Settles.trans {w w' w'' : World} (h : Settles w w') (h' : Settles w' w'') :
    Settles w w'' :=
  ⟨h'.tenancy, fun i u hu => h'.stays i u (h.stays i u hu)⟩

section
variable (lib : LuaLibrary) {w : World}

/-- What the tenancy reads: the rest of a world is free to change. -/
theorem Tenancy.same {w' : World} (h : Tenancy w) (htenant : ∀ i, tenant w' i = tenant w i)
    (hnext : w'.next = w.next) (hheld : w'.held_states = w.held_states)
    (howned : ∀ u i, Owned w' u i → Owned w u i) : Settles w w' where
  tenancy := by
    constructor
    · intro i hi
      rw [htenant]
      exact h.fresh i (hnext ▸ hi)
    · intro i hi
      rw [hheld] at hi
      rw [htenant, hnext]
      exact h.held i hi
    · rw [hheld]
      exact h.once
    · intro u i hi
      rw [htenant]
      exact h.owned u i (howned u i hi)
  stays := fun i u hu => (htenant i).trans hu

/-! ## States -/

/-- A state that is changed keeps its tenant, if the change keeps it. -/
theorem setup_update {i : StateId} {x : LuaState} (hx : x.setup = tenant w i) (j : StateId) :
    (Function.update w.states i x j).setup = tenant w j := by
  by_cases hj : j = i
  · subst hj
    rw [Function.update_self, hx]
  · rw [Function.update_of_ne hj]
    rfl

theorem tenant_close (i j : StateId) : tenant (lua_close i w) j = tenant w j := by
  have hclosed : ({ w.states i with closes := (w.states i).closes + 1 } : LuaState).setup =
      tenant w i := rfl
  exact setup_update hclosed j

theorem Tenancy.close (h : Tenancy w) (i : StateId) : Settles w (lua_close i w) :=
  h.same (tenant_close i) rfl rfl fun _ _ hu => hu

theorem tenant_newstate (h : Tenancy w) (ident : Option String) (j : StateId) :
    tenant (lua_newstate ident w) j = tenant w j :=
  setup_update (h.fresh w.next (Nat.le_refl _)).symm j

theorem Tenancy.newstate (h : Tenancy w) (ident : Option String) :
    Settles w (lua_newstate ident w) where
  tenancy := by
    refine ⟨?_, ?_, h.once, ?_⟩
    · intro i hi
      rw [tenant_newstate h]
      exact h.fresh i (Nat.le_of_succ_le hi)
    · intro i hi
      rw [tenant_newstate h]
      exact ⟨Nat.lt_succ_of_lt (h.held i hi).1, (h.held i hi).2⟩
    · intro u i hi
      rw [tenant_newstate h]
      exact h.owned u i hi
  stays := fun i u hu => (tenant_newstate h ident i).trans hu

/-- Phase 1 gives a state that nobody has. -/
theorem Tenancy.phase1 (h : Tenancy w) (luck : Phase1) (ident : Option String) :
    Settles w (pllua_newstate_phase1 lib luck ident w).2 ∧
      (pllua_newstate_phase1 lib luck ident w).2.held_states = w.held_states ∧
      ∀ i, (pllua_newstate_phase1 lib luck ident w).1 = .ok (some i) →
        i < (pllua_newstate_phase1 lib luck ident w).2.next ∧
          tenant (pllua_newstate_phase1 lib luck ident w).2 i = none ∧ i ∉ w.held_states := by
  have hnew := h.newstate ident
  have hlast : w.next ∉ w.held_states := fun hi => Nat.lt_irrefl _ (h.held _ hi).1
  unfold pllua_newstate_phase1
  simp only
  split
  · exact ⟨.refl h, rfl, fun _ => nofun⟩
  · split
    · exact ⟨hnew, rfl, fun _ => nofun⟩
    · split
      · exact ⟨hnew.trans (hnew.tenancy.close _), rfl, fun _ => nofun⟩
      · refine ⟨hnew, rfl, ?_⟩
        intro i hi
        cases hi
        refine ⟨Nat.lt_succ_self _, ?_, hlast⟩
        rw [tenant_newstate h]
        exact h.fresh _ (Nat.le_refl _)

theorem Tenancy.create_held (h : Tenancy w) (ident : Option String) (lucks : List Phase1)
    (n : Nat) : Settles w (create_held_states lib ident lucks n w).2 := by
  induction n generalizing w lucks with
  | zero => exact .refl h
  | succ n ih =>
    obtain ⟨hsettles, hheld, hgot⟩ := h.phase1 lib (lucks.headD .ok) ident
    unfold create_held_states
    generalize pllua_newstate_phase1 lib (lucks.headD .ok) ident w = out at hsettles hheld hgot
    obtain ⟨r, w'⟩ := out
    rcases r with _ | _ | i
    · exact hsettles
    · exact hsettles
    · obtain ⟨hlt, hnone, hnew⟩ := hgot i rfl
      have hi : Settles w' { w' with held_states := i :: w'.held_states } := by
        refine ⟨⟨hsettles.tenancy.fresh, ?_, ?_, hsettles.tenancy.owned⟩, fun _ _ hu => hu⟩
        · intro j hj
          rcases List.mem_cons.mp hj with rfl | hj
          · exact ⟨hlt, hnone⟩
          · exact hsettles.tenancy.held j hj
        · rw [List.nodup_cons]
          exact ⟨hheld ▸ hnew, hsettles.tenancy.once⟩
      exact hsettles.trans (hi.trans (ih hi.tenancy lucks.tail))

theorem Tenancy.destroy (h : Tenancy w) : Settles w (pllua_destroy_held_states w) := by
  have hfold : ∀ (is : List StateId) {w : World}, Tenancy w →
      Settles w (is.foldl (fun w i => lua_close i w) w) := by
    intro is
    induction is with
    | nil => exact fun h => .refl h
    | cons i is ih => exact fun h => (h.close i).trans (ih (h.close i).tenancy)
  have hempty : Settles w { w with held_states := [] } :=
    ⟨⟨h.fresh, nofun, List.nodup_nil, h.owned⟩, fun _ _ hu => hu⟩
  exact hempty.trans (hfold w.held_states hempty.tenancy)

/-! ## Operations -/

theorem Tenancy.assign_on_init (h : Tenancy w) (newval : Option String) (lucks : List Phase1) :
    Settles w (pllua_assign_on_init lib newval lucks w) := by
  have hdestroy := h.destroy
  unfold pllua_assign_on_init
  split
  · exact h.same (fun _ => rfl) rfl rfl fun _ _ hu => hu
  · split
    · simp only
      split
      · exact hdestroy.trans (hdestroy.tenancy.same (fun _ => rfl) rfl rfl fun _ _ hu => hu)
      · have hassign : Settles (pllua_destroy_held_states w)
            { pllua_destroy_held_states w with on_init := newval } :=
          hdestroy.tenancy.same (fun _ => rfl) rfl rfl fun _ _ hu => hu
        have hcreate := hassign.tenancy.create_held lib
          (pllua_destroy_held_states w).reload_ident lucks
          (pllua_destroy_held_states w).num_held_interpreters
        exact hdestroy.trans (hassign.trans (hcreate.trans
          (hcreate.tenancy.same (fun _ => rfl) rfl rfl fun _ _ hu => hu)))
    · exact h.same (fun _ => rfl) rfl rfl fun _ _ hu => hu

theorem owned_new_ident {u : Oid} {i : StateId} (x : Bool)
    (hi : ∃ e, (w.interp_hash u).map (fun e => { e with new_ident := x }) = some e ∧
      e.interp = some i) : Owned w u i := by
  obtain ⟨e, he, hei⟩ := hi
  obtain ⟨e', he', rfl⟩ := Option.map_eq_some_iff.mp he
  exact ⟨e', he', hei⟩

theorem Tenancy.assign_reload_ident (h : Tenancy w) (newval : Option String)
    (lucks : List Phase1) : Settles w (pllua_assign_reload_ident lib newval lucks w) := by
  have hdestroy := h.destroy
  unfold pllua_assign_reload_ident
  split
  · exact h.same (fun _ => rfl) rfl rfl fun _ _ hu => hu
  · split
    · simp only
      split
      · exact hdestroy.trans (hdestroy.tenancy.same (fun _ => rfl) rfl rfl fun u i hu =>
          owned_new_ident true hu)
      · have hcreate := hdestroy.tenancy.create_held lib newval lucks
          (pllua_destroy_held_states w).num_held_interpreters
        split
        · exact hdestroy.trans (hcreate.trans
            (hcreate.tenancy.same (fun _ => rfl) rfl rfl fun _ _ hu => hu))
        · exact hdestroy.trans (hcreate.trans
            (hcreate.tenancy.same (fun _ => rfl) rfl rfl fun _ _ hu => hu))
    · exact h.same (fun _ => rfl) rfl rfl fun _ _ hu => hu

theorem owned_without {u v : Oid} {i : StateId} (hi : Owned (set_interp u none w) v i) :
    Owned w v i := by
  by_cases hv : v = u
  · subst hv
    exact absurd hi (not_owned_set_none w v i)
  · exact (owned_set_interp_ne none hv i).mp hi

theorem owned_with {u v : Oid} {i j : StateId} (hj : Owned (set_interp u (some i) w) v j) :
    (v = u ∧ j = i) ∨ Owned w v j := by
  by_cases hv : v = u
  · subst hv
    obtain ⟨e, he, hej⟩ := hj
    simp only [set_interp, Function.update_self, Option.map_eq_some_iff] at he
    obtain ⟨e', -, rfl⟩ := he
    exact Or.inl ⟨rfl, (Option.some.inj hej).symm⟩
  · exact Or.inr ((owned_set_interp_ne (some i) hv j).mp hj)

theorem Tenancy.failed (h : Tenancy w) (u : Oid) (i : StateId) :
    Settles w (initialisation_failed u i w) := by
  have hnone : Settles w (set_interp u none w) :=
    h.same (fun _ => rfl) rfl rfl fun _ _ hi => owned_without hi
  have hclose := hnone.tenancy.close i
  exact hnone.trans (hclose.trans (hclose.tenancy.same (fun _ => rfl) rfl rfl fun _ _ hu => hu))

/-- The states that run the code of the user after an operation. -/
def Outcome.Serves (o : Outcome) (u : Oid) (i : StateId) : Prop :=
  o = .returned i ∨ o = .building u i

/-- A state without a tenant is set up for a user. -/
theorem Tenancy.phase2 (h : Tenancy w) (setup_fails : Bool) (u : Oid) {i : StateId}
    (hlt : i < w.next) (hnone : tenant w i = none) (hnew : i ∉ w.held_states) :
    Settles w (pllua_newstate_phase2 setup_fails u i w) ∧
      ∀ j, (pllua_newstate_phase2 setup_fails u i w).outcome.Serves u j →
        tenant (pllua_newstate_phase2 setup_fails u i w) j = some u := by
  unfold pllua_newstate_phase2
  split
  · refine ⟨h.failed u i, ?_⟩
    rintro j (hj | hj) <;> cases hj
  · have htenant : ∀ j, tenant (pllua_newstate_phase2 false u i w) j =
        if j = i then some u else tenant w j := by
      intro j
      unfold pllua_newstate_phase2 tenant
      simp only [Bool.false_eq_true, if_false]
      by_cases hj : j = i
      · subst hj
        rw [Function.update_self, if_pos rfl]
      · rw [Function.update_of_ne hj, if_neg hj]
        rfl
    have hother : ∀ {j v}, tenant w j = some v → j ≠ i := by
      rintro j v hj rfl
      rw [hnone] at hj
      cases hj
    refine ⟨⟨⟨?_, ?_, h.once, ?_⟩, ?_⟩, ?_⟩
    · intro j hj
      exact (htenant j).trans ((if_neg (Nat.ne_of_gt (Nat.lt_of_lt_of_le hlt hj))).trans
        (h.fresh j hj))
    · intro j hj
      have hne : j ≠ i := fun hji => hnew (hji ▸ hj)
      exact ⟨(h.held j hj).1, (htenant j).trans ((if_neg hne).trans (h.held j hj).2)⟩
    · intro v j hv
      rcases owned_with hv with ⟨rfl, rfl⟩ | hold
      · exact (htenant j).trans (if_pos rfl)
      · have hj := h.owned v j hold
        exact (htenant j).trans ((if_neg (hother hj)).trans hj)
    · exact fun j v hj => (htenant j).trans ((if_neg (hother hj)).trans hj)
    · rintro j (hj | hj) <;> cases hj
      exact (htenant i).trans (if_pos rfl)

theorem Tenancy.build (h : Tenancy w) (luck : Luck) (u : Oid) :
    Settles w (build lib luck u w) ∧
      ∀ j, (build lib luck u w).outcome.Serves u j → tenant (build lib luck u w) j = some u := by
  unfold init.build
  split
  · rename_i i rest hheld
    have hi := h.held i (by rw [hheld]; exact List.mem_cons_self)
    have honce : (i :: rest).Nodup := hheld ▸ h.once
    have htake : Settles w { w with held_states := rest } := by
      refine ⟨⟨h.fresh, ?_, (List.nodup_cons.mp honce).2, h.owned⟩, fun _ _ hu => hu⟩
      intro j hj
      exact h.held j (by rw [hheld]; exact List.mem_cons_of_mem i hj)
    obtain ⟨hsettles, hserves⟩ :=
      htake.tenancy.phase2 luck.setup u hi.1 hi.2 (List.nodup_cons.mp honce).1
    exact ⟨htake.trans hsettles, hserves⟩
  · obtain ⟨hsettles, hheld, hgot⟩ := h.phase1 lib luck.phase1 w.reload_ident
    generalize pllua_newstate_phase1 lib luck.phase1 w.reload_ident w = out at hsettles hheld hgot
    obtain ⟨r, w'⟩ := out
    have hraised : Settles w { w' with outcome := .raised } :=
      hsettles.trans (hsettles.tenancy.same (fun _ => rfl) rfl rfl fun _ _ hu => hu)
    match r with
    | .error _ => exact ⟨hraised, fun j hj => by rcases hj with hj | hj <;> cases hj⟩
    | .ok none => exact ⟨hraised, fun j hj => by rcases hj with hj | hj <;> cases hj⟩
    | .ok (some i) =>
      obtain ⟨hlt, hnone, hnew⟩ := hgot i rfl
      obtain ⟨hphase2, hserves⟩ :=
        hsettles.tenancy.phase2 luck.setup u hlt hnone (by rw [hheld]; exact hnew)
      exact ⟨hsettles.trans hphase2, hserves⟩

theorem Tenancy.set_new_ident (h : Tenancy w) {u : Oid} {e : HashEnt} {i : StateId}
    (he : w.interp_hash u = some e) :
    Settles w { pllua_set_new_ident u e i w with outcome := .returned i } := by
  have hsame : ({ w.states i with ident_new := w.reload_ident } : LuaState).setup = tenant w i :=
    rfl
  refine h.same (fun j => setup_update hsame j) rfl rfl ?_
  rintro v j ⟨e', he', hj⟩
  by_cases hv : v = u
  · subst hv
    simp only [pllua_set_new_ident, Function.update_self, Option.some.injEq] at he'
    subst he'
    exact ⟨e, he, hj⟩
  · simp only [pllua_set_new_ident, Function.update_of_ne hv] at he'
    exact ⟨e', he', hj⟩

/-- A call runs in a state of its own user. -/
theorem Tenancy.getstate (h : Tenancy w) (trusted : Bool) (GetUserId : Oid) (luck : Luck) :
    Settles w (pllua_getstate lib trusted GetUserId luck w) ∧
      ∀ j, (pllua_getstate lib trusted GetUserId luck w).outcome.Serves (key trusted GetUserId) j →
        tenant (pllua_getstate lib trusted GetUserId luck w) j = some (key trusted GetUserId) := by
  unfold pllua_getstate
  simp only
  split
  · rename_i i trusted' new_ident he
    have htenant := h.owned _ i ⟨_, he, rfl⟩
    have hsame : ∀ o, Settles w { w with outcome := o } := fun o =>
      h.same (fun _ => rfl) rfl rfl fun _ _ hu => hu
    split
    · split
      · refine ⟨hsame .raised, ?_⟩
        rintro j (hj | hj) <;> cases hj
      · have hset := h.set_new_ident (i := i) he
        refine ⟨hset, ?_⟩
        rintro j (hj | hj) <;> cases hj
        exact hset.stays _ _ htenant
    · refine ⟨hsame (.returned i), ?_⟩
      rintro j (hj | hj) <;> cases hj
      exact htenant
  · obtain ⟨hheld, hnext, -, hstates⟩ := hash_enter_rest w trusted (key trusted GetUserId)
    have henter : Settles w (hash_enter trusted (key trusted GetUserId) w) := by
      refine h.same ?_ hnext hheld fun v j => (owned_hash_enter w trusted _ v j).mp
      intro j
      unfold tenant
      rw [hstates]
    obtain ⟨hbuild, hserves⟩ := henter.tenancy.build lib luck (key trusted GetUserId)
    exact ⟨henter.trans hbuild, hserves⟩

theorem Tenancy.run_init_strings (h : Tenancy w) (ok : Bool) :
    Settles w (pllua_run_init_strings ok w) := by
  unfold pllua_run_init_strings
  split
  · rename_i u i calls _
    have hset : ∀ strings, Settles w { w with
        states := Function.update w.states i { w.states i with strings }
        calls := calls } := by
      intro strings
      have hsame : ({ w.states i with strings } : LuaState).setup = tenant w i := rfl
      exact h.same (setup_update hsame) rfl rfl fun _ _ hu => hu
    cases ok with
    | true =>
      exact (hset .finished).trans
        ((hset .finished).tenancy.same (fun _ => rfl) rfl rfl fun _ _ hu => hu)
    | false => exact (hset .failed).trans ((hset .failed).tenancy.failed u i)
  · exact h.same (fun _ => rfl) rfl rfl fun _ _ hu => hu

/-- What one operation keeps. -/
theorem Tenancy.step (h : Tenancy w) (a : Action) : Settles w (step lib w a) := by
  cases a with
  | getstate trusted GetUserId luck => exact (h.getstate lib trusted GetUserId luck).1
  | strings_end ok => exact h.run_init_strings ok
  | close_end =>
    unfold init.step finish_close
    simp only
    split
    · exact h.same (fun _ => rfl) rfl rfl fun _ _ hu => hu
    · exact h.same (fun _ => rfl) rfl rfl fun _ _ hu => hu
  | assign_on_init newval lucks => exact h.assign_on_init lib newval lucks
  | assign_reload_ident newval lucks => exact h.assign_reload_ident lib newval lucks
  | fork => exact h.same (fun _ => rfl) rfl rfl fun _ _ hu => hu

/-! ## Runs -/

theorem Tenancy.of_run (h : Tenancy w) (as : List Action) :
    Settles w (run (init.step lib) w as) := by
  induction as generalizing w with
  | nil => exact .refl h
  | cons a as ih =>
    have hstep := h.step lib a
    exact hstep.trans (ih hstep.tenancy)

theorem Tenancy.started (IsUnderPostmaster : Bool) (num : Nat) (on_init reload_ident : Option String)
    (lucks : List Phase1) : Tenancy (_PG_init lib IsUnderPostmaster num on_init reload_ident lucks) := by
  have hempty : Tenancy
      { IsUnderPostmaster, num_held_interpreters := num, on_init, reload_ident
        interp_hash := fun _ => none
        held_states := []
        states := fun _ => ⟨none, none, none, none, .waiting, 0⟩
        next := 0
        calls := []
        outcome := .done } := by
    refine ⟨fun _ _ => rfl, nofun, List.nodup_nil, ?_⟩
    rintro u i ⟨e, he, -⟩
    cases he
  unfold _PG_init
  simp only
  split
  · exact hempty
  · exact (hempty.create_held lib reload_ident lucks num).tenancy

/-- The Lua state that a call of a function or of a DO block runs in. -/
def RunsIn (lib : LuaLibrary) (w : World) (trusted : Bool) (GetUserId : Oid) (luck : Luck)
    (i : StateId) : Prop :=
  (step lib w (.getstate trusted GetUserId luck)).outcome.Serves (key trusted GetUserId) i

/-- Calls at any two moments of a process that run in one Lua state are of one user and one
language, whatever else is called, fails and is assigned. -/
theorem a_state_serves_one_user (IsUnderPostmaster : Bool) (num : Nat)
    (on_init reload_ident : Option String) (lucks : List Phase1) (as bs : List Action)
    (trusted trusted' : Bool) (u v : Oid) (luck luck' : Luck) (i : StateId)
    (hu : trusted = true → u ≠ InvalidOid) (hv : trusted' = true → v ≠ InvalidOid)
    (hfirst : RunsIn lib
      (run (step lib) (_PG_init lib IsUnderPostmaster num on_init reload_ident lucks) as)
      trusted u luck i)
    (hsecond : RunsIn lib
      (run (step lib) (_PG_init lib IsUnderPostmaster num on_init reload_ident lucks)
        (as ++ .getstate trusted u luck :: bs)) trusted' v luck' i) :
    trusted = trusted' ∧ (trusted = true → u = v) := by
  have hstart := Tenancy.started lib IsUnderPostmaster num on_init reload_ident lucks
  have hbefore := (hstart.of_run lib as).tenancy
  rw [run_append, run_cons] at hsecond
  obtain ⟨hcall, hserves⟩ := hbefore.getstate lib trusted u luck
  have htenant := hserves i hfirst
  have hbetween := hcall.tenancy.of_run lib bs
  obtain ⟨hcall', hserves'⟩ := hbetween.tenancy.getstate lib trusted' v luck'
  have hkey : key trusted u = key trusted' v := by
    have hstays := hcall'.stays i _ (hbetween.stays i _ htenant)
    exact Option.some.inj (hstays.symm.trans (hserves' i hsecond))
  cases trusted <;> cases trusted'
  · exact ⟨rfl, nofun⟩
  · exact absurd hkey.symm (hv rfl)
  · exact absurd hkey (hu rfl)
  · exact ⟨rfl, fun _ => hkey⟩

end

/-- Lua 5.4.6. -/
def lua546 : LuaLibrary :=
  ⟨504, 200, "$LuaVersion: Lua 5.4.6  Copyright".toList⟩

/-- Nothing fails. -/
def lucky : Luck := ⟨false, .ok, false⟩

/-- The init strings of the first call end, and another user calls. -/
def other_user : List Action := [.strings_end true, .getstate true 11 lucky, .strings_end true]

theorem a_state_serves_its_user_again :
    RunsIn lua546 (run (step lua546) (_PG_init lua546 true 0 none none []) []) true 10 lucky 0 ∧
      RunsIn lua546 (run (step lua546) (_PG_init lua546 true 0 none none [])
        ([] ++ .getstate true 10 lucky :: other_user)) true 10 lucky 0 ∧
      (true = true → 10 = 10) := by
  have hfirst : RunsIn lua546 (run (step lua546) (_PG_init lua546 true 0 none none []) []) true 10
      lucky 0 := Or.inr rfl
  have hsecond : RunsIn lua546 (run (step lua546) (_PG_init lua546 true 0 none none [])
      ([] ++ .getstate true 10 lucky :: other_user)) true 10 lucky 0 := Or.inl rfl
  have huser : (10 : Oid) ≠ InvalidOid := by decide
  exact ⟨hfirst, hsecond, (a_state_serves_one_user lua546 true 0 none none [] [] other_user
    true true 10 10 lucky lucky 0 (fun _ => huser) (fun _ => huser) hfirst hsecond).2⟩

end pllua.init
