-- Caches of values that are made from a source. Each owner has a table of its own, and a change of
-- the source puts an empty one in its place. A value that is being made then comes too late: it
-- goes into the table that it was begun for.
import Mathlib.Data.List.Basic
import Mathlib.Logic.Function.Basic

namespace pllua.caches

/-- A value on its way into a table. -/
structure Fill (ι κ ν : Type) where
  owner : ι
  key : κ
  table : Nat
  value : Option ν

structure Cache (σ ι κ ν : Type) where
  source : σ
  /-- the source has changed since the tables were emptied -/
  changed : Bool
  owners : List ι
  table : ι → Nat
  tables : Nat → κ → Option ν
  /-- numbers of tables that are not used yet -/
  next : Nat
  /-- innermost first -/
  fills : List (Fill ι κ ν)

section
variable {σ ι κ ν : Type}

def Cache.change (c : Cache σ ι κ ν) (source : σ) : Cache σ ι κ ν :=
  { c with source, changed := true }

/-- A change that takes nothing from the values that are there. -/
def Cache.adjust (c : Cache σ ι κ ν) (source : σ) : Cache σ ι κ ν := { c with source }

def Cache.found (c : Cache σ ι κ ν) (i : ι) (key : κ) : Option ν := c.tables (c.table i) key

/-- A value is to be made. -/
def Cache.begin (c : Cache σ ι κ ν) (i : ι) (key : κ) : Cache σ ι κ ν :=
  { c with fills := ⟨i, key, c.table i, none⟩ :: c.fills }

/-- The innermost value is made, or an error takes its place. -/
def Cache.make (c : Cache σ ι κ ν) (f : σ → ι → κ → Option ν) : Cache σ ι κ ν :=
  match c.fills with
  | ⟨i, key, n, none⟩ :: fills =>
    match f c.source i key with
    | some v => { c with fills := ⟨i, key, n, some v⟩ :: fills }
    | none => { c with fills }
  | _ => c

/-- The innermost value is stored. -/
def Cache.store [DecidableEq κ] (c : Cache σ ι κ ν) : Cache σ ι κ ν :=
  match c.fills with
  | ⟨_, key, n, some v⟩ :: fills =>
    { c with
      tables := Function.update c.tables n (Function.update (c.tables n) key (some v))
      fills }
  | _ => c

/-- The innermost value is not to come. -/
def Cache.abandon (c : Cache σ ι κ ν) : Cache σ ι κ ν := { c with fills := c.fills.tail }

variable [DecidableEq ι]

def Cache.newtable (c : Cache σ ι κ ν) (i : ι) : Cache σ ι κ ν :=
  { c with
    table := Function.update c.table i c.next
    tables := Function.update c.tables c.next fun _ => none
    next := c.next + 1 }

/-- Another owner, with a table. -/
def Cache.own (c : Cache σ ι κ ν) (i : ι) : Cache σ ι κ ν :=
  { c.newtable i with owners := i :: c.owners }

/-- Some owners get empty tables. -/
def Cache.replace (c : Cache σ ι κ ν) (is : List ι) : Cache σ ι κ ν := is.foldl Cache.newtable c

def Cache.clear (c : Cache σ ι κ ν) : Cache σ ι κ ν := { c.replace c.owners with changed := false }

variable [DecidableEq κ]

/-- An owner is gone, as an owner and as a key. -/
def Cache.drop (c : Cache σ ι κ ν) (i : ι) (key : κ) : Cache σ ι κ ν :=
  { c with
    owners := c.owners.filter (· ≠ i)
    tables := fun n => Function.update (c.tables n) key none }

end

/-! ## The law -/

section
variable {σ ι κ ν : Type}

/-- What is found in the tables fits the source, as long as no change is left to tell of. -/
structure Inv (Fits : σ → ι → κ → ν → Prop) (c : Cache σ ι κ ν) : Prop where
  used : ∀ i ∈ c.owners, c.table i < c.next
  begun : ∀ x ∈ c.fills, x.table < c.next
  apart : ∀ i ∈ c.owners, ∀ j ∈ c.owners, c.table i = c.table j → i = j
  belongs : ∀ x ∈ c.fills, ∀ i ∈ c.owners, c.table i = x.table → i = x.owner
  fit : c.changed = false → ∀ i ∈ c.owners, ∀ key v, c.found i key = some v →
    Fits c.source i key v
  /-- also those on their way into a table that is in use -/
  filling : c.changed = false → ∀ x ∈ c.fills, ∀ v, x.value = some v → x.owner ∈ c.owners →
    c.table x.owner = x.table → Fits c.source x.owner x.key v

variable {Fits : σ → ι → κ → ν → Prop} {c : Cache σ ι κ ν}

theorem Inv.empty (source : σ) :
    Inv Fits ⟨source, false, [], fun _ => 0, fun _ _ => none, 0, []⟩ := by
  constructor <;> nofun

theorem Inv.change (h : Inv Fits c) (source : σ) : Inv Fits (c.change source) :=
  ⟨h.used, h.begun, h.apart, h.belongs, nofun, nofun⟩

theorem Inv.adjust (h : Inv Fits c) {source : σ}
    (hfits : ∀ i key v, Fits c.source i key v → Fits source i key v) :
    Inv Fits (c.adjust source) where
  used := h.used
  begun := h.begun
  apart := h.apart
  belongs := h.belongs
  fit := fun hc i hi key v hv => hfits i key v (h.fit hc i hi key v hv)
  filling := fun hc x hx v hv hown ht => hfits _ _ v (h.filling hc x hx v hv hown ht)

theorem Inv.begin (h : Inv Fits c) {i : ι} (hi : i ∈ c.owners) (key : κ) :
    Inv Fits (c.begin i key) where
  used := h.used
  begun := by
    intro x hx
    rcases List.mem_cons.mp hx with rfl | hx
    · exact h.used i hi
    · exact h.begun x hx
  apart := h.apart
  belongs := by
    intro x hx j hj hjx
    rcases List.mem_cons.mp hx with rfl | hx
    · exact h.apart j hj i hi hjx
    · exact h.belongs x hx j hj hjx
  fit := h.fit
  filling := by
    intro hc x hx v hv
    rcases List.mem_cons.mp hx with rfl | hx
    · cases hv
    · exact h.filling hc x hx v hv

/-- Fills leave the list. -/
theorem Inv.leave (h : Inv Fits c) {fills : List (Fill ι κ ν)} (hsub : ∀ x ∈ fills, x ∈ c.fills) :
    Inv Fits { c with fills } where
  used := h.used
  begun := fun x hx => h.begun x (hsub x hx)
  apart := h.apart
  belongs := fun x hx => h.belongs x (hsub x hx)
  fit := h.fit
  filling := fun hc x hx => h.filling hc x (hsub x hx)

theorem Inv.abandon (h : Inv Fits c) : Inv Fits c.abandon :=
  h.leave fun _ hx => List.mem_of_mem_tail hx

theorem Inv.make (h : Inv Fits c) {f : σ → ι → κ → Option ν}
    (hf : ∀ i key v, f c.source i key = some v → Fits c.source i key v) :
    Inv Fits (c.make f) := by
  unfold Cache.make
  split
  · rename_i i key n fills hfills
    have hfirst : ⟨i, key, n, none⟩ ∈ c.fills := by
      rw [hfills]
      exact List.mem_cons_self
    have hrest : ∀ x ∈ fills, x ∈ c.fills := by
      intro x hx
      rw [hfills]
      exact List.mem_cons_of_mem _ hx
    have hbegun := h.begun _ hfirst
    have hbelongs := h.belongs _ hfirst
    cases hv : f c.source i key with
    | none => exact h.leave hrest
    | some v =>
      refine ⟨h.used, ?_, h.apart, ?_, h.fit, ?_⟩
      · intro x hx
        rcases List.mem_cons.mp hx with rfl | hx
        · exact hbegun
        · exact h.begun x (hrest x hx)
      · intro x hx
        rcases List.mem_cons.mp hx with rfl | hx
        · exact hbelongs
        · exact h.belongs x (hrest x hx)
      · intro hc x hx w hw hown ht
        rcases List.mem_cons.mp hx with rfl | hx
        · cases hw
          exact hf i key v hv
        · exact h.filling hc x (hrest x hx) w hw hown ht
  · exact h

section
variable [DecidableEq κ]

theorem Inv.store (h : Inv Fits c) : Inv Fits c.store := by
  unfold Cache.store
  split
  · rename_i owner key n v fills hfills
    have hfirst : ⟨owner, key, n, some v⟩ ∈ c.fills := by
      rw [hfills]
      exact List.mem_cons_self
    have hrest : ∀ x ∈ fills, x ∈ c.fills := by
      intro x hx
      rw [hfills]
      exact List.mem_cons_of_mem _ hx
    have hl := h.leave hrest
    refine ⟨hl.used, hl.begun, hl.apart, hl.belongs, ?_, hl.filling⟩
    intro hc i hi key' w hw
    simp only [Cache.found] at hw
    by_cases hn : c.table i = n
    · subst hn
      have howner : i = owner := h.belongs _ hfirst i hi rfl
      simp only [Function.update_self] at hw
      by_cases hkey : key' = key
      · subst hkey
        rw [Function.update_self] at hw
        obtain rfl := Option.some.inj hw
        subst howner
        exact h.filling hc _ hfirst v rfl hi rfl
      · rw [Function.update_of_ne hkey] at hw
        exact h.fit hc i hi key' w hw
    · rw [Function.update_of_ne hn] at hw
      exact h.fit hc i hi key' w hw
  · exact h

end

variable [DecidableEq ι]

theorem Inv.newtable (h : Inv Fits c) (i : ι) : Inv Fits (c.newtable i) where
  used := by
    intro j hj
    by_cases hji : j = i
    · subst hji
      simp [Cache.newtable]
    · simp only [Cache.newtable, Function.update_of_ne hji]
      exact Nat.lt_succ_of_lt (h.used j hj)
  begun := fun x hx => Nat.lt_succ_of_lt (h.begun x hx)
  apart := by
    intro j hj k hk hjk
    have hj' := h.used j hj
    have hk' := h.used k hk
    simp only [Cache.newtable, Function.update_apply] at hjk
    split at hjk <;> split at hjk
    · simp_all
    · omega
    · omega
    · exact h.apart j hj k hk hjk
  belongs := by
    intro x hx j hj hjx
    have hx' := h.begun x hx
    simp only [Cache.newtable, Function.update_apply] at hjx
    split at hjx
    · omega
    · exact h.belongs x hx j hj hjx
  fit := by
    intro hc j hj key v hv
    have hj' := h.used j hj
    simp only [Cache.newtable, Cache.found, Function.update_apply] at hv
    by_cases hji : j = i
    · subst hji
      simp at hv
    · rw [if_neg hji, if_neg (Nat.ne_of_lt hj')] at hv
      exact h.fit hc j hj key v hv
  filling := by
    intro hc x hx v hv hown hx'
    have hlt := h.begun x hx
    simp only [Cache.newtable, Function.update_apply] at hx'
    split at hx'
    · omega
    · exact h.filling hc x hx v hv hown hx'

/-- An owner begins with an empty table. -/
theorem Inv.own (h : Inv Fits c) (i : ι) : Inv Fits (c.own i) := by
  have hn := h.newtable i
  have hmem : ∀ j ∈ i :: c.owners, j = i ∨ (j ≠ i ∧ j ∈ c.owners) := by
    intro j hj
    by_cases hji : j = i
    · exact .inl hji
    · exact .inr ⟨hji, (List.mem_cons.mp hj).resolve_left hji⟩
  have hself : (c.newtable i).table i = c.next := Function.update_self _ _ _
  have hother : ∀ j ≠ i, (c.newtable i).table j = c.table j :=
    fun j hj => Function.update_of_ne hj _ _
  constructor
  case used =>
    intro j hj
    rcases hmem j hj with rfl | ⟨-, hj⟩
    · exact hself ▸ Nat.lt_succ_self _
    · exact hn.used j hj
  case begun => exact hn.begun
  case apart =>
    intro j hj k hk hjk
    have hjk' : (c.newtable i).table j = (c.newtable i).table k := hjk
    rcases hmem j hj with rfl | ⟨hji, hj'⟩ <;> rcases hmem k hk with rfl | ⟨hki, hk'⟩
    · rfl
    · rw [hself, hother k hki] at hjk'
      exact absurd hjk' (Nat.ne_of_gt (h.used k hk'))
    · rw [hself, hother j hji] at hjk'
      exact absurd hjk' (Nat.ne_of_lt (h.used j hj'))
    · exact hn.apart j hj' k hk' hjk'
  case belongs =>
    intro x hx j hj hjx
    have hjx' : (c.newtable i).table j = x.table := hjx
    rcases hmem j hj with rfl | ⟨-, hj⟩
    · rw [hself] at hjx'
      exact absurd hjx' (Nat.ne_of_gt (h.begun x hx))
    · exact hn.belongs x hx j hj hjx'
  case fit =>
    intro hc j hj key v hv
    rcases hmem j hj with rfl | ⟨-, hj⟩
    · have hempty : (c.newtable j).found j key = none := by
        simp [Cache.newtable, Cache.found]
      exact absurd (hempty.symm.trans hv) nofun
    · exact hn.fit hc j hj key v hv
  case filling =>
    intro hc x hx v hv hown ht
    have ht' : (c.newtable i).table x.owner = x.table := ht
    rcases hmem x.owner hown with ho | ⟨-, ho⟩
    · rw [ho, hself] at ht'
      exact absurd ht' (Nat.ne_of_gt (h.begun x hx))
    · exact hn.filling hc x hx v hv ho ht'

theorem Inv.replace (h : Inv Fits c) (is : List ι) : Inv Fits (c.replace is) := by
  unfold Cache.replace
  induction is generalizing c with
  | nil => exact h
  | cons i is ih => exact ih (h.newtable i)

/-- The owners that are named have new tables, with nothing in them. -/
theorem replace_spec (c : Cache σ ι κ ν) (is : List ι) :
    (∀ n, n < c.next → (c.replace is).tables n = c.tables n) ∧
      ∀ i, (i ∈ is → c.next ≤ (c.replace is).table i ∧
          ∀ key, (c.replace is).found i key = none) ∧
        (i ∉ is → (c.replace is).table i = c.table i) := by
  unfold Cache.replace
  induction is generalizing c with
  | nil => exact ⟨fun _ _ => rfl, fun i => ⟨nofun, fun _ => rfl⟩⟩
  | cons j is ih =>
    obtain ⟨hold, hmem⟩ := ih (c.newtable j)
    have hnew : (c.newtable j).tables c.next = fun _ => none := Function.update_self _ _ _
    refine ⟨?_, ?_⟩
    · intro n hn
      refine (hold n (Nat.lt_succ_of_lt hn)).trans ?_
      exact Function.update_of_ne (Nat.ne_of_lt hn) _ _
    · intro i
      by_cases hi : i ∈ is
      · obtain ⟨hle, hempty⟩ := (hmem i).1 hi
        refine ⟨fun _ => ⟨Nat.le_of_succ_le hle, hempty⟩, fun hnot => ?_⟩
        exact absurd (List.mem_cons_of_mem j hi) hnot
      · have hsame := (hmem i).2 hi
        by_cases hij : i = j
        · subst hij
          have htable : (is.foldl Cache.newtable (c.newtable i)).table i = c.next :=
            hsame.trans (Function.update_self _ _ _)
          refine ⟨fun _ => ⟨Nat.le_of_eq htable.symm, fun key => ?_⟩, fun hnot => ?_⟩
          · unfold Cache.found
            rw [List.foldl_cons, htable, hold c.next (Nat.lt_succ_self _), hnew]
          · exact absurd List.mem_cons_self hnot
        · refine ⟨fun hin => ?_, fun _ => ?_⟩
          · exact absurd ((List.mem_cons.mp hin).resolve_left hij) hi
          · exact hsame.trans (Function.update_of_ne hij _ _)

theorem replace_rest (c : Cache σ ι κ ν) (is : List ι) :
    (c.replace is).owners = c.owners ∧ (c.replace is).fills = c.fills ∧
      (c.replace is).source = c.source ∧ (c.replace is).changed = c.changed := by
  unfold Cache.replace
  induction is generalizing c with
  | nil => exact ⟨rfl, rfl, rfl, rfl⟩
  | cons j is ih => exact ih (c.newtable j)

/-- Every owner has a table with nothing in it, and no fill is for one of these. -/
theorem Inv.clear (h : Inv Fits c) : Inv Fits c.clear := by
  have hr := h.replace c.owners
  obtain ⟨-, hspec⟩ := replace_spec c c.owners
  obtain ⟨howners, hfills, -, -⟩ := replace_rest c c.owners
  refine ⟨hr.used, hr.begun, hr.apart, hr.belongs, ?_, ?_⟩
  · intro _ i hi key v hv
    have hi' : i ∈ c.owners := howners ▸ hi
    have hempty := ((hspec i).1 hi').2 key
    exact absurd (hempty.symm.trans hv) nofun
  · intro _ x hx v _ hown ht
    have hx' : x ∈ c.fills := hfills ▸ hx
    have hown' : x.owner ∈ c.owners := howners ▸ hown
    have hnew := ((hspec x.owner).1 hown').1
    exact absurd ht (Nat.ne_of_gt (Nat.lt_of_lt_of_le (h.begun x hx') hnew))

variable [DecidableEq κ]

theorem Inv.drop (h : Inv Fits c) (i : ι) (key : κ) : Inv Fits (c.drop i key) := by
  have hmem : ∀ j ∈ c.owners.filter (· ≠ i), j ∈ c.owners := fun j hj => List.mem_of_mem_filter hj
  constructor
  case used => exact fun j hj => h.used j (hmem j hj)
  case begun => exact h.begun
  case apart => exact fun j hj k hk => h.apart j (hmem j hj) k (hmem k hk)
  case belongs => exact fun x hx j hj => h.belongs x hx j (hmem j hj)
  case filling => exact fun hc x hx v hv hown => h.filling hc x hx v hv (hmem _ hown)
  case fit =>
    intro hc j hj key' v hv
    unfold Cache.found Cache.drop at hv
    by_cases hkey : key' = key
    · subst hkey
      simp at hv
    · simp only [Function.update_of_ne hkey] at hv
      exact h.fit hc j (hmem j hj) key' v hv

end

end pllua.caches
