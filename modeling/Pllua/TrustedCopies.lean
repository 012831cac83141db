-- The mode "copy" of `trusted.c`: a module and the tables in it are copied, each table once, so that
-- the copy has the shape of the module whatever its tables share and however they are tied.
import Pllua.TrustedTables

open entries

namespace pllua.tables

/-! ## The mode -/

/-- One new table for each, in which every value is set. -/
def copying : Mode where
  size := 1
  make := fun _ s => some s.newtable
  keep := true

def pllua_trusted_mode_copy_inner : Nat → Nat → State → Option (Nat × State) := mode_inner copying

/-- `pllua_trusted_mode_outer` with false as its upvalue. -/
def copy_outer : Nat → Val → Store → Option (Val × Store) := mode_outer copying

/-- A value with the tables renamed. -/
def Val.rename (φ : Nat → Nat) : Val → Val
  | .table u => .table (φ u)
  | v => v

/-- What a copy of the tables that are reachable from the module is, with `φ u` as the copy of `u`. -/
structure Copied (h : Heap) (root : Nat) (φ : Nat → Nat) (s : Store) : Prop where
  fresh : ∀ u, h.Reach root u → h.store.next ≤ φ u ∧ φ u < s.next
  inj : ∀ u v, h.Reach root u → h.Reach root v → φ u = φ v → u = v
  only : ∀ x, h.store.next ≤ x → x < s.next → ∃ u, h.Reach root u ∧ x = φ u
  contents : ∀ u, h.Reach root u →
    s.table (φ u) = ⟨(h.store.table u).entries.map fun e => (e.1, e.2.rename φ), none⟩
  originals : ∀ x < h.store.next, s.table x = h.store.table x
  copies : ∀ t, Relation.ReflTransGen s.Child (φ root) t → ∃ u, h.Reach root u ∧ t = φ u
  apart : ∀ t, Relation.ReflTransGen s.Child (φ root) t → ¬ t < h.store.next

/-! ## The copy -/

/-- A new table has no metatable. -/
def bare (_u t : Nat) (s : Store) : Prop := (s.table t).metatable = none

theorem copying_makes (h : Heap) (root : Nat) : Makes copying h bare root where
  size_pos := Nat.one_pos
  next := fun _ _ made hmade => by
    obtain rfl := Option.some.inj hmade
    rfl
  frame := fun _ s made _ hmade hx => by
    obtain rfl := Option.some.inj hmade
    exact s.newtable_other hx
  empty := fun _ s made hmade => by
    obtain rfl := Option.some.inj hmade
    simp
  makes := fun _ s _ _ _ _ => ⟨s.newtable, rfl, by simp [bare]⟩
  stable := fun _ _ _ _ hbare _ hsame => hsame.trans hbare

/-- The table that stands for one of the module. -/
def named (memo : Nat → Option Nat) (u : Nat) : Nat := (memo u).getD u

theorem image_named {memo : Nat → Option Nat} (v : Val) : image memo v = v.rename (named memo) := by
  cases v with
  | table u =>
    cases hu : memo u with
    | none => simp [image, Val.rename, named, hu]
    | some t => simp [image, Val.rename, named, hu]
  | _ => rfl

theorem images_copying (memo : Nat → Option Nat) (es : List (Val × Val)) :
    images copying memo es = es.map fun e => (e.1, e.2.rename (named memo)) := by
  have all : kept copying es = es := List.filter_eq_self.mpr fun e _ => by simp [copying]
  unfold images
  rw [all]
  exact List.map_congr_left fun e _ => by rw [image_named]

section
variable {h : Heap} {root t : Nat} {s : State}

theorem named_of_memo {memo : Nat → Option Nat} {u x : Nat} (hu : memo u = some x) :
    named memo u = x := by
  rw [named, hu]
  rfl

theorem Renames.memo_named {mode : Mode} {shape : Nat → Nat → Store → Prop}
    (hr : Renames mode h shape root t s) {u : Nat} (hu : h.Reach root u) :
    s.memo u = some (named s.memo u) := by
  obtain ⟨x, hx⟩ := Option.isSome_iff_exists.mp ((hr.domain u).mpr hu)
  rw [named_of_memo hx, hx]

theorem copied_tables (hr : Renames copying h bare root t s) {u : Nat} (hu : h.Reach root u) :
    s.store.table (named s.memo u) =
      ⟨(h.store.table u).entries.map fun e => (e.1, e.2.rename (named s.memo)), none⟩ := by
  have hmemo := hr.memo_named hu
  rw [← images_copying, ← hr.entries u _ hmemo]
  exact congrArg (Table.mk _) (hr.shaped u _ hmemo)

/-- A value of a copy that is a table is the copy of a value. -/
theorem copied_child (hr : Renames copying h bare root t s) {u x : Nat} (hu : h.Reach root u)
    (hchild : s.store.Child (named s.memo u) x) :
    ∃ v, h.Child u v ∧ x = named s.memo v := by
  obtain ⟨k, hk⟩ := hchild
  rw [copied_tables hr hu] at hk
  obtain ⟨⟨k', v⟩, hmem, heq⟩ := List.mem_map.mp hk
  obtain ⟨-, hvalue⟩ := Prod.mk.inj heq
  cases v with
  | table v => exact ⟨v, ⟨k', hmem⟩, (Val.table.inj hvalue).symm⟩
  | _ => cases hvalue

theorem Renames.copied (hr : Renames copying h bare root t s) :
    Copied h root (named s.memo) s.store := by
  have fresh (u : Nat) (hu : h.Reach root u) :
      h.store.next ≤ named s.memo u ∧ named s.memo u < s.store.next :=
    (hr.inv.domain u _ (hr.memo_named hu)).2
  have copies (x : Nat) (hx : Relation.ReflTransGen s.store.Child (named s.memo root) x) :
      ∃ u, h.Reach root u ∧ x = named s.memo u := by
    induction hx with
    | refl => exact ⟨root, .refl, rfl⟩
    | tail _ hchild ih =>
      obtain ⟨u, hu, rfl⟩ := ih
      obtain ⟨v, hv, rfl⟩ := copied_child hr hu hchild
      exact ⟨v, hu.tail hv, rfl⟩
  refine ⟨fresh, ?_, ?_, fun u hu => copied_tables hr hu, hr.inv.originals, copies, ?_⟩
  · intro u v hu hv heq
    exact hr.inv.inj u v _ (hr.memo_named hu) (heq ▸ hr.memo_named hv)
  · intro x hle hlt
    obtain ⟨u, t', ht, h1, h2⟩ := hr.inv.covered x hle hlt
    have hone : copying.size = 1 := rfl
    refine ⟨u, (hr.domain u).mp (by rw [ht]; rfl), ?_⟩
    rw [named_of_memo ht]
    omega
  · intro x hx hlt
    obtain ⟨u, hu, rfl⟩ := copies x hx
    have := (fresh u hu).1
    omega

end

/-- A copy of a module that nests within the limit is made, and it is the module with its tables
renamed to new ones. -/
theorem copy_is_isomorphic (h : Heap) (limit root : Nat) (hroot : root < h.store.next)
    (hnests : h.Nests limit root) :
    ∃ φ s, copy_outer limit (.table root) h.store = some (.table (φ root), s) ∧
      Copied h root φ s := by
  obtain ⟨t, s, hrun, hr⟩ := mode_inner_renames (copying_makes h root) hroot hnests
  refine ⟨named s.memo, s.store, ?_, hr.copied⟩
  have hrun' : mode_inner copying limit root ⟨h.store, fun _ => none⟩ = some (t, s) := hrun
  rw [copy_outer, mode_outer, hrun', Option.map_some, named_of_memo hr.returned]

/-- Two tables that refer to each other, the second one also to itself. -/
def tied : Heap :=
  .of (.of [⟨[(.str "inner", .table 1), (.str "n", .other 7)], none⟩,
    ⟨[(.str "up", .table 0), (.str "self", .table 1)], none⟩]) (by decide)

theorem tied_copied :
    ∃ φ s, copy_outer 200 (.table 0) tied.store = some (.table (φ 0), s) ∧ Copied tied 0 φ s :=
  copy_is_isomorphic tied 200 0 (by decide) (tied.nests_of_few (by decide) (by decide))

example : (copy_outer 3 (.table 0) tied.store).map (fun r => (r.1, (r.2.table 3).entries)) =
    some (.table 2, [(.str "up", .table 2), (.str "self", .table 3)]) := by decide +kernel

end pllua.tables
