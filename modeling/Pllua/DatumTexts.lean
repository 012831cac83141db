-- The text of a datum: a row is put together from the texts of its columns as they are, so it shows
-- what was assigned before the typmods of the columns are applied, and no text at all where nil was
-- assigned.
import Pllua.DatumArrays

open pllua.catalog pllua.records

namespace pllua.datums

section
variable {α : Type} (types : Types)

/-- A column of a text. Nil was assigned to one that cannot be read. -/
def column_shown (shown : Held α → Except Failure (Value α)) (u : Held α) (i : Nat) :
    Except Failure (Option (Value α)) :=
  match types.column u.typeoid i with
  | none => .ok none
  | some att =>
    match readable u.marks i with
    | .error e => .error e
    | .ok _ =>
      match u.value.col i with
      | none => .ok none
      | some v => (shown (column_of u.marks i att v)).map some

/-- What the text of a value shows. -/
def value_shown : Nat → Held α → Except Failure (Value α)
  | 0, _ => .error .error
  | n + 1, u =>
    match types.typeinfo u.typeoid with
    | .row attrs => ((List.range attrs.length).mapM (column_shown types (value_shown n) u)).map .row
    | _ => .ok u.value

variable {types} {pg : Backend α types}

theorem value_shown_error (n : Nat) {u : Held α} {e : Failure}
    (h : value_shown types n u = .error e) : e = .error := by
  induction n generalizing u e with
  | zero =>
    cases h
    rfl
  | succ n ih =>
    unfold value_shown at h
    split at h
    · refine mapM_error ?_ (map_error h)
      intro i e he
      unfold column_shown at he
      split at he
      · cases he
      · split at he
        · rename_i hread
          cases he
          exact readable_error hread
        · split at he
          · cases he
          · exact ih (map_error he)
    · cases h

theorem mapM_range_cols {f : Nat → Except Failure (Option (Value α))}
    {cols : List (Option (Value α))} (hf : ∀ (i : Nat) col, cols[i]? = some col → f i = .ok col) :
    (List.range cols.length).mapM f = .ok cols := by
  induction cols generalizing f with
  | nil => rfl
  | cons col cols ih =>
    have hrest := ih (f := fun i => f (i + 1)) fun i col hcol => hf (i + 1) col hcol
    rw [List.length_cons, List.range_succ_eq_map, List.mapM_cons, hf 0 col rfl, List.mapM_map]
    exact congrArg (fun r => r.bind fun vs => Except.ok (col :: vs)) hrest

/-- A row that nobody assigned to shows itself. -/
theorem value_shown_self (n : Nat) {u : Held α} (hplain : ∀ i p, u.marks (i :: p) = .plain)
    (hw : Wellformed types u.typeoid u.value) (hn : types.nesting u.typeoid ≤ n) :
    value_shown types (n + 1) u = .ok u.value := by
  induction n using Nat.strongRecOn generalizing u with
  | ind n ih =>
    unfold value_shown
    obtain ⟨oid, typmod, marks, v⟩ := u
    cases hw with
    | flat hflat =>
      cases ht : types.typeinfo oid with
      | row attrs =>
        rw [ht] at hflat
        cases hflat
      | scalar _ _ | range | array _ => rfl
    | row ht hlen hdropped hcols =>
      rename_i attrs cols
      simp only [ht, ← hlen]
      rw [mapM_range_cols]
      · rfl
      intro i col hcol
      have hread : readable marks i = .ok () := by
        have hmark : marks [i] = .plain := hplain i []
        unfold readable
        rw [hmark]
        rfl
      have hval : (Value.row cols).col i = col := by simp [Value.col, hcol]
      unfold column_shown
      cases hatt : types.column oid i with
      | none =>
        cases col with
        | none => rfl
        | some w =>
          have hlt : i < attrs.length := by
            rw [← hlen]
            exact (List.getElem?_eq_some_iff.mp hcol).1
          have hlive := hdropped i attrs[i] w (List.getElem?_eq_getElem hlt) hcol
          simp [Types.column, ht, List.getElem?_eq_getElem hlt, hlive] at hatt
      | some att =>
        simp only [hread, hval]
        cases col with
        | none => rfl
        | some w =>
          have hget : attrs[i]? = some att := by
            simp only [Types.column, ht, Option.filter_eq_some_iff] at hatt
            exact hatt.1
          have hlt := types.nesting_lt ht (List.mem_of_getElem? hget)
          have hle : types.nesting oid ≤ n := hn
          have hshown : value_shown types n (column_of marks i att w) = .ok w := by
            cases n with
            | zero => exact absurd (Nat.lt_of_lt_of_le hlt hle) (Nat.not_lt_zero _)
            | succ m =>
              refine ih m (Nat.lt_succ_self m) (fun j p => hplain i (j :: p))
                (hcols i att w hget hcol) ?_
              exact Nat.le_of_lt_succ (Nat.lt_of_lt_of_le hlt hle)
          exact congrArg (Except.map some) hshown

/-! ## Texts of datums -/

section
variable {h : Heap α} {s : Forest α} {loc : Places} {marks : Marks}

/-- The statement of `tolstring_spec` for one bound. -/
def Shown (types : Types) (pg : Backend α types) (n : Nat) : Prop :=
  ∀ {h : Heap α} {s : Forest α} {loc : Places} {marks : Marks} {x : Id} {u : Held α},
    Settled types h s loc marks → Holds h s loc marks x u → types.nesting u.typeoid < n →
    ∃ loc', Reading types h (luaL_tolstring types pg n x h).1 s loc loc' marks ∧
      (luaL_tolstring types pg n x h).2 = value_shown types n u

theorem column_text_spec {n : Nat} (ih : Shown types pg n) (hs : Settled types h s loc marks)
    {x : Id} {P : Place} {v : Value α} {attrs : List Attribute} {slots : List Slot}
    (hx : loc x = some P) (hv : s.at P = some v) (ht : h.type types x = .row attrs)
    (hd : (h.datum x).deformed = some slots) (hn : ∀ att ∈ attrs, types.nesting att.atttypid < n)
    {i : Nat} (hi : i < attrs.length) :
    ∃ loc', Reading types h (column_text (luaL_tolstring types pg n) x i h).1 s loc loc' marks ∧
      (column_text (luaL_tolstring types pg n) x i h).2 =
        column_shown types (value_shown types n) (holding h marks x P v) i := by
  have hatt : attrs[i]? = some attrs[i] := List.getElem?_eq_getElem hi
  obtain ⟨slot, hslot, hentry, hmark⟩ := hs.entry hx ht hd hatt
  have hstands : s.at (P.child i) = v.col i := by rw [at_child, hv, Option.bind_some]
  have hbelow : marks.below P [i] = marks (P.child i) := rfl
  have hcol : types.column (h.datum x).typeinfo i =
      if attrs[i].attisdropped then none else some attrs[i] := by
    unfold Heap.type at ht
    unfold Types.column
    rw [ht]
    simp only [hatt, Option.filter_some]
    cases attrs[i].attisdropped <;> rfl
  unfold column_text column_shown holding readable
  simp only [hd, Option.bind_some, hslot, hcol, hbelow]
  cases slot with
  | dropped =>
    have hdropped : attrs[i].attisdropped = true := hentry
    rw [if_pos hdropped]
    exact ⟨loc, Reading.refl hs, rfl⟩
  | null =>
    have hplain : marks (P.child i) = .plain := hmark
    rw [if_neg (by rw [hentry.1]; nofun), hplain, ← hstands, hentry.2]
    exact ⟨loc, Reading.refl hs, rfl⟩
  | absent =>
    have hcleared : marks (P.child i) = .cleared := hmark
    rw [if_neg (by rw [hentry.1]; nofun), hcleared]
    exact ⟨loc, Reading.refl hs, rfl⟩
  | datum c =>
    obtain ⟨hlive, hloc, htype⟩ := hentry
    obtain ⟨w, hw, -⟩ := hs.inv.holds_value hloc
    rw [hstands] at hw
    obtain ⟨loc', hr, hval⟩ := ih hs (child_holds hloc htype hmark (hstands.trans hw))
      (hn _ (List.getElem_mem hi))
    rw [if_neg (by rw [hlive]; nofun)]
    simp only [if_neg hmark.1, hw]
    exact ⟨loc', hr, congrArg (Except.map some) hval⟩

variable (pg) in
/-- The text of a datum shows what the datum holds. -/
theorem tolstring_spec (n : Nat) : Shown types pg n := by
  induction n with
  | zero => exact fun _ _ hn => absurd hn (Nat.not_lt_zero _)
  | succ n ih =>
    intro h s loc marks x u hs hholds hn
    obtain ⟨P, v, hx, hv, rfl⟩ := id hholds
    have htypeoid : (holding h marks x P v).typeoid = (h.datum x).typeinfo := rfl
    have hbare : (h.type types x).is_row = false →
        pllua_datum_tostring types pg x h = (h, .ok v) := by
      intro hbare
      obtain ⟨w, hw, hcontent⟩ := hs.inv.holds_value hx
      rw [hv] at hw
      cases hw
      obtain ⟨-, -, -, -, -, hm, -⟩ := hs.inv.flat_bytes hx hbare
      unfold pllua_datum_tostring
      simp [hm, hcontent hm]
    unfold luaL_tolstring value_shown
    rw [htypeoid]
    cases ht : types.typeinfo (h.datum x).typeinfo with
    | scalar _ _ | range | array _ =>
      simp only [hbare (by unfold Heap.type; rw [ht]; rfl)]
      exact ⟨loc, Reading.refl hs, rfl⟩
    | row attrs =>
      obtain ⟨loc₁, hr₁, slots, hd⟩ := hs.deform pg hx ht
      have hnest : ∀ att ∈ attrs, types.nesting att.atttypid < n := fun att hatt =>
        Nat.lt_of_lt_of_le (types.nesting_lt ht hatt) (Nat.le_of_lt_succ hn)
      obtain ⟨⟨loc₂, hr₂, -⟩, hvals⟩ := in_turn_follows
        (I := fun h' => ∃ loc', Reading types h h' s loc loc' marks ∧
          (h'.datum x).deformed = some slots)
        (f := column_text (luaL_tolstring types pg n) x)
        (g := column_shown types (value_shown types n) (holding h marks x P v))
        (l := List.range attrs.length)
        (by
          rintro i hi h' ⟨loc', hr', hd'⟩
          obtain ⟨_, hkeep, -⟩ := hr'.kept x P hx
          have hsame : holding h' marks x P v = holding h marks x P v := by
            unfold holding
            rw [hkeep]
          obtain ⟨loc'', hr'', hval⟩ := column_text_spec ih hr'.settled (hr'.grown x P hx) hv
            ((hr'.type hx).trans ht) hd' hnest (List.mem_range.mp hi)
          exact ⟨⟨loc'', hr'.trans hr'', hr''.table (hr'.grown x P hx) hd'⟩,
            hval.trans (by rw [hsame])⟩)
        ⟨loc₁, hr₁, hd⟩
      exact ⟨loc₂, hr₂, congrArg (Except.map Value.row) hvals⟩

end

end

end pllua.datums
