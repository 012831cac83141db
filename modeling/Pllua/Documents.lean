-- Documents: trees of scalars, arrays and objects. A document is listed as
-- tokens, with the members of an object in any order, and a builder takes a
-- listing back to the document with the keys in their own order.
import Mathlib.Data.List.Perm.Basic
import Mathlib.Data.List.Forall2
import Mathlib.Data.List.Nodup

namespace pllua.documents

/-- A document over the keys `K` and the scalars `S`. -/
inductive Doc (K S : Type)
  | scalar (s : S)
  | array (elems : List (Doc K S))
  | object (members : List (K × Doc K S))

/-- What a document is listed as. A scalar is listed by where it stands. -/
inductive Token (K S : Type)
  | beginArray
  | endArray
  | beginObject
  | endObject
  | elem (s : S)
  | key (k : K)
  | value (s : S)

variable {K S : Type}

/-! ## Trees -/

/-- Induction on a document: a law of the parts is a law of the whole. -/
@[elab_as_elim, induction_eliminator]
theorem Doc.induct {P : Doc K S → Prop} (scalar : ∀ s, P (.scalar s))
    (array : ∀ xs, (∀ x ∈ xs, P x) → P (.array xs))
    (object : ∀ ms, (∀ m ∈ ms, P m.2) → P (.object ms)) : ∀ d, P d
  | .scalar s => scalar s
  | .array xs => array xs fun x _ => Doc.induct scalar array object x
  | .object ms => object ms fun m _ => Doc.induct scalar array object m.2
termination_by d => d
decreasing_by
  · have := List.sizeOf_lt_of_mem ‹_›
    simp only [Doc.array.sizeOf_spec]
    omega
  · have := List.sizeOf_lt_of_mem ‹_›
    cases m
    simp only [Doc.object.sizeOf_spec, Prod.mk.sizeOf_spec] at *
    omega

mutual
/-- The document and every document in it pass the test. -/
def Doc.all (p : Doc K S → Bool) : Doc K S → Bool
  | .scalar s => p (.scalar s)
  | .array xs => p (.array xs) && allElems p xs
  | .object ms => p (.object ms) && allMembers p ms

def allElems (p : Doc K S → Bool) : List (Doc K S) → Bool
  | [] => true
  | x :: xs => x.all p && allElems p xs

def allMembers (p : Doc K S → Bool) : List (K × Doc K S) → Bool
  | [] => true
  | m :: ms => m.2.all p && allMembers p ms
end

section
variable (p : Doc K S → Bool)

@[simp] theorem all_scalar (s : S) : (Doc.scalar s : Doc K S).all p = p (.scalar s) := rfl

theorem allElems_iff (xs : List (Doc K S)) : allElems p xs ↔ ∀ x ∈ xs, x.all p := by
  induction xs with
  | nil => simp [allElems]
  | cons x xs ih => simp [allElems, ih]

theorem allMembers_iff (ms : List (K × Doc K S)) :
    allMembers p ms ↔ ∀ m ∈ ms, m.2.all p := by
  induction ms with
  | nil => simp [allMembers]
  | cons m ms ih => simp [allMembers, ih]

@[simp] theorem all_array (xs : List (Doc K S)) :
    (Doc.array xs).all p ↔ p (.array xs) ∧ ∀ x ∈ xs, x.all p := by
  rw [Doc.all, Bool.and_eq_true, allElems_iff]

@[simp] theorem all_object (ms : List (K × Doc K S)) :
    (Doc.object ms).all p ↔ p (.object ms) ∧ ∀ m ∈ ms, m.2.all p := by
  rw [Doc.all, Bool.and_eq_true, allMembers_iff]

end

/-! ## Listings -/

mutual
/-- The tokens of a document, its members as they stand. `w` says where a
scalar stands. -/
def Doc.listed : (S → Token K S) → Doc K S → List (Token K S)
  | w, .scalar s => [w s]
  | _, .array xs => .beginArray :: (listedElems xs ++ [.endArray])
  | _, .object ms => .beginObject :: (listedMembers ms ++ [.endObject])

def listedElems : List (Doc K S) → List (Token K S)
  | [] => []
  | x :: xs => x.listed .elem ++ listedElems xs

def listedMembers : List (K × Doc K S) → List (Token K S)
  | [] => []
  | m :: ms => .key m.1 :: (m.2.listed .value ++ listedMembers ms)
end

mutual
/-- The tokens list the document, the members of each object in some order. -/
inductive Listing : (S → Token K S) → Doc K S → List (Token K S) → Prop
  | scalar (w : S → Token K S) (s : S) : Listing w (.scalar s) [w s]
  | array (w : S → Token K S) {xs : List (Doc K S)} {ts : List (Token K S)} :
    ListedElems xs ts → Listing w (.array xs) (.beginArray :: (ts ++ [.endArray]))
  | object (w : S → Token K S) {ms ms' : List (K × Doc K S)} {ts : List (Token K S)} :
    ms'.Perm ms → ListedMembers ms' ts →
    Listing w (.object ms) (.beginObject :: (ts ++ [.endObject]))

inductive ListedElems : List (Doc K S) → List (Token K S) → Prop
  | nil : ListedElems [] []
  | cons {x : Doc K S} {xs : List (Doc K S)} {ts us : List (Token K S)} :
    Listing .elem x ts → ListedElems xs us → ListedElems (x :: xs) (ts ++ us)

inductive ListedMembers : List (K × Doc K S) → List (Token K S) → Prop
  | nil : ListedMembers [] []
  | cons {m : K × Doc K S} {ms : List (K × Doc K S)} {ts us : List (Token K S)} :
    Listing .value m.2 ts → ListedMembers ms us →
    ListedMembers (m :: ms) (.key m.1 :: (ts ++ us))
end

/-! ## Keys in order -/

section
variable (lt : K → K → Bool)

/-- The keys of an object increase. -/
def keysIncrease : Doc K S → Bool
  | .object ms => decide (ms.Pairwise fun m n => lt m.1 n.1)
  | _ => true

/-- The keys of every object in the document increase. -/
def Doc.Canonical (d : Doc K S) : Prop := d.all (keysIncrease lt)

/-- A strict order on keys, as a test. -/
structure StrictOrder : Prop where
  irrefl : ∀ a, lt a a = false
  trans : ∀ a b c, lt a b → lt b c → lt a c
  total : ∀ a b, a ≠ b → lt a b ∨ lt b a

variable {lt}

theorem keys_nodup_of_increase (h : StrictOrder lt) {ms : List (K × Doc K S)}
    (hs : ms.Pairwise fun m n => lt m.1 n.1) : (ms.map Prod.fst).Nodup := by
  rw [List.Nodup, List.pairwise_map]
  refine hs.imp ?_
  intro m n hlt heq
  rw [heq, h.irrefl] at hlt
  exact Bool.false_ne_true hlt

/-- The canonical order of the members is the only increasing one. -/
theorem eq_of_perm_of_increase (h : StrictOrder lt) {ms ms' : List (K × Doc K S)}
    (hp : ms.Perm ms') (hs : ms.Pairwise fun m n => lt m.1 n.1)
    (hs' : ms'.Pairwise fun m n => lt m.1 n.1) : ms = ms' := by
  refine hp.eq_of_pairwise ?_ hs hs'
  intro m n _ _ hmn hnm
  have hmm := h.trans _ _ _ hmn hnm
  rw [h.irrefl] at hmm
  exact absurd hmm Bool.false_ne_true

end

/-! ## The builder -/

/-- A container that is not closed yet. -/
inductive Open (K S : Type)
  /-- the place of the whole document -/
  | top (done : Option (Doc K S))
  | array (done : List (Doc K S))
  /-- an object, and the key that waits for its value -/
  | object (done : List (K × Doc K S)) (key : Option K)

section
variable (lt : K → K → Bool)

/-- The member goes to the place of its key, and replaces an earlier one. -/
def upsert (k : K) (v : Doc K S) : List (K × Doc K S) → List (K × Doc K S)
  | [] => [(k, v)]
  | m :: ms =>
    if lt k m.1 then (k, v) :: m :: ms
    else if lt m.1 k then m :: upsert k v ms
    else (k, v) :: ms

/-- A document that is complete goes into the container around it. -/
def Open.add : Open K S → Doc K S → Option (Open K S)
  | .top none, d => some (.top (some d))
  | .array done, d => some (.array (done ++ [d]))
  | .object done (some k), d => some (.object (upsert lt k d done) none)
  | _, _ => none

/-- One token, with the open containers from the inside out. -/
def build : List (Open K S) → Token K S → Option (List (Open K S))
  | fs, .beginArray => some (.array [] :: fs)
  | fs, .beginObject => some (.object [] none :: fs)
  | .array done :: f :: fs, .endArray => (f.add lt (.array done)).map (· :: fs)
  | .object done none :: f :: fs, .endObject => (f.add lt (.object done)).map (· :: fs)
  | .array done :: fs, .elem s => ((Open.array done).add lt (.scalar s)).map (· :: fs)
  | .object done none :: fs, .key k => some (.object done (some k) :: fs)
  | .object done (some k) :: fs, .value s =>
    ((Open.object done (some k)).add lt (.scalar s)).map (· :: fs)
  | _, _ => none

variable {lt}

theorem mem_upsert {k : K} {v : Doc K S} {ms : List (K × Doc K S)} {n : K × Doc K S}
    (hn : n ∈ upsert lt k v ms) : n = (k, v) ∨ n ∈ ms := by
  induction ms with
  | nil => exact Or.inl (List.mem_singleton.mp hn)
  | cons m ms ih =>
    rw [upsert] at hn
    split at hn
    · exact List.mem_cons.mp hn
    · split at hn
      · rcases List.mem_cons.mp hn with rfl | hn
        · exact Or.inr List.mem_cons_self
        · exact (ih hn).imp_right (List.mem_cons_of_mem m)
      · exact (List.mem_cons.mp hn).imp_right (List.mem_cons_of_mem m)

theorem upsert_increase (h : StrictOrder lt) {k : K} {v : Doc K S} {ms : List (K × Doc K S)}
    (hs : ms.Pairwise fun m n => lt m.1 n.1) :
    (upsert lt k v ms).Pairwise fun m n => lt m.1 n.1 := by
  induction ms with
  | nil => exact List.pairwise_singleton ..
  | cons m ms ih =>
    obtain ⟨hm, hms⟩ := List.pairwise_cons.mp hs
    rw [upsert]
    split
    · rename_i hkm
      refine List.pairwise_cons.mpr ⟨?_, hs⟩
      intro n hn
      rcases List.mem_cons.mp hn with rfl | hn
      · exact hkm
      · exact h.trans _ _ _ hkm (hm n hn)
    · rename_i hkm
      split
      · rename_i hmk
        refine List.pairwise_cons.mpr ⟨?_, ih hms⟩
        intro n hn
        rcases mem_upsert hn with rfl | hn
        · exact hmk
        · exact hm n hn
      · rename_i hmk
        -- neither key comes first, so they are the same key
        have heq : k = m.1 := by
          by_contra hne
          exact (h.total k m.1 hne).elim hkm hmk
        exact List.pairwise_cons.mpr ⟨heq ▸ hm, hms⟩

theorem upsert_perm {k : K} {v : Doc K S} {ms : List (K × Doc K S)} (h : StrictOrder lt)
    (hk : k ∉ ms.map Prod.fst) : (upsert lt k v ms).Perm ((k, v) :: ms) := by
  induction ms with
  | nil => exact List.Perm.refl _
  | cons m ms ih =>
    simp only [List.map_cons, List.mem_cons, not_or] at hk
    rw [upsert]
    split
    · exact List.Perm.refl _
    · rename_i hkm
      rw [if_pos ((h.total k m.1 hk.1).resolve_left hkm)]
      exact ((ih hk.2).cons m).trans (List.Perm.swap _ _ _)

/-- The builder after the elements of an array. -/
theorem build_elems {xs : List (Doc K S)} {ts : List (Token K S)} (hl : ListedElems xs ts)
    (ih : ∀ x ∈ xs, ∀ (us : List (Token K S)) (done : List (Doc K S)) (fs : List (Open K S)),
      Listing .elem x us →
      us.foldlM (build lt) (.array done :: fs) = some (.array (done ++ [x]) :: fs))
    (done : List (Doc K S)) (fs : List (Open K S)) :
    ts.foldlM (build lt) (.array done :: fs) = some (.array (done ++ xs) :: fs) := by
  induction xs generalizing ts done with
  | nil =>
    cases hl
    simp
  | cons x xs ihxs =>
    cases hl with
    | cons hx hxs =>
      rw [List.foldlM_append, ih x List.mem_cons_self _ done fs hx, Option.bind_eq_bind,
        Option.bind_some, ihxs hxs (fun y hy => ih y (List.mem_cons_of_mem x hy))]
      simp

/-- The builder after the members of an object. -/
theorem build_members {ms : List (K × Doc K S)} {ts : List (Token K S)}
    (hl : ListedMembers ms ts)
    (ih : ∀ m ∈ ms, ∀ (us : List (Token K S)) (done : List (K × Doc K S)) (fs : List (Open K S)),
      Listing .value m.2 us → us.foldlM (build lt) (.object done (some m.1) :: fs) =
        some (.object (upsert lt m.1 m.2 done) none :: fs))
    (done : List (K × Doc K S)) (fs : List (Open K S)) :
    ts.foldlM (build lt) (.object done none :: fs) =
      some (.object (ms.foldl (fun acc m => upsert lt m.1 m.2 acc) done) none :: fs) := by
  induction ms generalizing ts done with
  | nil =>
    cases hl
    rfl
  | cons m ms ihms =>
    cases hl with
    | cons hm hms =>
      rw [List.foldlM_cons, build, Option.bind_eq_bind, Option.bind_some, List.foldlM_append,
        ih m List.mem_cons_self _ done fs hm, Option.bind_eq_bind, Option.bind_some,
        ihms hms (fun n hn => ih n (List.mem_cons_of_mem m hn))]
      rfl

/-- Members with different keys, put in one by one, end in the order of their keys. -/
theorem foldl_upsert (h : StrictOrder lt) (ms : List (K × Doc K S))
    (done : List (K × Doc K S)) (hnd : ((done ++ ms).map Prod.fst).Nodup)
    (hs : done.Pairwise fun m n => lt m.1 n.1) :
    (ms.foldl (fun acc m => upsert lt m.1 m.2 acc) done).Perm (done ++ ms) ∧
      (ms.foldl (fun acc m => upsert lt m.1 m.2 acc) done).Pairwise fun m n => lt m.1 n.1 := by
  induction ms generalizing done with
  | nil => exact ⟨by simp, hs⟩
  | cons m ms ih =>
    have hk : m.1 ∉ done.map Prod.fst := by
      intro hmem
      rw [List.map_append, List.map_cons, List.nodup_append] at hnd
      exact hnd.2.2 _ hmem _ List.mem_cons_self rfl
    have hp : (upsert lt m.1 m.2 done ++ ms).Perm (done ++ m :: ms) :=
      ((upsert_perm h hk).append_right ms).trans List.perm_middle.symm
    obtain ⟨hperm, hinc⟩ := ih (upsert lt m.1 m.2 done)
      ((hp.map Prod.fst).nodup_iff.mpr hnd) (upsert_increase h hs)
    exact ⟨hperm.trans hp, hinc⟩

theorem foldl_upsert_eq (h : StrictOrder lt) {ms ms' : List (K × Doc K S)}
    (hp : ms'.Perm ms) (hs : ms.Pairwise fun m n => lt m.1 n.1) :
    ms'.foldl (fun acc m => upsert lt m.1 m.2 acc) [] = ms := by
  have hnd := (hp.map Prod.fst).nodup_iff.mpr (keys_nodup_of_increase h hs)
  obtain ⟨hperm, hinc⟩ := foldl_upsert h ms' [] hnd List.Pairwise.nil
  exact eq_of_perm_of_increase h (hperm.trans hp) hinc hs

/-- From a listing the builder makes the document, whatever the order of the members. -/
theorem build_listing (h : StrictOrder lt) {d : Doc K S} (hd : d.Canonical lt)
    {w : S → Token K S} {ts : List (Token K S)} {f f' : Open K S} (fs : List (Open K S))
    (hw : ∀ s, d = .scalar s → build lt (f :: fs) (w s) = (f.add lt d).map (· :: fs))
    (hf : f.add lt d = some f') (hl : Listing w d ts) :
    ts.foldlM (build lt) (f :: fs) = some (f' :: fs) := by
  induction d generalizing w ts f f' fs with
  | scalar s =>
    cases hl
    simp [hw s rfl, hf]
  | array xs ih =>
    obtain ⟨-, hxs⟩ := (all_array _ xs).mp hd
    cases hl with
    | array _ hxl =>
      have helem : ∀ x ∈ xs, ∀ us done gs, Listing .elem x us →
          us.foldlM (build lt) (.array done :: gs) = some (.array (done ++ [x]) :: gs) :=
        fun x hx us done gs hul =>
          ih x hx (hxs x hx) gs (fun s hs => by rw [hs]; rfl) rfl hul
      have hbody := build_elems hxl helem [] (f :: fs)
      rw [List.foldlM_cons, build, Option.bind_eq_bind, Option.bind_some, List.foldlM_append,
        hbody]
      simp [build, hf]
  | object ms ih =>
    obtain ⟨hinc, hms⟩ := (all_object _ ms).mp hd
    cases hl with
    | @object _ _ ms' _ hp hml =>
      have hmember : ∀ m ∈ ms', ∀ us done gs, Listing .value m.2 us →
          us.foldlM (build lt) (.object done (some m.1) :: gs) =
            some (.object (upsert lt m.1 m.2 done) none :: gs) :=
        fun m hm us done gs hul =>
          ih m (hp.subset hm) (hms m (hp.subset hm)) gs (fun s hs => by rw [hs]; rfl) rfl hul
      have hbody := build_members hml hmember [] (f :: fs)
      rw [foldl_upsert_eq h hp (of_decide_eq_true hinc)] at hbody
      rw [List.foldlM_cons, build, Option.bind_eq_bind, Option.bind_some, List.foldlM_append,
        hbody]
      simp [build, hf]

end

end pllua.documents
