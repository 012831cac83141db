-- The error context of nested activations. PostgreSQL calls the callback of each
-- activation, the innermost first, and errdepth counts how far down the shared
-- Lua stack the callbacks have come.
import Mathlib.Data.List.Basic

namespace pllua.elog

/-! ## Stacks -/

/-- The C functions that matter: the arguments of `pllua_initial_protected_call`. -/
inductive CFunction
  | pllua_resume_function | pllua_call_function | pllua_call_trigger
  | pllua_call_event_trigger | pllua_validate | pllua_call_inline
  | other
deriving DecidableEq, Repr

/-- A barrier to the traceback. -/
def CFunction.isbarrier : CFunction → Bool
  | .other => false
  | _ => true

/-- A frame of a Lua stack. -/
inductive Frame
  | lua (currentline : Int) (short_src : String)
  | c (fn : CFunction)
deriving DecidableEq, Repr

/-- The fields of `lua_Debug` that the callback reads. -/
structure Debug where
  currentline : Int
  short_src : String
deriving DecidableEq, Repr

/-- `lua_getinfo` with "Sl". -/
def Frame.getinfo : Frame → Debug
  | .lua currentline short_src => ⟨currentline, short_src⟩
  | .c _ => ⟨-1, "[C]"⟩

def Frame.isbarrier : Frame → Bool
  | .c fn => fn.isbarrier
  | .lua .. => false

/-- A frame with a source line. -/
def Frame.hasline (f : Frame) : Bool := decide (f.getinfo.currentline > 0)

structure Interp where
  errdepth : Nat
  update_errdepth : Bool
  ar : Debug

/-! ## The callback -/

/-- The loop of `pllua_error_callback_location`, on the frames from `level` on. -/
def location_loop : List Frame → Nat → Bool → Interp → Interp
  | [], _, found, interp =>
    let interp := if found then interp else { interp with ar := { interp.ar with currentline := 0 } }
    if interp.update_errdepth then { interp with errdepth := 0 } else interp
  | f :: rest, level, found, interp =>
    let interp := if found then interp else { interp with ar := f.getinfo }
    if f.isbarrier then
      -- at the bottom the walk is over, else the next scan starts below the barrier
      if interp.update_errdepth then
        { interp with errdepth := if rest.isEmpty then 0 else level + 1 }
      else interp
    else location_loop rest (level + 1) (found || f.hasline) interp

/-- `pllua_error_callback_location`, which is itself the frame on top of the stack. -/
def pllua_error_callback_location (stack : List Frame) (interp : Interp) : Interp :=
  let level := if interp.update_errdepth then interp.errdepth else 1
  location_loop ((.c .other :: stack).drop level) level false interp

/-- A line of the context: the source and the line. -/
abbrev Report := Option (String × Int)

/-- `pllua_error_callback`: the stack is the one of the thread, if the activation runs
a set-returning function on it, else the shared one. -/
def pllua_error_callback (shared : List Frame) (thread : Option (List Frame)) (interp : Interp) :
    Report × Interp :=
  let interp := pllua_error_callback_location (thread.getD shared)
    { interp with update_errdepth := thread.isNone }
  (if interp.ar.currentline > 0 then some (interp.ar.short_src, interp.ar.currentline) else none,
    interp)

/-! ## Nested activations -/

/-- An activation: its frames, on the shared stack or on the thread of a set-returning
function, and the barrier that it has on the shared stack in either case. -/
structure Activation where
  onstack : Bool
  frames : List Frame
  barrier : CFunction
  frames_plain : ∀ f ∈ frames, f.isbarrier = false
  isbarrier : barrier.isbarrier = true

/-- The frames of an activation on the shared stack, above its barrier. -/
def Activation.shared (a : Activation) : List Frame := if a.onstack then [] else a.frames

def Activation.thread (a : Activation) : Option (List Frame) :=
  if a.onstack then some a.frames else none

/-- The shared stack, for activations from the innermost to the outermost. -/
def sharedstack (acts : List Activation) : List Frame :=
  acts.flatMap fun a => a.shared ++ [.c a.barrier]

/-- The threads of the registered callbacks. An activation that has left its protected
call, to report the error of it, has a callback and no frames. -/
def callbacks (left : Bool) (acts : List Activation) : List (Option (List Frame)) :=
  (if left then [none] else []) ++ acts.map Activation.thread

/-- PostgreSQL calls one callback after another. -/
def walk (shared : List Frame) : List (Option (List Frame)) → Interp → List Report × Interp
  | [], interp => ([], interp)
  | thread :: cbs, interp =>
    let (report, interp) := pllua_error_callback shared thread interp
    let (reports, interp) := walk shared cbs interp
    (report :: reports, interp)

/-- The innermost source line. -/
def innermost (frames : List Frame) : Report :=
  (frames.find? Frame.hasline).map fun f => (f.getinfo.short_src, f.getinfo.currentline)

/-- Each activation reports its own innermost line, and `errdepth` is 0 again. -/
def Traversed (left : Bool) (acts : List Activation) (interp : Interp) : Prop :=
  (walk (sharedstack acts) (callbacks left acts) interp).1 =
      (if left then [none] else []) ++ acts.map (fun a => innermost a.frames) ∧
    (walk (sharedstack acts) (callbacks left acts) interp).2.errdepth = 0

/-- The condition. All activations are on the shared stack, or all are on threads. An
activation that has left needs one activation on a thread, to make up for the barrier
it lacks, and no source line in between; or it is alone, or the only other one has no
source line. -/
def Alike (left : Bool) (acts : List Activation) : Prop :=
  match left with
  | false => (∀ a ∈ acts, a.onstack = false) ∨ ∀ a ∈ acts, a.onstack = true
  | true =>
    acts = [] ∨ (∃ a, acts = [a] ∧ a.onstack = false ∧ innermost a.frames = none) ∨
      ∃ above s below, acts = above ++ s :: below ∧ s.onstack = true ∧
        (∀ a ∈ above, a.onstack = false ∧ innermost a.frames = none) ∧
        ∀ a ∈ below, a.onstack = false

/-! ## One callback -/

/-- What the callback reports of what it found. -/
def Interp.report (interp : Interp) : Report :=
  if interp.ar.currentline > 0 then some (interp.ar.short_src, interp.ar.currentline) else none

/-- Once a line is found, the scan only counts. -/
theorem loop_found (fs : List Frame) (level : Nat) (interp : Interp) :
    (location_loop fs level true interp).ar = interp.ar := by
  induction fs generalizing level with
  | nil =>
    simp only [location_loop, if_true]
    split
    · rfl
    · rfl
  | cons f fs ih =>
    simp only [location_loop, if_true, Bool.true_or]
    split
    · split
      · rfl
      · rfl
    · exact ih (level + 1)

theorem getinfo_barrier {f : Frame} (h : f.isbarrier = true) : f.hasline = false := by
  cases f with
  | lua => cases h
  | c fn => rfl

/-- The scan of frames without a barrier, and of what ends them. -/
theorem loop_report {fs rest : List Frame} (hfs : ∀ f ∈ fs, f.isbarrier = false)
    (hrest : ∀ f ∈ rest.head?, f.isbarrier = true) (level : Nat) (interp : Interp) :
    (location_loop (fs ++ rest) level false interp).report = innermost fs := by
  induction fs generalizing level interp with
  | nil =>
    cases rest with
    | nil =>
      simp only [List.append_nil, location_loop, Bool.false_eq_true, if_false]
      split
      · rfl
      · rfl
    | cons f rest =>
      have hf := hrest f rfl
      have hline := getinfo_barrier hf
      simp only [List.nil_append, location_loop, Bool.false_eq_true, if_false, hf, if_true]
      split
      · simpa [Interp.report, innermost, Frame.hasline] using hline
      · simpa [Interp.report, innermost, Frame.hasline] using hline
  | cons f fs ih =>
    have hf := hfs f List.mem_cons_self
    simp only [List.cons_append, location_loop, hf, Bool.false_eq_true, if_false, Bool.false_or]
    by_cases hline : f.hasline = true
    · rw [hline, Interp.report, loop_found]
      simp [innermost, hline]
      simpa [Frame.hasline] using hline
    · rw [Bool.not_eq_true] at hline
      rw [hline, ih (fun g hg => hfs g (List.mem_cons_of_mem f hg))]
      simp [innermost, hline]

/-- The scan of an activation leaves the counter below its barrier. -/
theorem loop_errdepth {fs rest : List Frame} {f : Frame} (hfs : ∀ f ∈ fs, f.isbarrier = false)
    (hf : f.isbarrier = true) (level : Nat) (found : Bool) {interp : Interp}
    (hu : interp.update_errdepth = true) :
    (location_loop (fs ++ f :: rest) level found interp).errdepth =
      if rest.isEmpty then 0 else level + fs.length + 1 := by
  induction fs generalizing level found interp with
  | nil =>
    cases found with
    | false => simp [location_loop, hf, hu]
    | true => simp [location_loop, hf, hu]
  | cons g fs ih =>
    have hg := hfs g List.mem_cons_self
    have hrest := fun h hh => hfs h (List.mem_cons_of_mem g hh)
    simp only [List.cons_append, location_loop, hg, Bool.false_eq_true, if_false]
    rw [ih hrest (level + 1) _ (by split <;> exact hu), List.length_cons]
    congr 1
    omega

/-- A scan that is not to count leaves the counter alone. -/
theorem loop_errdepth_same (fs : List Frame) (level : Nat) (found : Bool) {interp : Interp}
    (hu : interp.update_errdepth = false) :
    (location_loop fs level found interp).errdepth = interp.errdepth := by
  induction fs generalizing level found interp with
  | nil =>
    cases found with
    | false => simp [location_loop, hu]
    | true => simp [location_loop, hu]
  | cons g fs ih =>
    simp only [location_loop]
    split
    · cases found with
      | false => simp [hu]
      | true => simp [hu]
    · rw [ih (level + 1) _ (by split <;> exact hu)]
      split
      · rfl
      · rfl

/-- The frame of the callback itself. -/
def locationframe : Frame := .c .other

theorem innermost_location (fs : List Frame) :
    innermost (locationframe :: fs) = innermost fs := by
  simp [innermost, locationframe, Frame.hasline, Frame.getinfo]

theorem plain_location {fs : List Frame} (h : ∀ f ∈ fs, f.isbarrier = false) :
    ∀ f ∈ locationframe :: fs, f.isbarrier = false := by
  intro f hf
  rcases List.mem_cons.mp hf with rfl | hf
  · rfl
  · exact h f hf

/-- An activation on a thread of its own. -/
theorem callback_thread (shared : List Frame) {frames : List Frame}
    (h : ∀ f ∈ frames, f.isbarrier = false) (interp : Interp) :
    (pllua_error_callback shared (some frames) interp).1 = innermost frames ∧
      (pllua_error_callback shared (some frames) interp).2.errdepth = interp.errdepth := by
  unfold pllua_error_callback pllua_error_callback_location
  simp only [Option.getD_some, Option.isNone_some, Bool.false_eq_true, if_false,
    List.drop_one, List.tail_cons]
  constructor
  · have hhead : ∀ f ∈ ([] : List Frame).head?, f.isbarrier = true := by simp
    have hr := loop_report h hhead 1 { interp with update_errdepth := false }
    rw [List.append_nil] at hr
    exact hr
  · exact loop_errdepth_same frames 1 false rfl

/-! ## The counter -/

/-- How far down the shared stack the counter stands below the first `n` barriers. -/
def depth (acts : List Activation) (n : Nat) : Nat :=
  if n = 0 then 0 else 1 + (sharedstack (acts.take n)).length

theorem shared_plain (a : Activation) : ∀ f ∈ a.shared, f.isbarrier = false := by
  intro f hf
  unfold Activation.shared at hf
  split at hf
  · cases hf
  · exact a.frames_plain f hf

theorem sharedstack_append (xs ys : List Activation) :
    sharedstack (xs ++ ys) = sharedstack xs ++ sharedstack ys := by
  simp [sharedstack]

theorem sharedstack_cons (a : Activation) (acts : List Activation) :
    sharedstack (a :: acts) = a.shared ++ .c a.barrier :: sharedstack acts := by
  simp [sharedstack]

theorem sharedstack_isEmpty (acts : List Activation) :
    (sharedstack acts).isEmpty = acts.isEmpty := by
  cases acts with
  | nil => rfl
  | cons a acts => simp [sharedstack_cons]

/-- A callback that counts: it looks at the frames down to the next barrier. -/
theorem callback_scan {shared fs rest : List Frame} {f : Frame}
    (hfs : ∀ f ∈ fs, f.isbarrier = false) (hf : f.isbarrier = true) {interp : Interp}
    (h : (locationframe :: shared).drop interp.errdepth = fs ++ f :: rest) :
    (pllua_error_callback shared none interp).1 = innermost fs ∧
      (pllua_error_callback shared none interp).2.errdepth =
        if rest.isEmpty then 0 else interp.errdepth + fs.length + 1 := by
  have hloop : pllua_error_callback_location shared { interp with update_errdepth := true } =
      location_loop (fs ++ f :: rest) interp.errdepth false
        { interp with update_errdepth := true } := by
    rw [← h]
    rfl
  unfold pllua_error_callback
  simp only [Option.getD_none, Option.isNone_none]
  rw [hloop]
  constructor
  · have hhead : ∀ g ∈ (f :: rest).head?, g.isbarrier = true := by
      intro g hg
      cases hg
      exact hf
    exact loop_report hfs hhead interp.errdepth { interp with update_errdepth := true }
  · exact loop_errdepth hfs hf interp.errdepth false rfl

/-- From below `above` a callback looks at the frames of the next activation. -/
theorem callback_shared (above below : List Activation) (a : Activation) {interp : Interp}
    (h : interp.errdepth = depth (above ++ a :: below) above.length) :
    (pllua_error_callback (sharedstack (above ++ a :: below)) none interp).1 =
        innermost a.shared ∧
      (pllua_error_callback (sharedstack (above ++ a :: below)) none interp).2.errdepth =
        if below.isEmpty then 0 else depth (above ++ a :: below) (above.length + 1) := by
  have hbar : (Frame.c a.barrier).isbarrier = true := a.isbarrier
  have hnext : depth (above ++ a :: below) (above.length + 1) =
      1 + (sharedstack above).length + a.shared.length + 1 := by
    have htake : (above ++ a :: below).take (above.length + 1) = above ++ [a] := by
      rw [List.take_append, List.take_of_length_le (Nat.le_succ _), Nat.add_sub_cancel_left]
      rfl
    rw [depth, if_neg (by omega), htake, sharedstack_append, sharedstack_cons]
    simp [sharedstack]
    omega
  rw [hnext, ← sharedstack_isEmpty below]
  by_cases habove : above = []
  · -- the scan starts at the callback itself
    have hzero : interp.errdepth = 0 := by
      rw [h, habove]
      rfl
    have hdrop : (locationframe :: sharedstack (above ++ a :: below)).drop interp.errdepth =
        (locationframe :: a.shared) ++ .c a.barrier :: sharedstack below := by
      rw [hzero, habove, List.nil_append, sharedstack_cons]
      rfl
    obtain ⟨h1, h2⟩ := callback_scan (plain_location (shared_plain a)) hbar hdrop
    rw [innermost_location] at h1
    refine ⟨h1, ?_⟩
    rw [h2, hzero, habove, List.length_cons]
    congr 1
    simp [sharedstack]
    omega
  · have hdepth : interp.errdepth = 1 + (sharedstack above).length := by
      rw [h, depth, if_neg (by simpa using habove)]
      simp
    have hdrop : (locationframe :: sharedstack (above ++ a :: below)).drop interp.errdepth =
        a.shared ++ .c a.barrier :: sharedstack below := by
      rw [hdepth, sharedstack_append, Nat.add_comm 1, List.drop_succ_cons, List.drop_left,
        sharedstack_cons]
    obtain ⟨h1, h2⟩ := callback_scan (shared_plain a) hbar hdrop
    exact ⟨h1, by rw [h2, hdepth]⟩

/-- Without an activation the shared stack is empty. -/
theorem callback_empty {interp : Interp} (h : interp.errdepth = 0) :
    (pllua_error_callback (sharedstack []) none interp).1 = none ∧
      (pllua_error_callback (sharedstack []) none interp).2.errdepth = 0 := by
  unfold pllua_error_callback pllua_error_callback_location
  simp [h, sharedstack, location_loop, Frame.getinfo, Frame.isbarrier, CFunction.isbarrier,
    Frame.hasline]

/-! ## The walk -/

/-- Below the last barrier the counter starts again. -/
def wrap (acts : List Activation) (n : Nat) : Nat := if n < acts.length then n else 0

/-- The walk, with the number of barriers above the counter in place of the counter. -/
def tour (acts : List Activation) : List (Option (List Frame)) → Nat → List Report × Nat
  | [], n => ([], n)
  | some frames :: cbs, n => (innermost frames :: (tour acts cbs n).1, (tour acts cbs n).2)
  | none :: cbs, n =>
    ((acts[n]?.bind fun a => innermost a.shared) :: (tour acts cbs (wrap acts (n + 1))).1,
      (tour acts cbs (wrap acts (n + 1))).2)

theorem walk_fst (shared : List Frame) (cb : Option (List Frame))
    (cbs : List (Option (List Frame))) (interp : Interp) :
    (walk shared (cb :: cbs) interp).1 = (pllua_error_callback shared cb interp).1 ::
      (walk shared cbs (pllua_error_callback shared cb interp).2).1 := rfl

theorem walk_snd (shared : List Frame) (cb : Option (List Frame))
    (cbs : List (Option (List Frame))) (interp : Interp) :
    (walk shared (cb :: cbs) interp).2 =
      (walk shared cbs (pllua_error_callback shared cb interp).2).2 := rfl

/-- The invariant of the walk: the counter stands below as many barriers as the tour says. -/
theorem walk_tour (acts : List Activation) {cbs : List (Option (List Frame))}
    (hcbs : ∀ frames, some frames ∈ cbs → ∀ f ∈ frames, f.isbarrier = false) {interp : Interp}
    {n : Nat} (hn : n < acts.length ∨ n = 0) (h : interp.errdepth = depth acts n) :
    (walk (sharedstack acts) cbs interp).1 = (tour acts cbs n).1 ∧
      (walk (sharedstack acts) cbs interp).2.errdepth = depth acts (tour acts cbs n).2 := by
  induction cbs generalizing interp n with
  | nil => exact ⟨rfl, h⟩
  | cons cb cbs ih =>
    have hrest := fun frames hf => hcbs frames (List.mem_cons_of_mem cb hf)
    cases cb with
    | some frames =>
      obtain ⟨h1, h2⟩ := callback_thread (sharedstack acts) (hcbs frames List.mem_cons_self) interp
      obtain ⟨h3, h4⟩ := ih hrest hn (h2.trans h)
      rw [walk_fst, walk_snd, h1, h3, h4, tour]
      exact ⟨rfl, rfl⟩
    | none =>
      by_cases hlt : n < acts.length
      · have hsplit : acts = acts.take n ++ acts[n] :: acts.drop (n + 1) := by
          rw [List.getElem_cons_drop, List.take_append_drop]
        have hlen : (acts.take n).length = n := by simp; omega
        have hcb := @callback_shared (acts.take n) (acts.drop (n + 1)) acts[n] interp
        rw [← hsplit, hlen] at hcb
        obtain ⟨h1, h2⟩ := hcb h
        by_cases hnext : n + 1 < acts.length
        · have hd : (acts.drop (n + 1)).isEmpty = false := by simp; omega
          rw [hd] at h2
          obtain ⟨h3, h4⟩ := ih hrest (Or.inl hnext) h2
          rw [walk_fst, walk_snd, h1, h3, h4, tour, wrap, if_pos hnext]
          simp [hlt]
        · have hd : (acts.drop (n + 1)).isEmpty = true := by simp; omega
          rw [hd] at h2
          obtain ⟨h3, h4⟩ := ih hrest (Or.inr rfl) h2
          rw [walk_fst, walk_snd, h1, h3, h4, tour, wrap, if_neg hnext]
          simp [hlt]
      · have hzero := hn.resolve_left hlt
        have hnil : acts = [] := List.length_eq_zero_iff.mp (by omega)
        subst hnil hzero
        obtain ⟨h1, h2⟩ := callback_empty h
        obtain ⟨h3, h4⟩ := ih hrest (Or.inr rfl) h2
        rw [walk_fst, walk_snd, h1, h3, h4, tour]
        simp [wrap]

/-- As long as barriers are left, each callback that counts passes one. -/
theorem tour_count (acts : List Activation) {cbs : List (Option (List Frame))} {n : Nat}
    (h : n + cbs.countP (fun cb => cb.isNone) < acts.length) :
    (tour acts cbs n).2 = n + cbs.countP fun cb => cb.isNone := by
  induction cbs generalizing n with
  | nil => rfl
  | cons cb cbs ih =>
    cases cb with
    | some frames =>
      rw [List.countP_cons_of_neg (by simp)] at h ⊢
      exact ih h
    | none =>
      rw [List.countP_cons_of_pos (by simp)] at h ⊢
      have hwrap : wrap acts (n + 1) = n + 1 := if_pos (by omega)
      rw [tour, hwrap, ih (by omega)]
      omega

/-- Callbacks that count see the activations `post`, one after another. -/
theorem tour_shared {acts pre post rest : List Activation} (h : acts = pre ++ post ++ rest)
    (cbs : List (Option (List Frame))) :
    tour acts (post.map (fun _ => none) ++ cbs) (wrap acts pre.length) =
      (post.map (fun a => innermost a.shared) ++
          (tour acts cbs (wrap acts (pre.length + post.length))).1,
        (tour acts cbs (wrap acts (pre.length + post.length))).2) := by
  induction post generalizing pre with
  | nil => rfl
  | cons a post ih =>
    have hlt : pre.length < acts.length := by
      rw [h]
      simp
    have hget : acts[pre.length]? = some a := by
      rw [h, List.append_assoc, List.getElem?_append_right (Nat.le_refl _), Nat.sub_self]
      rfl
    have hwrap : wrap acts pre.length = pre.length := if_pos hlt
    have hrec := @ih (pre ++ [a]) (by simpa using h)
    rw [List.length_append, List.length_singleton] at hrec
    rw [hwrap, List.map_cons, List.cons_append, tour, hget, hrec, List.length_cons,
      Nat.add_right_comm, Nat.add_assoc]
    rfl

/-- Callbacks of threads see their own frames and do not count. -/
theorem tour_threads (acts : List Activation) {post : List Activation}
    (h : ∀ a ∈ post, a.onstack = true) (n : Nat) :
    tour acts (post.map Activation.thread) n = (post.map (fun a => innermost a.frames), n) := by
  induction post with
  | nil => rfl
  | cons a post ih =>
    have ha : a.thread = some a.frames := if_pos (h a List.mem_cons_self)
    rw [List.map_cons, ha, tour, ih fun b hb => h b (List.mem_cons_of_mem a hb)]
    rfl

theorem depth_eq_zero {acts : List Activation} {n : Nat} : depth acts n = 0 ↔ n = 0 := by
  unfold depth
  split
  · simp_all
  · omega

/-! ## Activations of one kind -/

theorem map_thread_ordinary {acts : List Activation} (h : ∀ a ∈ acts, a.onstack = false) :
    acts.map Activation.thread = acts.map fun _ => none := by
  apply List.map_congr_left
  intro a ha
  simp [Activation.thread, h a ha]

theorem innermost_ordinary {acts : List Activation} (h : ∀ a ∈ acts, a.onstack = false) :
    (acts.map fun a => innermost a.shared) = acts.map fun a => innermost a.frames := by
  apply List.map_congr_left
  intro a ha
  simp [Activation.shared, h a ha]

theorem wrap_length (acts : List Activation) : wrap acts acts.length = 0 :=
  if_neg (Nat.lt_irrefl _)

/-- Ordinary activations: the callbacks come to the bottom together with the counter. -/
theorem tour_ordinary {acts : List Activation} (h : ∀ a ∈ acts, a.onstack = false)
    (cbs : List (Option (List Frame))) :
    tour acts (acts.map Activation.thread ++ cbs) 0 =
      (acts.map (fun a => innermost a.frames) ++ (tour acts cbs 0).1, (tour acts cbs 0).2) := by
  have hshared := @tour_shared acts [] acts [] (by simp) cbs
  have hzero : wrap acts 0 = 0 := by simp [wrap]
  rw [List.length_nil, Nat.zero_add, wrap_length, hzero] at hshared
  rw [map_thread_ordinary h, ← innermost_ordinary h]
  exact hshared

/-- The number of callbacks that count. -/
theorem countP_thread (acts : List Activation) :
    (acts.map Activation.thread).countP (fun cb => cb.isNone) =
      acts.countP fun a => !a.onstack := by
  rw [List.countP_map]
  apply List.countP_congr
  intro a _
  cases h : a.onstack with
  | false => simp [Activation.thread, h]
  | true => simp [Activation.thread, h]

theorem count_kinds (acts : List Activation) :
    acts.length = (acts.countP fun a => a.onstack) + acts.countP fun a => !a.onstack := by
  have h := @List.length_eq_countP_add_countP Activation (fun a => a.onstack) acts
  simpa using h

theorem all_ordinary {acts : List Activation} (h : acts.countP (fun a => a.onstack) = 0) :
    ∀ a ∈ acts, a.onstack = false := by
  intro a ha
  have hn := List.countP_eq_zero.mp h a ha
  simpa using hn

theorem all_threads {acts : List Activation} (h : acts.countP (fun a => !a.onstack) = 0) :
    ∀ a ∈ acts, a.onstack = true := by
  intro a ha
  have hn := List.countP_eq_zero.mp h a ha
  simpa using hn

/-- One activation on a thread, with ordinary ones around it. -/
theorem one_thread {acts : List Activation} (h : acts.countP (fun a => a.onstack) = 1) :
    ∃ above s below, acts = above ++ s :: below ∧ s.onstack = true ∧
      (∀ a ∈ above, a.onstack = false) ∧ ∀ a ∈ below, a.onstack = false := by
  have hpos : 0 < acts.countP fun a => a.onstack := by omega
  obtain ⟨s, hs, hon⟩ := List.countP_pos_iff.mp hpos
  obtain ⟨above, below, hsplit⟩ := List.append_of_mem hs
  have hcons : (s :: below).countP (fun a => a.onstack) =
      below.countP (fun a => a.onstack) + 1 := List.countP_cons_of_pos hon
  rw [hsplit, List.countP_append, hcons] at h
  have hzero : above.countP (fun a => a.onstack) = 0 ∧ below.countP (fun a => a.onstack) = 0 := by
    omega
  exact ⟨above, s, below, hsplit, hon, all_ordinary hzero.1, all_ordinary hzero.2⟩

/-! ## The traversal -/

theorem traversed_iff_tour (left : Bool) (acts : List Activation) {interp : Interp}
    (h : interp.errdepth = 0) :
    Traversed left acts interp ↔
      (tour acts (callbacks left acts) 0).1 =
          (if left then [none] else []) ++ acts.map (fun a => innermost a.frames) ∧
        (tour acts (callbacks left acts) 0).2 = 0 := by
  have hcbs : ∀ frames, some frames ∈ callbacks left acts → ∀ f ∈ frames, f.isbarrier = false := by
    intro frames hframes
    have hmap : some frames ∈ acts.map Activation.thread := by
      rcases List.mem_append.mp hframes with hl | hm
      · split at hl
        · simp at hl
        · cases hl
      · exact hm
    obtain ⟨a, -, ha⟩ := List.mem_map.mp hmap
    unfold Activation.thread at ha
    split at ha
    · cases ha
      exact a.frames_plain
    · cases ha
  obtain ⟨h1, h2⟩ := walk_tour acts hcbs (Or.inr rfl : 0 < acts.length ∨ 0 = 0) h
  unfold Traversed
  rw [h1, h2, depth_eq_zero]

/-- All activations are in their protected calls. -/
theorem traversed_inside (acts : List Activation) {interp : Interp} (h : interp.errdepth = 0) :
    Traversed false acts interp ↔ Alike false acts := by
  rw [traversed_iff_tour false acts h]
  constructor
  · rintro ⟨-, hzero⟩
    have hkinds := count_kinds acts
    by_cases hshared : acts.countP (fun a => !a.onstack) = 0
    · exact Or.inr (all_threads hshared)
    · by_cases hthreads : acts.countP (fun a => a.onstack) = 0
      · exact Or.inl (all_ordinary hthreads)
      · -- the walk ends above the last barriers
        have hcount := @tour_count acts (acts.map Activation.thread) 0
        rw [countP_thread] at hcount
        have hend := hcount (by omega)
        have hfinal : (tour acts (acts.map Activation.thread) 0).2 = 0 := hzero
        omega
  · rintro (hshared | hthreads)
    · have ht := tour_ordinary hshared []
      rw [List.append_nil] at ht
      have hcbs : callbacks false acts = acts.map Activation.thread := rfl
      rw [hcbs, ht]
      simp [tour]
    · have hcbs : callbacks false acts = acts.map Activation.thread := rfl
      rw [hcbs, tour_threads acts hthreads]
      simp

/-- The rows of callbacks that start one line early. -/
theorem cons_eq_append_singleton {c : Report} {l : List Report} :
    l ++ [c] = c :: l ↔ ∀ x ∈ l, x = c := by
  induction l with
  | nil => simp
  | cons x l ih =>
    rw [List.cons_append, List.cons.injEq, List.forall_mem_cons]
    constructor
    · rintro ⟨rfl, h⟩
      exact ⟨rfl, ih.mp h⟩
    · rintro ⟨rfl, h⟩
      exact ⟨rfl, ih.mpr h⟩

/-- The callback of the activation that left passes the barrier of the next one. -/
theorem tour_one_thread {above below : List Activation} {s : Activation}
    (habove : ∀ a ∈ above, a.onstack = false) (hs : s.onstack = true)
    (hbelow : ∀ a ∈ below, a.onstack = false) :
    tour (above ++ s :: below) (callbacks true (above ++ s :: below)) 0 =
      (above.map (fun a => innermost a.frames) ++ none :: innermost s.frames ::
        below.map fun a => innermost a.frames, 0) := by
  have hthread : s.thread = some s.frames := if_pos hs
  have hempty : s.shared = [] := if_pos hs
  have hcbs : callbacks true (above ++ s :: below) =
      (above ++ [s]).map (fun _ => none) ++ some s.frames :: below.map fun _ => none := by
    unfold callbacks
    rw [List.map_append, List.map_cons, map_thread_ordinary habove, map_thread_ordinary hbelow,
      hthread]
    simp only [List.map_const', List.length_append, List.length_singleton, if_true,
      List.replicate_succ]
    simp
  have h1 := @tour_shared (above ++ s :: below) [] (above ++ [s]) below (by simp)
    (some s.frames :: below.map fun _ => none)
  have h2 := @tour_shared (above ++ s :: below) (above ++ [s]) below [] (by simp) []
  have hzero : wrap (above ++ s :: below) 0 = 0 := by simp [wrap]
  have hlen : (above ++ [s]).length + below.length = (above ++ s :: below).length := by
    simp
    omega
  rw [List.append_nil, hlen, wrap_length] at h2
  rw [List.length_nil, Nat.zero_add, hzero] at h1
  rw [hcbs, h1, tour, h2, List.map_append, innermost_ordinary habove, innermost_ordinary hbelow]
  simp [tour, hempty, innermost]

/-- The innermost activation has left its protected call. -/
theorem traversed_left (acts : List Activation) {interp : Interp} (h : interp.errdepth = 0) :
    Traversed true acts interp ↔ Alike true acts := by
  rw [traversed_iff_tour true acts h]
  have hkinds := count_kinds acts
  constructor
  · rintro ⟨hreports, hend⟩
    have hcases : acts.countP (fun a => a.onstack) = 0 ∨ acts.countP (fun a => a.onstack) = 1 ∨
        2 ≤ acts.countP fun a => a.onstack := by omega
    rcases hcases with hnone | hone | hmore
    · -- the last callback starts again at the top
      have hord := all_ordinary hnone
      have hcbs : callbacks true acts = acts.map Activation.thread ++ [none] := by
        unfold callbacks
        rw [map_thread_ordinary hord, List.map_const']
        exact List.replicate_succ'
      rw [hcbs, tour_ordinary hord] at hreports hend
      cases acts with
      | nil => exact Or.inl rfl
      | cons a rest =>
        cases rest with
        | nil =>
          have ha := hord a List.mem_cons_self
          right
          left
          refine ⟨a, rfl, ha, ?_⟩
          have hfirst := (List.cons.inj hreports).1
          exact hfirst
        | cons b rest =>
          simp [tour, wrap] at hend
    · obtain ⟨above, s, below, rfl, hs, habove, hbelow⟩ := one_thread hone
      rw [tour_one_thread habove hs hbelow] at hreports
      have hlines : above.map (fun a => innermost a.frames) ++ [none] =
          none :: above.map fun a => innermost a.frames := by
        have hlen : (above.map (fun a : Activation => innermost a.frames) ++ [none]).length =
            (none :: above.map fun a : Activation => innermost a.frames).length := by simp
        have happ : (above.map (fun a => innermost a.frames) ++ [none]) ++
              (innermost s.frames :: below.map fun a => innermost a.frames) =
            (none :: above.map fun a : Activation => innermost a.frames) ++
              (innermost s.frames :: below.map fun a => innermost a.frames) := by
          simpa using hreports
        exact (List.append_inj happ hlen).1
      refine Or.inr (Or.inr ⟨above, s, below, rfl, hs, ?_, hbelow⟩)
      intro a ha
      have hall := cons_eq_append_singleton.mp hlines
      exact ⟨habove a ha, hall _ (List.mem_map_of_mem ha)⟩
    · -- two barriers are not passed
      have hcount := @tour_count acts (callbacks true acts) 0
      have hnones : (callbacks true acts).countP (fun cb => cb.isNone) =
          acts.countP (fun a => !a.onstack) + 1 := by
        unfold callbacks
        rw [List.countP_append, countP_thread]
        exact Nat.add_comm _ _
      rw [hnones] at hcount
      have hfinal := hcount (by omega)
      omega
  · rintro (rfl | ⟨a, rfl, ha, hline⟩ | ⟨above, s, below, rfl, hs, habove, hbelow⟩)
    · exact ⟨rfl, rfl⟩
    · have hthread : a.thread = none := by simp [Activation.thread, ha]
      have hshared : a.shared = a.frames := by simp [Activation.shared, ha]
      simp [callbacks, hthread, tour, wrap, hshared, hline]
    · rw [tour_one_thread (fun a h => (habove a h).1) hs hbelow]
      have hlines : above.map (fun a => innermost a.frames) ++ [none] =
          none :: above.map fun a => innermost a.frames := by
        apply cons_eq_append_singleton.mpr
        intro x hx
        obtain ⟨a, ha, rfl⟩ := List.mem_map.mp hx
        exact (habove a ha).2
      refine ⟨?_, rfl⟩
      have happ : (above.map (fun a => innermost a.frames) ++ [none]) ++
            (innermost s.frames :: below.map fun a => innermost a.frames) =
          (none :: above.map fun a : Activation => innermost a.frames) ++
            (innermost s.frames :: below.map fun a => innermost a.frames) := by
        rw [hlines]
      simpa using happ

/-- Each callback reports the innermost line of its own activation and the counter comes
back to 0, exactly if the activations are alike. -/
theorem each_activation_reports_its_own_line_if_the_activations_are_alike (left : Bool)
    (acts : List Activation) (interp : Interp) (h : interp.errdepth = 0) :
    Traversed left acts interp ↔ Alike left acts := by
  cases left with
  | false => exact traversed_inside acts h
  | true => exact traversed_left acts h

/-- Of a call: line 7 of a function. -/
def ordinary_call : Activation where
  onstack := false
  frames := [.lua 7 "f"]
  barrier := .pllua_call_function
  frames_plain := by decide
  isbarrier := rfl

/-- Line 3 of a set-returning function, which waits for its second row. -/
def srf_call : Activation where
  onstack := true
  frames := [.c .other, .lua 3 "srf"]
  barrier := .pllua_resume_function
  frames_plain := by decide
  isbarrier := rfl

/-- Two calls, one inside the other. -/
theorem calls_in_calls_are_traversed :
    (⟨0, true, ⟨0, ""⟩⟩ : Interp).errdepth = 0 ∧
      Traversed false [ordinary_call, ordinary_call] ⟨0, true, ⟨0, ""⟩⟩ :=
  ⟨rfl, (each_activation_reports_its_own_line_if_the_activations_are_alike false
    [ordinary_call, ordinary_call] ⟨0, true, ⟨0, ""⟩⟩ rfl).mpr (Or.inl (by decide))⟩

/-- A call from which a set-returning function is resumed: its line is lost, and the next
report starts below its frames. -/
theorem a_call_below_a_resumed_srf_is_not_reported :
    (walk (sharedstack [srf_call, ordinary_call]) (callbacks false [srf_call, ordinary_call])
        ⟨0, true, ⟨0, ""⟩⟩).1 = [some ("srf", 3), none] ∧
      (walk (sharedstack [srf_call, ordinary_call]) (callbacks false [srf_call, ordinary_call])
        ⟨0, true, ⟨0, ""⟩⟩).2.errdepth = 2 ∧
      ¬ Traversed false [srf_call, ordinary_call] ⟨0, true, ⟨0, ""⟩⟩ := by
  refine ⟨by decide, by decide, ?_⟩
  rintro ⟨-, hend⟩
  exact absurd hend (by decide)

end pllua.elog
