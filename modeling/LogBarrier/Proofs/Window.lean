import LogBarrier.Proofs.Curvature
import LogBarrier.Proofs.Starts
import Mathlib.Data.List.DropRight

/-!
# The newest pairs

After any requests a limited memory holds the newest of the pairs that had enough curvature and were
offered since the last reset, as many as it has room for. What it applies depends on these pairs
only. The requests may reach it directly or through references. The pairs may as well be kept in
three queues that are evicted and extended each on its own: they stay in step.
-/

namespace LogBarrier

open Scalar Exact

variable {α : Type} {n : ℕ}

/-- A request that may change a secant. -/
inductive Request (α : Type)
  | offer {n : ℕ} (s y : Vector α n)
  | reset
  /-- The request, made through a reference to the secant. -/
  | lent (r : Request α)

namespace Request

/-- The secant after a request. -/
def serve : Request α → {τ : Type} → [Secant α τ] → τ → τ
  | .offer s y, _, _, h => Secant.update h s y
  | .reset, _, _, h => Secant.reset h
  | .lent r, _, _, h => (r.serve (Lent.mk h)).owned

def IsReset : Request α → Bool
  | .offer _ _ => false
  | .reset => true
  | .lent r => r.IsReset

/-- A request through a reference is the request itself. -/
theorem serve_lent (r : Request α) {τ : Type} [Secant α τ] (h : τ) :
    r.lent.serve h = r.serve h := by
  induction r generalizing τ with
  | offer s y => rfl
  | reset => rfl
  | lent r ih => exact congrArg Lent.owned (ih (Lent.mk h))

end Request

namespace LimitedMemory

/-- The pairs left by an eviction, and the new one, are the newest of all. -/
theorem push_rtake {h : LimitedMemory α} {ps : List ((n : ℕ) × Pair α n)}
    (hw : h.window = ps.rtake h.memory) (p : Pair α n) :
    (h.push p).window = (ps ++ [(⟨n, p⟩ : (n : ℕ) × Pair α n)]).rtake h.memory := by
  obtain ⟨k, hk⟩ := Nat.exists_eq_succ_of_ne_zero h.memory_pos.ne'
  have hroom : h.room = ps.rtake k := by
    unfold room
    rw [hw, hk]
    unfold List.rtake
    rw [List.length_drop, List.tail_drop]
    split
    · rename_i hfull
      congr 1
      omega
    · rename_i hfree
      congr 1
      omega
  rw [window_push, hroom, hk, List.rtake_concat_succ]

end LimitedMemory

variable [Scalar α]

/-! ## Curvature -/

/-- The curvature of a pair is finite and large enough. -/
def Pair.Suffices (s y : Vector α n) : Prop :=
  IsFinite (dot s y) ∧ Pair.curvatureTolerance * norm s * norm y < dot s y

/-- The curvature of a pair, if it is finite, is not compared with `nan`. -/
def Pair.Comparable (s y : Vector α n) : Prop :=
  IsFinite (dot s y) → IsNumber (Pair.curvatureTolerance * norm s * norm y)

instance (s y : Vector α n) : Decidable (Pair.Suffices s y) :=
  inferInstanceAs (Decidable (_ ∧ _))

theorem Pair.of?_eq_ite [OrderedScalar α] {s y : Vector α n} (h : Pair.Comparable s y) :
    Pair.of? s y = if Pair.Suffices s y then some ⟨s, y, 1 / dot s y⟩ else none := by
  unfold Pair.of?
  dsimp only
  by_cases hfinite : IsFinite (dot s y)
  · by_cases hle : dot s y ≤ Pair.curvatureTolerance * norm s * norm y
    · rw [if_pos (.inr hle), if_neg fun hs => OrderedScalar.not_le_of_lt hs.2 hle]
    · have hlt := OrderedScalar.lt_of_not_le (h hfinite) (OrderedScalar.refl_of_lt hfinite.1) hle
      rw [if_neg (not_or.mpr ⟨not_not.mpr hfinite, hle⟩), if_pos ⟨hfinite, hlt⟩]
  · rw [if_pos (.inl hfinite), if_neg fun hs => hfinite hs.1]

/-- A finite inner product is one of real vectors. -/
theorem Exact.allFinite_of_dot {s y : Vector Exact n} (h : IsFinite (dot s y)) :
    AllFinite s ∧ AllFinite y :=
  forall_of_dot isFinite_of_add isFinite_of_mul h

theorem Pair.comparable_exact (s y : Vector Exact n) : Pair.Comparable s y := by
  intro h
  obtain ⟨hs, hy⟩ := allFinite_of_dot h
  obtain ⟨a, rfl⟩ := allFinite_iff.mp hs
  obtain ⟨b, rfl⟩ := allFinite_iff.mp hy
  rw [norm_vec, norm_vec]
  exact le_refl (1e-10 * length a * length b)

theorem Pair.Suffices.dot_pos {s y : Vector Exact n} (h : Pair.Suffices s y) : 0 < dot s y := by
  obtain ⟨hs, hy⟩ := allFinite_of_dot h.1
  obtain ⟨a, rfl⟩ := allFinite_iff.mp hs
  obtain ⟨b, rfl⟩ := allFinite_iff.mp hy
  have hlarge := h.2
  rw [norm_vec, norm_vec, dot_vec] at hlarge
  rw [dot_vec, zero_lt_real]
  have hbound : 0 ≤ (1e-10 : ℝ) * length a * length b :=
    mul_nonneg (mul_nonneg (by norm_num) (length_nonneg a)) (length_nonneg b)
  exact hbound.trans_lt hlarge

/-! ## The accepted pairs -/

namespace Request

/-- The pair that is offered, if its curvature suffices. -/
def pair? : Request α → Option ((n : ℕ) × Pair α n)
  | .offer s y => if Pair.Suffices s y then some ⟨_, s, y, 1 / dot s y⟩ else none
  | .reset => none
  | .lent r => r.pair?

def Comparable : Request α → Prop
  | .offer s y => Pair.Comparable s y
  | .reset => True
  | .lent r => r.Comparable

theorem comparable_exact (r : Request Exact) : r.Comparable := by
  induction r with
  | offer s y => exact Pair.comparable_exact s y
  | reset => trivial
  | lent r ih => exact ih

theorem dot_pos_of_pair? {r : Request Exact} {p : (n : ℕ) × Pair Exact n} (h : r.pair? = some p) :
    0 < dot p.2.s p.2.y := by
  induction r with
  | offer s y =>
    obtain ⟨hs, hp⟩ : Pair.Suffices s y ∧ _ := Option.ite_none_right_eq_some.mp h
    cases hp
    exact hs.dot_pos
  | reset => cases h
  | lent r ih => exact ih h

/-- The pairs of sufficient curvature among those offered since the last reset, oldest first. -/
def accepted (rs : List (Request α)) : List ((n : ℕ) × Pair α n) :=
  (rs.rtakeWhile fun r => !r.IsReset).filterMap pair?

theorem accepted_concat (rs : List (Request α)) (r : Request α) :
    accepted (rs ++ [r]) = if r.IsReset then [] else accepted rs ++ r.pair?.toList := by
  unfold accepted
  rw [List.rtakeWhile_concat]
  cases hr : r.IsReset with
  | true => rfl
  | false =>
    rw [Bool.not_false, if_pos rfl, List.filterMap_append, if_neg Bool.false_ne_true]
    cases hp : r.pair? with
    | none => rw [List.filterMap_cons_none hp]; rfl
    | some p => rw [List.filterMap_cons_some hp]; rfl

end Request

/-! ## The window -/

namespace LimitedMemory

open Request

/-- A limited memory for `m` pairs after the requests. -/
def after (m : ℕ) (rs : List (Request α)) : LimitedMemory α :=
  rs.foldl (fun h r => r.serve h) (empty m)

theorem after_concat (m : ℕ) (rs : List (Request α)) (r : Request α) :
    after m (rs ++ [r]) = r.serve (after m rs) :=
  List.foldl_concat _ _ _ _

theorem update_of_suffices [OrderedScalar α] {s y : Vector α n} (hcmp : Pair.Comparable s y)
    (hs : Pair.Suffices s y) (h : LimitedMemory α) :
    Secant.update h s y = h.push ⟨s, y, 1 / dot s y⟩ := by
  unfold Secant.update instSecant
  dsimp only
  rw [Pair.of?_eq_ite hcmp, if_pos hs]

theorem update_of_not_suffices [OrderedScalar α] {s y : Vector α n}
    (hcmp : Pair.Comparable s y) (hs : ¬ Pair.Suffices s y) (h : LimitedMemory α) :
    Secant.update h s y = h := by
  unfold Secant.update instSecant
  dsimp only
  rw [Pair.of?_eq_ite hcmp, if_neg hs]

theorem memory_serve (r : Request α) (h : LimitedMemory α) : (r.serve h).memory = h.memory := by
  induction r with
  | offer s y =>
    unfold serve Secant.update instSecant
    dsimp only
    split <;> rfl
  | reset => rfl
  | lent r ih => rw [serve_lent, ih]

/-- A request keeps the newest pairs in the window. -/
theorem window_serve [OrderedScalar α] {h : LimitedMemory α} {rs : List (Request α)}
    (hw : h.window = (accepted rs).rtake h.memory) {r : Request α} (hr : r.Comparable) :
    (r.serve h).window = (accepted (rs ++ [r])).rtake h.memory := by
  induction r with
  | @offer n s y =>
    rw [accepted_concat]
    show (Secant.update h s y).window = (accepted rs ++ (pair? (.offer s y)).toList).rtake h.memory
    by_cases hs : Pair.Suffices s y
    · rw [update_of_suffices hr hs, pair?, if_pos hs]
      exact push_rtake hw _
    · rw [update_of_not_suffices hr hs, pair?, if_neg hs, hw, Option.toList_none, List.append_nil]
  | reset =>
    rw [accepted_concat]
    exact (List.rtake_nil _).symm
  | lent r ih =>
    rw [serve_lent, ih hr, accepted_concat, accepted_concat]
    rfl

theorem memory_after (m : ℕ) (rs : List (Request α)) : (after m rs).memory = Nat.max m 1 := by
  induction rs using List.reverseRecOn with
  | nil => rfl
  | append_singleton rs r ih => rw [after_concat, memory_serve, ih]

theorem window_after [OrderedScalar α] (m : ℕ) {rs : List (Request α)}
    (hrs : ∀ r ∈ rs, r.Comparable) :
    (after m rs).window = (accepted rs).rtake (Nat.max m 1) := by
  rw [← memory_after m rs]
  induction rs using List.reverseRecOn with
  | nil => exact (List.rtake_nil _).symm
  | append_singleton rs r ih =>
    have hw := ih fun r hr => hrs r (List.mem_append_left _ hr)
    rw [after_concat, memory_serve]
    exact window_serve hw (hrs r (List.mem_append_right _ List.mem_cons_self))

end LimitedMemory

/-! ## Three queues -/

/-- The pairs of a limited memory, each part in a queue of its own. -/
structure Queues (α : Type) where
  memory : ℕ
  steps : List ((n : ℕ) × Vector α n)
  changes : List ((n : ℕ) × Vector α n)
  inverses : List α

namespace Queues

def empty (memory : ℕ) : Queues α := ⟨Nat.max memory 1, [], [], []⟩

/-- Drops the oldest entry of each queue. -/
def evict (q : Queues α) : Queues α :=
  { q with
    steps := q.steps.tail
    changes := q.changes.tail
    inverses := q.inverses.tail }

/-- Only the first queue is asked whether there is room. -/
def makeRoom (q : Queues α) : Queues α := if q.steps.length = q.memory then q.evict else q

def extend (q : Queues α) (s y : Vector α n) (rho : α) : Queues α :=
  { q with
    steps := q.steps ++ [⟨n, s⟩]
    changes := q.changes ++ [⟨n, y⟩]
    inverses := q.inverses ++ [rho] }

def update (q : Queues α) (s y : Vector α n) : Queues α :=
  let sy := dot s y
  if ¬ IsFinite sy ∨ sy ≤ Pair.curvatureTolerance * norm s * norm y then q
  else q.makeRoom.extend s y (1 / sy)

def clear (q : Queues α) : Queues α := ⟨q.memory, [], [], []⟩

def serve (q : Queues α) : Request α → Queues α
  | .offer s y => q.update s y
  | .reset => q.clear
  | .lent r => q.serve r

def after (m : ℕ) (rs : List (Request α)) : Queues α := rs.foldl serve (empty m)

/-- The window of a limited memory, taken apart. -/
def ofMemory (h : LimitedMemory α) : Queues α where
  memory := h.memory
  steps := h.window.map fun p => ⟨p.1, p.2.s⟩
  changes := h.window.map fun p => ⟨p.1, p.2.y⟩
  inverses := h.window.map fun p => p.2.rho

variable {h : LimitedMemory α}

omit [Scalar α] in
theorem makeRoom_ofMemory (h : LimitedMemory α) (p : Pair α n) :
    (ofMemory h).makeRoom.extend p.s p.y p.rho = ofMemory (h.push p) := by
  unfold makeRoom extend ofMemory
  dsimp only
  rw [LimitedMemory.memory_push, LimitedMemory.window_push, LimitedMemory.room, List.length_map]
  split
  · unfold evict
    simp only [List.map_append, List.map_tail, List.map_singleton]
  · simp only [List.map_append, List.map_singleton]

theorem update_ofMemory (h : LimitedMemory α) (s y : Vector α n) :
    (ofMemory h).update s y = ofMemory (Secant.update h s y) := by
  unfold update Secant.update LimitedMemory.instSecant Pair.of?
  dsimp only
  split
  · rfl
  · exact makeRoom_ofMemory h ⟨s, y, 1 / dot s y⟩

theorem serve_ofMemory (h : LimitedMemory α) (r : Request α) :
    (ofMemory h).serve r = ofMemory (r.serve h) := by
  induction r with
  | offer s y => exact update_ofMemory h s y
  | reset => rfl
  | lent r ih => rw [Request.serve_lent, ← ih, serve]

theorem after_eq (m : ℕ) (rs : List (Request α)) :
    after m rs = ofMemory (LimitedMemory.after m rs) := by
  induction rs using List.reverseRecOn with
  | nil => rfl
  | append_singleton rs r ih =>
    rw [LimitedMemory.after_concat, ← serve_ofMemory, ← ih]
    exact List.foldl_concat _ _ _ _

end Queues

/-! ## What a limited memory holds -/

namespace LimitedMemory

open Request

/-- A limited memory for `m` pairs holds the newest accepted pairs after the requests. -/
structure HoldsNewest (m : ℕ) (rs : List (Request α)) : Prop where
  memory : (after m rs).memory = Nat.max m 1
  window : (after m rs).window = (accepted rs).rtake (Nat.max m 1)
  count_le : Secant.count (after m rs) ≤ Nat.max m 1
  /-- Three queues that are changed one by one hold the parts of these pairs. -/
  queues : Queues.after m rs = .ofMemory (after m rs)
  aligned : (Queues.after m rs).steps.length = Secant.count (after m rs) ∧
    (Queues.after m rs).changes.length = Secant.count (after m rs) ∧
    (Queues.after m rs).inverses.length = Secant.count (after m rs)
  rejected {n : ℕ} {s y : Vector α n} (hcmp : Pair.Comparable s y) (hs : ¬ Pair.Suffices s y) :
    Secant.update (after m rs) s y = after m rs ∧
      (Queues.after m rs).update s y = Queues.after m rs
  /-- Other requests that leave the same pairs make no difference. -/
  apply {m' : ℕ} {rs' : List (Request α)} (hrs' : ∀ r ∈ rs', r.Comparable)
    (hsame : (accepted rs').rtake (Nat.max m' 1) = (accepted rs).rtake (Nat.max m 1))
    {n : ℕ} (v : Vector α n) : Secant.apply (after m' rs') v = Secant.apply (after m rs) v

theorem apply_congr {h h' : LimitedMemory α} (hw : h.window = h'.window) (v : Vector α n) :
    Secant.apply h v = Secant.apply h' v := by
  unfold Secant.apply instSecant pairs?
  dsimp only
  rw [hw]

theorem holdsNewest_of_comparable [OrderedScalar α] (m : ℕ) {rs : List (Request α)}
    (hrs : ∀ r ∈ rs, r.Comparable) : HoldsNewest m rs where
  memory := memory_after m rs
  window := window_after m hrs
  count_le := (after m rs).length_le.trans_eq (memory_after m rs)
  queues := Queues.after_eq m rs
  aligned := by
    rw [Queues.after_eq]
    exact ⟨List.length_map _, List.length_map _, List.length_map _⟩
  rejected hcmp hs := by
    rw [Queues.after_eq, Queues.update_ofMemory, update_of_not_suffices hcmp hs]
    exact ⟨rfl, rfl⟩
  apply hrs' hsame _ v :=
    apply_congr (((window_after _ hrs').trans hsame).trans (window_after m hrs).symm) v

/-- In a window of exact scalars all curvatures are positive. -/
theorem dot_pos_of_mem_window (m : ℕ) (rs : List (Request Exact)) :
    ∀ p ∈ (after m rs).window, 0 < dot p.2.s p.2.y := by
  intro p hp
  rw [window_after m fun r _ => r.comparable_exact] at hp
  obtain ⟨r, -, hr⟩ := List.mem_filterMap.mp (List.mem_of_mem_drop hp)
  exact dot_pos_of_pair? hr

/-- A limited memory that is offered pairs and reset in any order, directly or through references,
holds the newest accepted pairs as long as no curvature is compared with `nan`. With exact scalars
none is, and all pairs have positive curvature. -/
theorem after_holdsNewest :
    (∀ {α : Type} [Scalar α] [OrderedScalar α] (m : ℕ) (rs : List (Request α)),
      (∀ r ∈ rs, r.Comparable) → HoldsNewest m rs) ∧
    ∀ (m : ℕ) (rs : List (Request Exact)),
      HoldsNewest m rs ∧ ∀ p ∈ (after m rs).window, 0 < dot p.2.s p.2.y :=
  ⟨fun m _ hrs => holdsNewest_of_comparable m hrs, fun m rs =>
    ⟨holdsNewest_of_comparable m fun r _ => r.comparable_exact, dot_pos_of_mem_window m rs⟩⟩

theorem pair?_offer (c : Curved n) (hc : 1e-10 * length c.s * length c.y < c.s ⬝ᵥ c.y) :
    (Request.offer (vec c.s) (vec c.y)).pair? = some c.stored := by
  have hs : Pair.Suffices (vec c.s) (vec c.y) := by
    unfold Pair.Suffices
    rw [dot_vec, norm_vec, norm_vec]
    exact ⟨isFinite_real _, hc⟩
  refine (if_pos hs).trans ?_
  rw [dot_vec, one_eq, real_div_real 1 c.pos.ne']
  rfl

/-- The three pairs of a plane, the second through a reference, and a pair of negative curvature. -/
noncomputable def planeRequests : List (Request Exact) :=
  [.offer (vec first.s) (vec first.y), .lent (.offer (vec second.s) (vec second.y)),
    .offer (vec ![1, 0]) (vec ![-1, 0]), .offer (vec third.s) (vec third.y)]

theorem accepted_planeRequests :
    accepted planeRequests = [first.stored, second.stored, third.stored] := by
  have hsecond : (Request.offer (vec second.s) (vec second.y)).lent.pair? = some second.stored :=
    pair?_offer second second_large
  have hnegative : (Request.offer (vec ![1, 0]) (vec ![-1, 0])).pair? = none := by
    refine if_neg fun hs => ?_
    have hpos := hs.dot_pos
    rw [dot_vec, zero_lt_real] at hpos
    norm_num at hpos
  show planeRequests.filterMap pair? = _
  rw [planeRequests, List.filterMap_cons_some (pair?_offer first first_large),
    List.filterMap_cons_some hsecond, List.filterMap_cons_none hnegative,
    List.filterMap_cons_some (pair?_offer third third_large), List.filterMap_nil]

/-- A window of two loses the first pair and never sees the negative one. -/
theorem after_holdsNewest_plane :
    (∀ r ∈ planeRequests, r.Comparable) ∧ HoldsNewest 2 planeRequests ∧
      (after 2 planeRequests).window = [second.stored, third.stored] ∧
      Secant.apply (after 2 planeRequests) (vec ![6, 8]) =
        Secant.apply (after 2 [.offer (vec second.s) (vec second.y),
          .offer (vec third.s) (vec third.y)]) (vec ![6, 8]) := by
  have hcmp (rs : List (Request Exact)) : ∀ r ∈ rs, r.Comparable := fun r _ => r.comparable_exact
  have h := after_holdsNewest.1 2 planeRequests (hcmp _)
  have hwindow : (accepted planeRequests).rtake (Nat.max 2 1) = [second.stored, third.stored] := by
    rw [accepted_planeRequests]
    rfl
  refine ⟨hcmp _, h, h.window.trans hwindow, (h.apply (hcmp _) ?_ _).symm⟩
  rw [hwindow]
  show (List.filterMap pair?
    [.offer (vec second.s) (vec second.y), .offer (vec third.s) (vec third.y)]).rtake 2 = _
  rw [List.filterMap_cons_some (pair?_offer second second_large),
    List.filterMap_cons_some (pair?_offer third third_large)]
  rfl

end LimitedMemory

end LogBarrier
