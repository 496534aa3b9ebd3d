import LogBarrier.Proofs.Course
import LogBarrier.Proofs.Inside
import LogBarrier.Proofs.Nearest
import LogBarrier.Proofs.Quiet

/-!
# What a run reports

With exact arithmetic, every state that a run shows describes one real point of the box: the value
and the gradient there are those of the caller's objective, and the stationarity measure is the
length of the projected gradient step. A run that succeeds ends at the point that it recorded last,
whatever its solver did, as long as the solver left real points only.
-/

namespace LogBarrier

open Scalar Exact LogBarrier.Action

variable {σ τ : Type} {n : ℕ} {f : Objective Exact} {B : Box Exact n}

/-! ## Boxes that may be empty -/

/-- The infinite ends are on their sides, but the ends may be out of order. -/
inductive Interval.Proper : Interval Exact → Prop
  | free : Proper ⟨.negInf, .posInf⟩
  | above (l : ℝ) : Proper ⟨.real l, .posInf⟩
  | below (u : ℝ) : Proper ⟨.negInf, .real u⟩
  | between (l u : ℝ) : Proper ⟨.real l, .real u⟩

def Box.Proper (B : Box Exact n) : Prop := ∀ i : Fin n, (B.side i).Proper

theorem Interval.Proper.regular {I : Interval Exact} (h : I.Proper) (hI : ¬ I.IsEmpty) :
    I.Regular := by
  cases h with
  | free => exact .free
  | above l => exact .above l
  | below u => exact .below u
  | between l u => exact .between (not_not.mp hI)

theorem Interval.Regular.proper {I : Interval Exact} (h : I.Regular) : I.Proper := by
  cases h with
  | free => exact .free
  | above l => exact .above l
  | below u => exact .below u
  | between _ => exact .between _ _

theorem Box.Regular.proper (hB : B.Regular) : B.Proper := fun i => (hB i).proper

theorem Box.Regular.feasible_of_interior (hB : B.Regular) {x : Vector Exact n}
    (hx : B.Interior x) : B.Feasible x :=
  fun i => (hx i).contains (hB i)

/-! ## States -/

/-- The state tells of the point `a` of the box, where the gradient of `f` is `b`. -/
structure State.Describes (t : State Exact) (f : Objective Exact) (B : Box Exact n)
    (a b : Fin n → ℝ) : Prop where
  point : t.x = (vec a).toArray
  gradient : t.gradient = (vec b).toArray
  gradient_at : f.gradient (vec a).toArray = (vec b).toArray
  value_at : f.value (vec a).toArray = t.value
  value_finite : IsFinite t.value
  gnorm : ∃ p, B.project (vec (a - b)) = vec p ∧ t.gnorm = real (length (p - a))
  feasible : B.Feasible (vec a)

namespace State

variable {t : State Exact} {a b : Fin n → ℝ}

/-- A state that was recorded at a feasible point after both evaluations succeeded. -/
theorem exists_describes (hB : B.Regular) {g : Vector Exact n} {v : Exact}
    (ha : B.Feasible (vec a)) (hgradient : f.checkedGradient (vec a) = .ok g)
    (hvalue : f.checkedValue (vec a).toArray = .ok v) (hx : t.x = (vec a).toArray)
    (hg : t.gradient = g.toArray) (hv : t.value = v)
    (hgnorm : t.gnorm = norm (B.residual (vec a) g)) :
    ∃ b, g = vec b ∧ t.Describes f B a b := by
  obtain ⟨hgradient, hfinite⟩ := Objective.checkedGradient_eq_ok hgradient
  obtain ⟨hvalue, hnumber⟩ := Objective.checkedValue_eq_ok hvalue
  obtain ⟨b, rfl⟩ := allFinite_iff.mp hfinite
  obtain ⟨p, hp⟩ := hB.exists_project (a - b)
  refine ⟨b, rfl, hx, hg, hgradient, hvalue.trans hv.symm, ?_, ⟨p, hp, ?_⟩, ha⟩
  · rw [hv]
    exact hnumber
  · rw [hgnorm, Box.residual, vec_sub_vec, hp, vec_sub_vec, norm_vec]

/-- How the run has ended does not matter to what the state describes. -/
theorem Describes.ended (h : t.Describes f B a b) (status : Status) (converged : Bool) :
    ({ t with status, converged } : State Exact).Describes f B a b :=
  ⟨h.point, h.gradient, h.gradient_at, h.value_at, h.value_finite, h.gnorm, h.feasible⟩

theorem Describes.exists_gnorm (h : t.Describes f B a b) : ∃ r, t.gnorm = real r := by
  obtain ⟨p, -, hp⟩ := h.gnorm
  exact ⟨_, hp⟩

/-- `best` is the least stationarity that `l` shows. A `nan` counts for nothing among numbers. -/
structure LeastOf (l : List (State Exact)) (best : Exact) : Prop where
  attained : ∃ u ∈ l, u.gnorm = best
  le : ∀ u ∈ l, u.gnorm ≠ .nan → best ≤ u.gnorm

section

variable {l : List (State Exact)} {x y best : Exact}

theorem leastOf_singleton (u : State Exact) : LeastOf [u] u.gnorm where
  attained := ⟨u, List.mem_singleton_self u, rfl⟩
  le := List.forall_mem_singleton.mpr le_refl_of_ne

theorem LeastOf.concat (h : LeastOf l best) (u : State Exact) :
    LeastOf (l ++ [u]) (Scalar.min best u.gnorm) := by
  obtain ⟨⟨v, hv, hbest⟩, hle⟩ := h
  have new : ∃ w ∈ l ++ [u], w.gnorm = u.gnorm := ⟨u, List.mem_concat_self, rfl⟩
  unfold Scalar.min
  split_ifs with hlower hnumber
  · refine ⟨new, List.forall_mem_append.mpr ⟨fun w hw hnan => ?_, ?_⟩⟩
    · exact Exact.le_trans hlower (hle w hw hnan)
    · exact List.forall_mem_singleton.mpr le_refl_of_ne
  · refine ⟨⟨v, List.mem_append_left _ hv, hbest⟩, List.forall_mem_append.mpr ⟨hle, ?_⟩⟩
    refine List.forall_mem_singleton.mpr fun hnan => ?_
    have hbest_number : best ≠ .nan := by
      rintro rfl
      exact not_nan_le _ hnumber
    exact (Exact.le_total hbest_number hnan).resolve_right hlower
  · -- All states before show `nan`.
    have hbest_nan : best = .nan := by
      by_contra hne
      exact hnumber (le_refl_of_ne hne)
    refine ⟨new, List.forall_mem_append.mpr ⟨fun w hw hnan => ?_, ?_⟩⟩
    · have hle_nan := hle w hw hnan
      rw [hbest_nan] at hle_nan
      exact absurd hle_nan (not_nan_le _)
    · exact List.forall_mem_singleton.mpr le_refl_of_ne

theorem LeastOf.unique (hx : LeastOf l x) (hy : LeastOf l y) : x = y := by
  have le_of {x y : Exact} (hx : LeastOf l x) (hy : LeastOf l y) (hnan : y ≠ .nan) : x ≤ y := by
    obtain ⟨u, hu, rfl⟩ := hy.attained
    exact hx.le u hu hnan
  by_cases hnan : x = .nan
  · by_contra hne
    have hle := le_of hx hy fun hy_nan => hne (hnan.trans hy_nan.symm)
    rw [hnan] at hle
    exact not_nan_le _ hle
  · have hle := le_of hy hx hnan
    refine Exact.le_antisymm (le_of hx hy ?_) hle
    rintro rfl
    exact not_nan_le _ hle

end

/-- `best` is the least stationarity measure among the states. -/
def BestOf (l : List (State Exact)) (best : Exact) : Prop :=
  (∃ u ∈ l, u.gnorm = best) ∧ ∀ u ∈ l, best ≤ u.gnorm

theorem bestOf_iff {l : List (State Exact)} {best : Exact} :
    BestOf l best ↔ LeastOf l best ∧ ∀ u ∈ l, u.gnorm ≠ .nan := by
  constructor
  · rintro ⟨hattained, hle⟩
    refine ⟨⟨hattained, fun u hu _ => hle u hu⟩, fun u hu hnan => ?_⟩
    have hle_nan := hle u hu
    rw [hnan] at hle_nan
    exact not_le_nan _ hle_nan
  · rintro ⟨hleast, hnumbers⟩
    exact ⟨hleast.attained, fun u hu => hleast.le u hu (hnumbers u hu)⟩

theorem bestOf_singleton {r : ℝ} (ht : t.gnorm = real r) : BestOf [t] t.gnorm := by
  refine bestOf_iff.mpr ⟨leastOf_singleton t, List.forall_mem_singleton.mpr ?_⟩
  rw [ht]
  nofun

theorem BestOf.concat {l : List (State Exact)} {r s : ℝ} (h : BestOf l (real r))
    (ht : t.gnorm = real s) : BestOf (l ++ [t]) (Scalar.min (real r) t.gnorm) := by
  obtain ⟨hleast, hnumbers⟩ := bestOf_iff.mp h
  refine bestOf_iff.mpr ⟨hleast.concat t, List.forall_mem_append.mpr ⟨hnumbers, ?_⟩⟩
  refine List.forall_mem_singleton.mpr ?_
  rw [ht]
  nofun

end State

/-! ## Sessions -/

namespace Session

variable {s t u w : Session Exact σ τ n} {k : ℕ} {v : Status}

/-- The session describes where it is, and all that it has shown. -/
structure Faithful (f : Objective Exact) (B : Box Exact n) (t : Session Exact σ τ n) : Prop where
  objective : t.augmented.objective = f
  box : t.augmented.box = B
  regular : B.Regular
  described : ∃ a b, t.method.state.Describes f B a b ∧ t.x = (vec a).toArray ∧
    t.gradient = (vec b).toArray
  shown : ∀ u ∈ t.journal.snapshots, ∃ a b : Fin n → ℝ, u.Describes f B a b
  best : ∃ r, t.method.state.bestGnorm = real r ∧ State.BestOf t.journal.snapshots (real r)

/-- The solver leaves a real point at `t`, if it leaves a point at all. -/
def LeavesReal (t : Session Exact σ τ n) : Prop :=
  ∀ x z : Vector Exact n, t.x = x.toArray → (t.solution x).result.x = z.toArray → AllFinite z

theorem Faithful.point (h : t.Faithful f B) {x : Vector Exact n} (hx : t.x = x.toArray) :
    ∃ a, x = vec a := by
  obtain ⟨a, -, -, ha, -⟩ := h.described
  exact ⟨a, Vector.toArray_inj.mp (hx.symm.trans ha)⟩

/-- An iteration leads from one faithful session to the next one, wherever the solver went: what it
left is projected before it is recorded. -/
theorem Faithful.iterated (h : t.Faithful f B) (hreal : t.LeavesReal) {x y g : Vector Exact n}
    {value : Exact} {report : SolveReport} (hx : t.x = x.toArray)
    (hu : t.Iterated x y g value report u) : u.Faithful f B := by
  obtain ⟨z, hz, hy⟩ := hu.ended
  obtain ⟨c, rfl⟩ := allFinite_iff.mp (hreal x z hx hz)
  obtain ⟨a, ha⟩ := h.regular.exists_project c
  have hya : y = vec a := by rw [hy, h.box, ha]
  subst hya
  have hfeasible : B.Feasible (vec a) := ha ▸ h.regular.feasible_project c
  have hgradient := hu.gradient_at
  have hvalue := hu.value_at
  rw [h.objective] at hgradient hvalue
  obtain ⟨b, rfl, hdescribed⟩ := State.exists_describes (t := u.method.state) h.regular hfeasible
    hgradient hvalue (by rw [hu.state]; rfl) (by rw [hu.state]; rfl) (by rw [hu.state]; rfl)
    (by rw [hu.state, ← h.box]; rfl)
  obtain ⟨r, hr, hbest⟩ := h.best
  obtain ⟨q, hq⟩ := hdescribed.exists_gnorm
  refine ⟨hu.objective.trans h.objective, hu.box.trans h.box, h.regular,
    ⟨a, b, hdescribed, hu.point, hu.gradient⟩, ?_, ⟨min r q, ?_, ?_⟩⟩
  · rw [hu.snapshots, List.forall_mem_append, List.forall_mem_singleton]
    exact ⟨h.shown, a, b, hdescribed⟩
  · have hnext : u.method.state.bestGnorm =
        Scalar.min t.method.state.bestGnorm u.method.state.gnorm := by
      rw [hu.state]
      rfl
    rw [hnext, hr, hq, min_real]
  · have hconcat := hbest.concat hq
    rw [hq, min_real] at hconcat
    rw [hu.snapshots]
    exact hconcat

variable [Numeral Exact]

/-- Nothing has been shown or handed over yet. The start is real, and so is every point at which a
run from here finds that its solver has left it. -/
structure RealStart (f : Objective Exact) (B : Box Exact n) (s : Session Exact σ τ n) : Prop where
  objective : s.augmented.objective = f
  box : s.augmented.box = B
  proper : B.Proper
  snapshots : s.journal.snapshots = []
  handed : s.journal.handed = []
  point : AllFinite s.x.toVector
  ends : ∀ k t, s.GetsTo k t → t.LeavesReal

theorem RealStart.opened (h : s.RealStart f B) (ht : openRun s = .ok () t) : t.Faithful f B := by
  obtain ⟨y, g, value, ht⟩ := (openRun_ends s).of_ok ht
  have hopening := ht.opening
  rw [h.box] at hopening
  obtain ⟨x, hx, hempty, rfl⟩ := Box.exists_of_opening_eq_ok hopening
  have hB : B.Regular := fun i => (h.proper i).regular (hempty i)
  -- A finite start is moved into the interior, and the interior has finite points only.
  have hfinite : AllFinite x := by
    have hpoint := h.point
    rw [hx] at hpoint
    exact (allFinite_toVector x).mp hpoint
  have hin := hB.interior_inset hfinite
  have hfeasible := hB.feasible_of_interior hin
  obtain ⟨a, ha⟩ := allFinite_iff.mp (hB.allFinite hin)
  rw [ha] at ht hfeasible
  have hgradient := ht.gradient_at
  have hvalue := ht.value_at
  rw [h.objective] at hgradient hvalue
  obtain ⟨b, rfl, hdescribed⟩ := State.exists_describes (t := t.method.state) hB hfeasible
    hgradient hvalue (by rw [ht.state]; rfl) (by rw [ht.state]; rfl) (by rw [ht.state]; rfl)
    (by rw [ht.state, ← h.box]; rfl)
  obtain ⟨r, hr⟩ := hdescribed.exists_gnorm
  have hshown : t.journal.snapshots = [t.method.state] := by
    rw [ht.snapshots, h.snapshots, List.nil_append]
  refine ⟨ht.objective.trans h.objective, ht.box.trans h.box, hB,
    ⟨a, b, hdescribed, ht.point, ht.gradient⟩, ?_, ⟨r, ?_, ?_⟩⟩
  · rw [hshown, List.forall_mem_singleton]
    exact ⟨a, b, hdescribed⟩
  · rw [← hr, ht.state]
    rfl
  · rw [hshown, ← hr]
    exact State.bestOf_singleton hr

theorem RealStart.getsTo (h : s.RealStart f B) (ht : s.GetsTo k t) : t.Faithful f B := by
  induction ht with
  | opened ht => exact h.opened ht
  | iterated ht hu ih =>
    obtain ⟨-, x, y, g, value, report, hx, hu⟩ := ht.exists_iterated hu
    exact ih.iterated (h.ends _ _ ht) hx hu

theorem RealStart.stops (h : s.RealStart f B) (ht : s.Stops k v t) : t.Faithful f B := by
  cases ht with
  | exhausted ht => exact h.getsTo ht
  | judged ht hu =>
    obtain ⟨-, x, y, g, value, report, hx, hu⟩ := ht.exists_iterated hu
    exact (h.getsTo ht).iterated (h.ends _ _ ht) hx hu

/-! ## The end of a run -/

/-- The last subproblem of a run from `s` that is over at `t`. It was handed to the solver at `w`,
after `k` others; it started from `a`, which had been shown, and led to `b`, which is shown last. -/
structure LastSolve (B : Box Exact n) (s t w : Session Exact σ τ n) (k : ℕ) (a b : Fin n → ℝ) :
    Prop where
  getsTo : s.GetsTo k w
  start : w.x = (vec a).toArray
  outcome : (w.solution (vec a)).result.outcome =
    .ok ⟨t.method.state.innerIterations, t.method.state.innerConverged⟩
  ended : ∃ z : Vector Exact n, (w.solution (vec a)).result.x = z.toArray ∧ B.project z = vec b
  handed_length : t.journal.handed.length = k + 1
  start_shown : ∃ u, t.journal.snapshots[k]? = some u ∧ u.x = (vec a).toArray
  end_shown : ∃ u, t.journal.snapshots[k + 1]? = some u ∧ u.x = (vec b).toArray
  snorm : t.method.state.snorm = real (length (b - a))

/-- What the session `t` tells at the end of a run from `s` that answers `v`. -/
structure Accounts (f : Objective Exact) (B : Box Exact n) (s : Session Exact σ τ n) (v : Status)
    (t : Session Exact σ τ n) : Prop where
  described : ∃ a b, t.method.state.Describes f B a b ∧ t.x = (vec a).toArray ∧
    t.gradient = (vec b).toArray
  snapshots_length : t.journal.snapshots.length = t.method.state.iteration + 1
  best : State.BestOf t.journal.snapshots t.method.state.bestGnorm
  unmoved : t.method.state.iteration = 0 →
    ∃ u, t.journal.snapshots = [u] ∧ t.method.state = { u with status := v }
  moved (k : ℕ) : t.method.state.iteration = k + 1 → ∃ w a b, LastSolve B s t w k a b

/-- The iterations of a run are counted, and every one of them is shown. -/
theorem RealStart.counted (h : s.RealStart f B) (ht : s.Stops k v t) :
    t.method.state.iteration = k ∧ t.journal.snapshots.length = k + 1 := by
  cases k with
  | zero =>
    obtain ⟨ht, -⟩ := ht.of_zero
    obtain ⟨x, g, value, ht⟩ := (openRun_ends s).of_ok ht
    rw [ht.snapshots, h.snapshots, ht.state]
    exact ⟨rfl, rfl⟩
  | succ k =>
    obtain ⟨w, a, hw, ht⟩ := ht.exists_last
    obtain ⟨-, x, y, g, value, report, -, ht⟩ := hw.exists_iterated ht
    obtain ⟨-, -, hlength, hiteration⟩ := hw.shown_iterated h.snapshots h.handed ht
    exact ⟨hiteration, hlength⟩

theorem RealStart.exists_lastSolve (h : s.RealStart f B) (ht : s.Stops (k + 1) v t)
    (hu : t.Closed v u) : ∃ w a b, LastSolve B s u w k a b := by
  obtain ⟨w, verdict, hw, ht⟩ := ht.exists_last
  obtain ⟨-, x, y, g, value, report, hx, ht⟩ := hw.exists_iterated ht
  have hfaithful := h.getsTo hw
  have hreached := hw.reached h.snapshots h.handed
  obtain ⟨a, rfl⟩ := hfaithful.point hx
  obtain ⟨b, rfl⟩ := (hfaithful.iterated (h.ends _ _ hw) hx ht).point ht.point
  obtain ⟨hstart, hend, -, -⟩ := hw.shown_iterated h.snapshots h.handed ht
  obtain ⟨z, hz, hb⟩ := ht.ended
  refine ⟨w, a, b, hw, hx, ?_, ⟨z, hz, ?_⟩, ?_, ?_, ?_, ?_⟩
  · rw [ht.outcome, hu.state, ht.state]
    rfl
  · rw [hb, hfaithful.box]
  · rw [hu.handed, ht.handed, List.length_append, hreached.handed_length]
    rfl
  · -- The point before the iteration is the one of the state that was shown last.
    obtain ⟨a', b', hdescribed, hpoint, -⟩ := hfaithful.described
    refine ⟨_, hu.snapshots ▸ hstart, ?_⟩
    rw [hdescribed.point, ← hpoint, hx]
  · refine ⟨_, hu.snapshots ▸ hend, ?_⟩
    rw [ht.state]
    rfl
  · have hsnorm : u.method.state.snorm = norm (vec b - vec a) := by
      rw [hu.state, ht.state]
      rfl
    rw [hsnorm, vec_sub_vec, norm_vec]

theorem RealStart.accounts (h : s.RealStart f B) (ht : s.Stops k v t) (hu : t.Closed v u) :
    Accounts f B s v u := by
  have hfaithful := h.stops ht
  obtain ⟨hiteration, hlength⟩ := h.counted ht
  have hcount : u.method.state.iteration = k := by
    rw [hu.state]
    exact hiteration
  refine ⟨?_, ?_, ?_, ?_, ?_⟩
  · obtain ⟨a, b, hdescribed, hx, hg⟩ := hfaithful.described
    refine ⟨a, b, ?_, hu.point.trans hx, hu.gradient.trans hg⟩
    rw [hu.state]
    exact hdescribed.ended _ _
  · rw [hu.snapshots, hlength, hcount]
  · obtain ⟨r, hr, hbest⟩ := hfaithful.best
    have hkept : u.method.state.bestGnorm = real r := by
      rw [hu.state]
      exact hr
    rw [hu.snapshots, hkept]
    exact hbest
  · intro hzero
    obtain rfl : k = 0 := hcount.symm.trans hzero
    obtain ⟨hopened, rfl⟩ := ht.of_zero
    obtain ⟨x, g, value, hopened⟩ := (openRun_ends s).of_ok hopened
    refine ⟨t.method.state, ?_, ?_⟩
    · rw [hu.snapshots, hopened.snapshots, h.snapshots]
      rfl
    · rw [hu.state, hopened.state]
      rfl
  · intro i hi
    obtain rfl : k = i + 1 := hcount.symm.trans hi
    exact h.exists_lastSolve ht hu

/-- A run that fails has shown nothing wrong before. -/
theorem RealStart.shown_of_fails (h : s.RealStart f B) {e : Failure} (ht : s.Fails e t) :
    ∀ u ∈ t.journal.snapshots, ∃ a b : Fin n → ℝ, u.Describes f B a b := by
  cases ht with
  | opening ht =>
    rw [ht.snapshots, h.snapshots]
    exact List.forall_mem_nil _
  | iterating ht hx hu =>
    rw [hu.snapshots]
    exact (h.getsTo ht).shown
  | closing ht hu =>
    rw [hu.snapshots]
    exact (h.stops ht).shown

theorem RealStart.run (h : s.RealStart f B) :
    Action.run.Ends
      (fun v t => (∀ u ∈ t.journal.snapshots, ∃ a b : Fin n → ℝ, u.Describes f B a b) ∧
        Accounts f B s v t)
      (fun _ t => ∀ u ∈ t.journal.snapshots, ∃ a b : Fin n → ℝ, u.Describes f B a b) s := by
  refine (run_stages s).mono ?_ ?_
  · rintro v t ⟨k, w, hw, ht⟩
    refine ⟨?_, h.accounts hw ht⟩
    rw [ht.snapshots]
    exact (h.stops hw).shown
  · intro e t ht
    exact h.shown_of_fails ht

end Session

/-! ## A solver that wanders off -/

/-- A solver that goes to the point five at once, inside the box or not. -/
noncomputable def Solver.wandering : Solver Exact Unit τ where
  name := "wandering"
  solve {n} _ _ _ _ _ h := pure ⟨(vec fun _ : Fin n => 5).toArray, (), h, [], .ok ⟨1, true⟩⟩

theorem Solver.leavesReal_wandering {t : Session Exact Unit τ n}
    (ht : t.method.solver = Solver.wandering) : t.LeavesReal := by
  intro x z _ hz
  unfold Session.solution at hz
  rw [ht] at hz
  obtain rfl := Vector.toArray_inj.mp hz
  exact allFinite_vec _

/-- Falls to the right without an end. -/
noncomputable def Objective.falling : Objective Exact where
  value x := -x.getD 0 0
  gradient x := Array.replicate x.size (real (-1))
  product? := none

namespace Objective

theorem value_falling (a : Fin 1 → ℝ) : falling.value (vec a).toArray = real (-a 0) := by
  have hget : (vec a).toArray.getD 0 0 = real (a 0) := get_vec a 0
  exact congrArg (- ·) hget

theorem gradient_falling (a : Fin n → ℝ) :
    falling.gradient (vec a).toArray = (vec fun _ : Fin n => -1).toArray := by
  unfold falling vec
  refine Array.ext (by simp) fun i _ _ => ?_
  simp

theorem checkedGradient_falling (a : Fin n → ℝ) :
    falling.checkedGradient (vec a) = .ok (vec fun _ => -1) := by
  rw [checkedGradient_of_eq (gradient_falling a)]
  exact if_pos (allFinite_vec fun _ : Fin n => -1)

theorem checkedValue_falling (a : Fin 1 → ℝ) :
    falling.checkedValue (vec a).toArray = .ok (real (-a 0)) := by
  unfold checkedValue
  rw [value_falling]
  exact if_pos (isFinite_real _)

end Objective

/-- The unit interval. -/
noncomputable def Box.unit : Box Exact 1 := .between (vec fun _ => 0) (vec fun _ => 1)

theorem Box.regular_unit : Box.unit.Regular := Box.regular_between fun _ => zero_le_one

theorem Box.nearest_unit (a : Fin 1 → ℝ) (i : Fin 1) :
    Box.unit.nearest a i = min 1 (max 0 (a i)) := by
  refine Exact.real.inj ?_
  rw [← regular_unit.clamp_eq_nearest, unit, side_between, get_vec, get_vec, Interval.clamp,
    Interval.raise_real, Interval.cut_real]

theorem Box.project_unit {r : ℝ} (hr : 1 ≤ r) :
    Box.unit.project (vec fun _ => r) = vec fun _ => 1 := by
  rw [regular_unit.project_vec]
  refine congrArg vec (funext fun i => ?_)
  rw [nearest_unit, max_eq_right (zero_le_one.trans hr), min_eq_left hr]

theorem Objective.opens_falling : falling.Opens Box.unit (vec fun _ : Fin 1 => 3).toArray := by
  have hin := Box.regular_unit.interior_inset (allFinite_vec fun _ => 3)
  obtain ⟨a, ha⟩ := allFinite_iff.mp (Box.regular_unit.allFinite hin)
  refine ⟨vec a, _, _, ?_, checkedGradient_falling a, checkedValue_falling a⟩
  rw [Box.regular_unit.opening_eq_ok, ha]

namespace Method

/-- The default method with the solver that wanders off. -/
noncomputable def wandering : Method Exact Unit (LimitedMemory Exact) :=
  standard.withSolver .wandering ()

/-- Where its run over the unit interval begins, with an objective that falls to the right. -/
noncomputable def wanderingSession : Session Exact Unit (LimitedMemory Exact) 1 :=
  wandering.session .falling .unit (vec fun _ : Fin 1 => 3).toArray #[] .unlimited

theorem proceeds_wandering {t : Session Exact Unit (LimitedMemory Exact) 1}
    (ht : wanderingSession.Alike t) (x : Vector Exact 1) : t.Proceeds x := by
  have hfive : (1 : ℝ) ≤ 5 := by norm_num
  refine ⟨vec fun _ => 5, vec fun _ => -1, real (-1), ⟨1, true⟩, ?_, ?_, ?_, ?_⟩
  · unfold Session.solution
    rw [ht.solver]
    rfl
  · unfold Session.solution
    rw [ht.solver]
    rfl
  · rw [ht.objective, ht.box]
    show Objective.falling.checkedGradient (Box.unit.project _) = _
    rw [Box.project_unit hfive]
    exact Objective.checkedGradient_falling _
  · rw [ht.objective, ht.box]
    show Objective.falling.checkedValue (Box.unit.project _).toArray = _
    rw [Box.project_unit hfive]
    exact Objective.checkedValue_falling _

variable [Numeral Exact]

theorem leavesReal_of_getsTo (k : ℕ) (t : Session Exact Unit (LimitedMemory Exact) 1)
    (ht : wanderingSession.GetsTo k t) : t.LeavesReal :=
  Solver.leavesReal_wandering ht.alike.solver

/-- The solver leaves the interval, and its right end is where the objective is least. -/
theorem iterate_wandering {t u : Session Exact Unit (LimitedMemory Exact) 1} {k : ℕ}
    {a : Option Status} (ht : wanderingSession.GetsTo k t) (hu : iterate t = .ok a u) :
    a = some .converged := by
  obtain ⟨ha, x, y, g, v, report, -, hiterated⟩ := ht.exists_iterated hu
  obtain ⟨z, hz, hy⟩ := hiterated.ended
  obtain rfl : z = vec fun _ => 5 := by
    unfold Session.solution at hz
    rw [ht.alike.solver] at hz
    exact Vector.toArray_inj.mp hz.symm
  rw [ht.alike.box] at hy
  obtain rfl : y = vec fun _ => 1 := hy.trans (Box.project_unit (by norm_num))
  have hgradient := hiterated.gradient_at
  rw [ht.alike.objective] at hgradient
  obtain rfl : g = vec fun _ => -1 :=
    Except.ok.inj (hgradient.symm.trans (Objective.checkedGradient_falling _))
  -- The gradient step from the right end is cut off where it began.
  have hresidual : Box.unit.residual (vec fun _ => 1) (vec fun _ => -1) = vec 0 := by
    have hstep : (fun _ : Fin 1 => (1 : ℝ)) - (fun _ => -1) = fun _ => 2 := by
      funext i
      rw [Pi.sub_apply]
      norm_num
    rw [Box.residual, vec_sub_vec, hstep, Box.project_unit one_le_two, vec_sub_vec, sub_self]
  have hgnorm : u.method.state.gnorm = real 0 := by
    have hstate : u.method.state.gnorm = norm (t.augmented.box.residual _ _) :=
      congrArg State.gnorm hiterated.state
    rw [hstate, ht.alike.box]
    show norm (Box.unit.residual _ _) = _
    rw [hresidual, norm_vec, length, zero_dotProduct, Real.sqrt_zero]
  rw [ha, Session.verdict?, (ht.alike.trans hiterated.toAlike).options, Options.verdict?, hgnorm]
  refine if_pos ?_
  show (0 : ℝ) ≤ 1e-6
  norm_num

theorem exists_run_wandering :
    ∃ t, wandering.run .falling .unit (vec fun _ : Fin 1 => 3).toArray #[] .unlimited =
      .ok .converged t := by
  have hsucceeds : Action.run.Succeeds wanderingSession :=
    run_succeeds rfl Objective.opens_falling fun _ _ x ht _ => proceeds_wandering ht.alike x
  have hends : Action.run.Ends (fun v _ => v = .converged) (fun _ _ => False)
      wanderingSession := by
    refine ((run_stages _).and hsucceeds).mono ?_ fun _ _ h => h.2
    rintro v t ⟨⟨k, u, hu, -⟩, -⟩
    cases hu with
    | exhausted hu =>
      -- The first of a hundred iterations would already have been the last one.
      cases hu with
      | iterated hu h => cases iterate_wandering hu h
    | judged hu h => exact Option.some.inj (iterate_wandering hu h)
  show ∃ t, Action.run wanderingSession = _
  cases hrun : Action.run wanderingSession with
  | ok v t =>
    obtain rfl := hends.of_ok hrun
    exact ⟨t, rfl⟩
  | error e t => exact (hends.of_error hrun).elim

end Method

/-! ## Whole runs -/

/-- Every run tells the truth in what it shows, and one that succeeds accounts for where it ended,
whatever the objective, the options and the solver. -/
theorem Method.run_accounts [Numeral Exact] [Secant Exact τ] {M : Method Exact σ τ}
    (hB : B.Proper) {x : Array Exact} (hx : AllFinite x.toVector) {g : Array Exact} {k : Sink}
    (hends : ∀ i t, (M.session f B x g k).GetsTo i t → t.LeavesReal) :
    (∀ u ∈ (Session.after (M.run f B x g k)).journal.snapshots,
        ∃ a b : Fin n → ℝ, u.Describes f B a b) ∧
      ∀ v t, M.run f B x g k = .ok v t → Session.Accounts f B (M.session f B x g k) v t := by
  have hstart : (M.session f B x g k).RealStart f B := ⟨rfl, rfl, hB, rfl, rfl, hx, hends⟩
  refine ⟨?_, ?_⟩
  · exact Ends.after (hstart.run.mono (fun _ _ h => h.1) fun _ _ h => h)
  · intro v t hrun
    exact (hstart.run.of_ok hrun).2

/-- The default method over the unit interval with a solver that leaves it. -/
theorem Method.run_accounts_wandering :
    letI := Exact.unwritten
    let x := (vec fun _ : Fin 1 => 3).toArray
    Box.unit.Proper ∧ AllFinite x.toVector ∧
      (∀ i t, (wandering.session .falling .unit x #[] .unlimited).GetsTo i t → t.LeavesReal) ∧
      ∃ t, wandering.run .falling .unit x #[] .unlimited = .ok .converged t ∧
        (∀ u ∈ t.journal.snapshots, ∃ a b : Fin 1 → ℝ, u.Describes .falling .unit a b) ∧
        Session.Accounts .falling .unit (wandering.session .falling .unit x #[] .unlimited)
          .converged t := by
  let _ := Exact.unwritten
  have hx : AllFinite (vec fun _ : Fin 1 => 3).toArray.toVector :=
    (allFinite_toVector _).mpr (allFinite_vec _)
  obtain ⟨t, ht⟩ := exists_run_wandering
  obtain ⟨hshown, haccounts⟩ := Method.run_accounts (M := wandering) (f := .falling)
    (B := .unit) (g := #[]) (k := .unlimited) Box.regular_unit.proper hx leavesReal_of_getsTo
  rw [ht] at hshown
  exact ⟨Box.regular_unit.proper, hx, leavesReal_of_getsTo, t, ht, hshown, haccounts _ t ht⟩

end LogBarrier
