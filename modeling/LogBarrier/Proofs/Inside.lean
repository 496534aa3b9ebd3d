import LogBarrier.Proofs.Inward
import LogBarrier.Proofs.Opening
import LogBarrier.Proofs.Standard

/-!
# Runs that stay inside

With exact arithmetic, a run whose solver stays inside the box asks the caller's objective at
interior points only, shows no other point and ends at none, whether it fails or not. It starts at
such a point because the start is moved inside, and an iterate that is projected stays where the
solver left it.
-/

namespace LogBarrier

open Scalar Exact LogBarrier.Action

variable {σ τ : Type} {n : ℕ} {B : Box Exact n}

theorem Box.Regular.opening_eq_ok (hB : B.Regular) (x : Vector Exact n) :
    B.opening x.toArray = .ok (B.inset x) :=
  Box.opening_of_nonempty hB.not_isEmpty x

/-- What a session has asked, shown and reached lies inside. Its state is recorded there, or it is
the marked one of before the run. -/
structure Session.StaysInside (B : Box Exact n) (before : State Exact) (s : Session Exact σ τ n) :
    Prop where
  calls : ∀ c ∈ s.journal.calls, B.Admits c
  shown : ∀ u ∈ s.journal.snapshots, B.Inside u.x
  point : B.Inside s.x
  state : B.Inside s.method.state.x ∨
    s.journal.snapshots = [] ∧ s.method.state = { before with status := .faulted }

variable [Secant Exact τ] [RealSecant τ]

/-- A session between two iterations. -/
structure Session.Inward (B : Box Exact n) (s : Session Exact σ τ n) : Prop where
  box : s.augmented.box = B
  solver : s.method.solver.Inward
  secant : SoundSecant s.method.secant
  calls : ∀ c ∈ s.journal.calls, B.Admits c
  shown : ∀ u ∈ s.journal.snapshots, B.Inside u.x
  point : ∃ x : Vector Exact n, s.x = x.toArray ∧ B.Interior x
  state : B.Inside s.method.state.x

namespace Session

variable {s t : Session Exact σ τ n}

/-! ## One step -/

theorem Inward.solution_asks (h : s.Inward B) (hB : B.Regular) {x : Vector Exact n}
    (hx : B.Interior x) :
    (s.solution x).Asks B.Admits fun r => B.Inside r.x ∧ SoundSecant r.secant := by
  obtain rfl := h.box
  exact h.solver.solve (s.augmented.inward hB) hB _ hx _ h.secant

/-- The solver ends inside, where projecting changes nothing. -/
theorem Inward.interior_ended (h : s.Inward B) (hB : B.Regular) {x y : Vector Exact n}
    (hx : B.Interior x) (hy : ∃ z : Vector Exact n,
      (s.solution x).result.x = z.toArray ∧ y = s.augmented.box.project z) : B.Interior y := by
  obtain ⟨-, ⟨z, hz, hin⟩, -⟩ := h.solution_asks hB hx
  obtain ⟨z', hz', rfl⟩ := hy
  obtain rfl := Vector.toArray_inj.mp (hz.symm.trans hz')
  rwa [h.box, hB.project_of_interior hin]

theorem Inward.admits_solution (h : s.Inward B) (hB : B.Regular) {x : Vector Exact n}
    (hx : B.Interior x) : ∀ c ∈ s.journal.calls ++ (s.solution x).calls, B.Admits c :=
  List.forall_mem_append.mpr ⟨h.calls, (h.solution_asks hB hx).1⟩

/-- Both questions about an iterate, or the first of them. -/
theorem admits_of_mem {x : Vector Exact n} (hx : B.Interior x) {c : Call Exact}
    (hc : c = .gradient x.toArray ∨ c = .value x.toArray) : B.Admits c := by
  obtain rfl | rfl := hc
  · exact hx.inside
  · exact hx.inside

theorem Inward.iterated (h : s.Inward B) (hB : B.Regular) {x y g : Vector Exact n} {v : Exact}
    {report : SolveReport} (hx : B.Interior x) (ht : s.Iterated x y g v report t) :
    t.Inward B := by
  have hin := h.interior_ended hB hx ht.ended
  have hstate : t.method.state.x = y.toArray := congrArg State.x ht.state
  have hshown : B.Inside t.method.state.x := hstate ▸ hin.inside
  exact {
    box := ht.box.trans h.box
    solver := by
      rw [ht.solver]
      exact h.solver
    secant := by
      rw [ht.secant]
      exact (h.solution_asks hB hx).2.2
    calls := by
      rw [ht.calls, List.forall_mem_append]
      exact ⟨h.admits_solution hB hx, fun c hc => admits_of_mem hin (by simpa using hc)⟩
    shown := by
      rw [ht.snapshots, List.forall_mem_append, List.forall_mem_singleton]
      exact ⟨h.shown, hshown⟩
    point := ⟨y, ht.point, hin⟩
    state := hshown }

theorem Inward.notIterated (h : s.Inward B) (hB : B.Regular) {x : Vector Exact n} {e : Failure}
    (hx : B.Interior x) (ht : s.NotIterated x e t) (before : State Exact) :
    t.StaysInside B before := by
  have hasked := h.admits_solution hB hx
  cases ht with
  | notSolved ht =>
    refine ⟨?_, ?_, ?_, .inl ?_⟩
    · rw [ht.calls]
      exact hasked
    · rw [ht.snapshots]
      exact h.shown
    · rw [ht.point]
      exact (h.solution_asks hB hx).2.1
    · obtain ⟨-, hstate⟩ | ⟨-, hstate⟩ := ht.reached
      · rw [hstate]
        exact h.state
      · rw [hstate]
        exact h.state
  | notRecorded hu ht =>
    have hin := h.interior_ended hB hx hu.ended
    refine ⟨?_, ?_, ?_, .inl ?_⟩
    · obtain ⟨cs, hcs, hmem⟩ := ht.calls
      rw [hcs, hu.calls, List.forall_mem_append]
      exact ⟨hasked, fun c hc => admits_of_mem hin (hmem c hc)⟩
    · rw [ht.snapshots, hu.snapshots]
      exact h.shown
    · rw [ht.point, hu.point]
      exact hin.inside
    · -- The state is the one of before the iteration, or it is recorded at the new point.
      obtain hstate | ⟨hstate, -⟩ := ht.state
      · rw [hstate, hu.state]
        exact h.state
      · rw [hstate]
        exact hin.inside

/-- A session that nothing has been asked in yet. -/
structure Starts (B : Box Exact n) (x : Vector Exact n) (s : Session Exact σ τ n) : Prop where
  box : s.augmented.box = B
  solver : s.method.solver.Inward
  secant : SoundSecant s.method.secant
  calls : s.journal.calls = []
  snapshots : s.journal.snapshots = []
  point : s.x = x.toArray

theorem Starts.opened {x : Vector Exact n} (h : s.Starts B x) (hB : B.Regular) (hx : AllFinite x)
    {y g : Vector Exact n} {v : Exact} (ht : s.Opened y g v t) : t.Inward B := by
  have hopening := ht.opening
  rw [h.box, h.point, hB.opening_eq_ok] at hopening
  cases hopening
  have hin := hB.interior_inset hx
  have hstate : t.method.state.x = (B.inset x).toArray := congrArg State.x ht.state
  have hshown : B.Inside t.method.state.x := hstate ▸ hin.inside
  exact {
    box := ht.box.trans h.box
    solver := by
      rw [ht.solver]
      exact h.solver
    secant := by
      rw [ht.secant]
      exact h.secant
    calls := by
      rw [ht.calls, h.calls, List.nil_append]
      intro c hc
      exact admits_of_mem hin (by simpa using hc)
    shown := by
      rw [ht.snapshots, h.snapshots, List.nil_append, List.forall_mem_singleton]
      exact hshown
    point := ⟨_, ht.point, hin⟩
    state := hshown }

theorem Starts.notOpened {x : Vector Exact n} (h : s.Starts B x) (hB : B.Regular)
    (hx : AllFinite x) (ht : s.NotOpened t) : t.StaysInside B s.method.state := by
  have hin := hB.interior_inset hx
  have hnone : t.journal.snapshots = [] := ht.snapshots.trans h.snapshots
  obtain ⟨hempty, -⟩ | ⟨y, hopening, hpoint, ⟨cs, hcs, hmem⟩, hstate⟩ := ht.reached
  · -- The box is not empty, so there is a point to open the run at.
    rw [h.box, h.point] at hempty
    exact absurd (hB.opening_eq_ok x) (hempty _)
  rw [h.box, h.point, hB.opening_eq_ok] at hopening
  cases hopening
  refine ⟨?_, ?_, ?_, ?_⟩
  · rw [hcs, h.calls, List.nil_append]
    exact fun c hc => admits_of_mem hin (hmem c hc)
  · rw [hnone]
    exact List.forall_mem_nil _
  · rw [hpoint]
    exact hin.inside
  · obtain hstate | ⟨hstate, -⟩ := hstate
    · exact .inr ⟨hnone, hstate⟩
    · exact .inl (hstate ▸ hin.inside)

variable [Numeral Exact]

/-- A whole run, by way of its iterations. -/
theorem Starts.run {x : Vector Exact n} (h : s.Starts B x) (hB : B.Regular) (hx : AllFinite x) :
    (Session.after (Action.run s)).StaysInside B s.method.state := by
  refine Ends.after (P := fun t => t.StaysInside B s.method.state) ?_
  refine ends_run (fun _ t => t.Inward B) (fun _ t => t.Inward B) ?_ ?_ (fun _ ht => ht) ?_
  · refine (openRun_ends s).mono ?_ fun e t ht => h.notOpened hB hx ht
    rintro - t ⟨y, g, v, ht⟩
    exact h.opened hB hx ht
  · rintro k t - ht
    obtain ⟨y, hy, hin⟩ := ht.point
    refine (iterate_ends hy).mono ?_ fun e u hu => ht.notIterated hB hin hu _
    rintro (_ | status) u ⟨-, z, g, v, report, hu⟩
    · exact ht.iterated hB hin hu
    · exact ht.iterated hB hin hu
  · intro status t ht
    have hclosed {u : Session Exact σ τ n} (hu : t.Closed status u) :
        u.StaysInside B s.method.state := by
      refine ⟨?_, ?_, ?_, .inl ?_⟩
      · rw [hu.calls]
        exact ht.calls
      · rw [hu.snapshots]
        exact ht.shown
      · rw [hu.point]
        exact ht.point
      · rw [hu.state]
        exact ht.state
    exact (close_ends t status).mono (fun _ u hu => hclosed hu.2) fun _ u hu => hclosed hu.2

end Session

/-! ## The solvers of the library -/

theorem SolverChoice.inward {o : Options Exact} (ho : o.Valid) (c : SolverChoice) :
    (c.solver o : Solver Exact Unit τ).Inward := by
  obtain ⟨r, hr⟩ := exists_real_of_le_of_le (lt_iff_le_not_le.mp ho.backtrackingRate.1).1
    (lt_iff_le_not_le.mp ho.backtrackingRate.2).1
  have hrate : IsFinite (LineSearch.ofOptions o).rate := isFinite_iff.mpr ⟨r, hr⟩
  cases c with
  | spectral => exact Solver.spectral_inward hrate
  | quasiNewton => exact Solver.quasiNewton_inward hrate

/-- Whatever the objective, the sink and the earlier runs, and with any secant or none: a run from a
real point over a box that is not empty stays strictly inside it. -/
theorem Method.run_stays_inside [Numeral Exact] {o : Options Exact} {M : Method Exact Unit τ}
    (hM : M.From o) {c : SolverChoice} (hc : M.solver = c.solver o) (hB : B.Regular)
    {x : Vector Exact n} (hx : AllFinite x) (f : Objective Exact) (g : Array Exact) (k : Sink) :
    (Session.after (M.run f B x.toArray g k)).StaysInside B M.state := by
  refine Session.Starts.run (x := x) (s := M.session f B x.toArray g k) ?_ hB hx
  exact {
    box := rfl
    solver := by
      show M.solver.Inward
      rw [hc]
      exact c.inward hM.keeps.valid
    secant := by
      intro h hh
      obtain ⟨h, -, rfl⟩ := Option.map_eq_some_iff.mp hh
      exact RealSecant.sound_reset h
    calls := rfl
    snapshots := rfl
    point := rfl }

theorem Box.regular_between {l u : Fin n → ℝ} (h : ∀ i, l i ≤ u i) :
    (Box.between (vec l) (vec u)).Regular := by
  intro i
  rw [side_between, get_vec, get_vec]
  exact .between (h i)

/-- The default method over the unit interval, started outside of it. -/
theorem Method.run_stays_inside_standard :
    letI := Exact.unwritten
    let B := Box.between (vec fun _ : Fin 1 => 0) (vec fun _ => 1)
    let x := vec fun _ : Fin 1 => 5
    Method.standard.From .standard ∧
      Method.standard.solver = SolverChoice.spectral.solver .standard ∧ B.Regular ∧ AllFinite x ∧
      (Session.after (Method.standard.run .zero B x.toArray #[0] .unlimited)).StaysInside B
        Method.standard.state :=
  letI := Exact.unwritten
  have hB : (Box.between (vec fun _ : Fin 1 => 0) (vec fun _ => 1)).Regular :=
    Box.regular_between fun _ => zero_le_one
  ⟨Method.from_standard, rfl, hB, allFinite_vec _,
    Method.run_stays_inside (c := .spectral) Method.from_standard rfl hB (allFinite_vec _) ..⟩

end LogBarrier
