import LogBarrier.Proofs.Account
import LogBarrier.Proofs.Order
import Mathlib.Order.Bounds.Basic

/-!
# Streaks of stalled iterations

The state counts the latest iterations that were solved at the floor of the barrier parameter and
did not improve the stationarity. The count is described here by the snapshots alone: it is the
length of the longest series of such iterations that ends with the last one. Each snapshot shows the
barrier parameter of the next iteration, so iteration `i + 1` was solved with the one of
snapshot `i`, and its stationarity is compared with the snapshots up to `i`.
-/

namespace LogBarrier

open Scalar Exact LogBarrier.Action

/-! ## Streaks -/

/-- The last `j` of the numbers below `k` have the property `p`, and no more of them in a row. -/
def IsStreak (p : ℕ → Prop) (k j : ℕ) : Prop :=
  IsGreatest {j | j ≤ k ∧ ∀ i, k - j ≤ i → i < k → p i} j

section

variable {p : ℕ → Prop} {k j : ℕ}

theorem isStreak_zero (p : ℕ → Prop) : IsStreak p 0 0 := by
  constructor
  · exact ⟨le_rfl, fun i _ hi => absurd hi (Nat.not_lt_zero i)⟩
  · exact fun j hj => hj.1

theorem IsStreak.succ (h : IsStreak p k j) (hk : p k) : IsStreak p (k + 1) (j + 1) := by
  obtain ⟨⟨hle, hstreak⟩, hgreatest⟩ := h
  constructor
  · refine ⟨Nat.succ_le_succ hle, fun i hfrom hi => ?_⟩
    rcases Nat.lt_succ_iff_lt_or_eq.mp hi with hi | rfl
    · exact hstreak i (by omega) hi
    · exact hk
  · -- A longer series would have been longer without its last number already.
    rintro (_ | j') ⟨hle', hstreak'⟩
    · exact Nat.zero_le _
    · refine Nat.succ_le_succ (hgreatest ⟨Nat.le_of_succ_le_succ hle', fun i hfrom hi => ?_⟩)
      exact hstreak' i (by omega) (Nat.lt_succ_of_lt hi)

theorem isStreak_of_not (hk : ¬ p k) : IsStreak p (k + 1) 0 := by
  constructor
  · exact ⟨Nat.zero_le _, fun i hfrom hi => absurd hi (by omega)⟩
  · rintro j ⟨-, hstreak⟩
    by_contra hj
    exact hk (hstreak k (by omega) (Nat.lt_succ_self k))

end

/-! ## What the count says -/

namespace State

/-- The iteration between the snapshots `i` and `i + 1` was solved at the floor and did not improve
on the least stationarity before it. -/
structure Idles (floor : Exact) (l : List (State Exact)) (i : ℕ) : Prop where
  at_floor : ∃ t, l[i]? = some t ∧ t.mu = floor
  no_better : ∃ u best, l[i + 1]? = some u ∧ LeastOf (l.take (i + 1)) best ∧ ¬ u.gnorm < best

open Classical in
/-- The records that snapshot `k` of `l`, which is `u`, keeps of the snapshots up to it. -/
structure Counts (floor : Exact) (l : List (State Exact)) (k : ℕ) (u : State Exact) : Prop where
  best : LeastOf (l.take (k + 1)) u.bestGnorm
  stall : IsStreak (Idles floor l) k u.stall
  stall_le : u.stall ≤ (l.take k).countP fun t => t.mu = floor
  reset_above : ∀ i t, k = i + 1 → l[i]? = some t → floor < t.mu → u.stall = 0
  reset_improved : (∀ t ∈ l.take k, u.gnorm < t.gnorm) → u.stall = 0

/-- All snapshots keep correct records. -/
def CountsStreaks (floor : Exact) (l : List (State Exact)) : Prop :=
  ∀ k u, l[k]? = some u → Counts floor l k u

end State

/-! ## Traces -/

namespace Schedule

variable {s : Schedule Exact} {l : List (State Exact)} {k : ℕ} {t u : State Exact}

theorem Falls.atFloor_iff (h : s.Falls) (k : ℕ) :
    (s.after k).AtFloor ↔ (s.after k).value = s.floor := by
  obtain ⟨hle, hfloor, -⟩ := h.floor_le_value k
  unfold AtFloor
  rw [hfloor]
  constructor
  · intro hreached
    exact (OrderedScalar.eq_of_pos h.floor_pos hle hreached).symm
  · intro heq
    rw [heq]
    exact OrderedScalar.refl_of_lt h.floor_pos

/-- The count of a snapshot follows from what the one before it shows and what is the best so
far. -/
theorem Traced.idles_iff (h : s.Traced l) (hs : s.Falls) (ht : l[k]? = some t)
    (hu : l[k + 1]? = some u) (hbest : State.LeastOf (l.take (k + 1)) t.bestGnorm) :
    State.Idles s.floor l k ↔ (s.after k).AtFloor ∧ ¬ u.gnorm < t.bestGnorm := by
  rw [hs.atFloor_iff, ← h.mu k t ht]
  constructor
  · rintro ⟨⟨t', ht', hmu⟩, u', best, hu', hleast, hnot⟩
    rw [ht, Option.some.injEq] at ht'
    rw [hu, Option.some.injEq] at hu'
    subst ht' hu'
    rw [hbest.unique hleast]
    exact ⟨hmu, hnot⟩
  · rintro ⟨hmu, hnot⟩
    exact ⟨⟨t, ht, hmu⟩, u, _, hu, hbest, hnot⟩

theorem Traced.counts_first (h : s.Traced l) (hu : l[0]? = some u) :
    State.Counts s.floor l 0 u := by
  obtain ⟨hstall, hbest⟩ := h.opened u hu
  have hfirst : l.take (0 + 1) = [u] := by rw [List.take_add_one, hu]; rfl
  refine ⟨?_, ?_, ?_, fun i _ hi => absurd hi (Nat.succ_ne_zero i).symm, fun _ => hstall⟩
  · rw [hfirst, hbest]
    exact State.leastOf_singleton u
  · rw [hstall]
    exact isStreak_zero _
  · rw [hstall]
    exact Nat.zero_le _

/-- One more iteration either prolongs the streak or ends it. -/
theorem Traced.counts_next (h : s.Traced l) (hs : s.Falls) (ht : l[k]? = some t)
    (hu : l[k + 1]? = some u) (hcounts : State.Counts s.floor l k t) :
    State.Counts s.floor l (k + 1) u := by
  obtain ⟨hstall, hbest⟩ := h.stepped k t u ht hu
  have hidles := h.idles_iff hs ht hu hcounts.best
  have hleast : State.LeastOf (l.take (k + 1 + 1)) u.bestGnorm := by
    rw [List.take_add_one, hu, hbest]
    exact hcounts.best.concat u
  simp only [State.stallAfter, decide_eq_true_iff] at hstall
  by_cases hidle : State.Idles s.floor l k
  · -- Then the iteration was solved at the floor and improved nothing, so neither reset applies.
    rw [if_pos (hidles.mp hidle)] at hstall
    have hmu : t.mu = s.floor := by
      rw [h.mu k t ht]
      exact (hs.atFloor_iff k).mp (hidles.mp hidle).1
    refine ⟨hleast, ?_, ?_, ?_, ?_⟩
    · rw [hstall]
      exact hcounts.stall.succ hidle
    · rw [hstall, List.take_add_one, ht, List.countP_append]
      refine Nat.add_le_add hcounts.stall_le ?_
      simp [hmu]
    · rintro i t' hi ht' habove
      obtain rfl := Nat.succ.inj hi
      rw [ht, Option.some.injEq] at ht'
      rw [← ht', hmu] at habove
      exact absurd (OrderedScalar.le_of_lt habove) (OrderedScalar.not_le_of_lt habove)
    · intro himproved
      obtain ⟨v, hv, hgnorm⟩ := hcounts.best.attained
      refine absurd ?_ (hidles.mp hidle).2
      rw [← hgnorm]
      exact himproved v hv
  · rw [if_neg (hidles.not.mp hidle)] at hstall
    refine ⟨hleast, ?_, ?_, fun _ _ _ _ _ => hstall, fun _ => hstall⟩
    · rw [hstall]
      exact isStreak_of_not hidle
    · rw [hstall]
      exact Nat.zero_le _

/-- With a schedule that shrinks to a positive floor the snapshots keep correct records. -/
theorem Traced.countsStreaks (h : s.Traced l) (hs : s.Falls) : State.CountsStreaks s.floor l := by
  intro k
  induction k with
  | zero => exact fun u hu => h.counts_first hu
  | succ k ih =>
    intro u hu
    obtain ⟨hk, -⟩ := List.getElem?_eq_some_iff.mp hu
    have ht := List.getElem?_eq_getElem (Nat.lt_of_succ_lt hk)
    exact h.counts_next hs ht hu (ih _ ht)

end Schedule

/-! ## Runs and single steps -/

variable {σ τ : Type}

section

variable {α : Type} [Scalar α] [Numeral α]

/-- The method `M` has been put to work step by step: a run was opened and iterations were recorded,
all without a failure, at any points and on any objectives and boxes. The steps showed the snapshots
`l` and left the method `N` behind. -/
inductive Method.Records (M : Method α σ τ) : List (State α) → Method α σ τ → Prop
  | opened {n : ℕ} {s t : Session α σ τ n} {u : State α} (hs : s.method = M)
      (h : openRun s = .ok () t) (hu : t.journal.snapshots = s.journal.snapshots ++ [u]) :
      M.Records [u] t.method
  | recorded {n : ℕ} {s t : Session α σ τ n} {l : List (State α)} {u : State α}
      (hl : M.Records l s.method) (x : Array α) (h : record x s = .ok () t)
      (hu : t.journal.snapshots = s.journal.snapshots ++ [u]) : M.Records (l ++ [u]) t.method

/-- The last snapshot is the state that the method is left in. -/
theorem Method.Records.traced {M N : Method α σ τ} {l : List (State α)} (h : M.Records l N) :
    M.schedules.mu.Traced l ∧ ∃ k, l.length = k + 1 ∧ l[k]? = some N.state ∧
      N.schedules.mu = M.schedules.mu.after k := by
  induction h with
  | @opened n s t u hs h hu =>
    obtain ⟨x, g, v, ht⟩ := (openRun_ends s).of_ok h
    obtain rfl : t.method.state = u := by
      rw [ht.snapshots, List.append_cancel_left_eq] at hu
      exact List.singleton_inj.mp hu
    subst hs
    refine ⟨?_, 0, rfl, rfl, congrArg Schedules.mu ht.schedules⟩
    rw [ht.state]
    exact Schedule.traced_singleton rfl rfl rfl
  | @recorded n s t l u hl x h hu ih =>
    obtain ⟨y, g, v, -, ht⟩ := (record_ends s x).of_ok h
    obtain rfl : t.method.state = u := by
      rw [ht.snapshots, List.append_cancel_left_eq] at hu
      exact List.singleton_inj.mp hu
    obtain ⟨htraced, k, hlength, hlast, hmu⟩ := ih
    refine ⟨htraced.concat hlength hlast ?_ ?_ ?_, k + 1, ?_, ?_, ?_⟩
    · rw [ht.state, Schedule.after, ← hmu]
      rfl
    · rw [ht.state, ← hmu]
      rfl
    · rw [ht.state]
      rfl
    · rw [List.length_append, hlength]
      rfl
    · rw [← hlength, List.getElem?_concat_length]
    · rw [ht.schedules, Schedule.after, ← hmu]
      rfl

end

variable [Secant Exact τ] [Numeral Exact]

/-- In every run, whether it fails or not, and in every series of single steps the snapshots keep
the best stationarity so far and count the iterations of the current streak at the floor. -/
theorem Method.stall_counts_streaks {o : Options Exact} {M : Method Exact σ τ} (hM : M.From o) :
    (∀ {n : ℕ} (f : Objective Exact) (B : Box Exact n) (x g : Array Exact) (k : Sink),
        State.CountsStreaks o.muMin (Session.after (M.run f B x g k)).journal.snapshots) ∧
      ∀ (l : List (State Exact)) (N : Method Exact σ τ), M.Records l N →
        State.CountsStreaks o.muMin l := by
  have hfalls := hM.keeps.mu_falls
  have hfloor : M.schedules.mu.floor = o.muMin :=
    congrArg (fun plan => plan.mu.floor) hM.keeps.plan
  rw [← hfloor]
  constructor
  · intro n f B x g k
    exact M.run_follows.traced.countsStreaks hfalls
  · intro l N h
    exact h.traced.1.countsStreaks hfalls

/-- Over the unit interval a run can be opened and an iteration recorded at the right end. -/
theorem Method.exists_records_standard :
    ∃ (l : List (State Exact)) (N : Method Exact Unit (LimitedMemory Exact)),
      standard.Records l N ∧ l.length = 2 := by
  let s : Session Exact Unit (LimitedMemory Exact) 1 :=
    standard.session .falling .unit (vec fun _ : Fin 1 => 3).toArray #[] .unlimited
  obtain ⟨⟨⟩, t, ht⟩ := (openRun_succeeds (s := s) rfl Objective.opens_falling).exists_ok
  obtain ⟨x, g, v, hopened⟩ := (openRun_ends s).of_ok ht
  have hquiet : t.method.options.verbosity = 0 := congrArg Options.verbosity hopened.options
  have hobjective : t.augmented.objective = .falling := hopened.objective
  have hgradient := Objective.checkedGradient_falling fun _ : Fin 1 => 1
  have hvalue := Objective.checkedValue_falling fun _ : Fin 1 => 1
  rw [← hobjective] at hgradient hvalue
  obtain ⟨⟨⟩, u, hu⟩ := (record_succeeds hquiet hgradient hvalue).exists_ok
  obtain ⟨y, g', v', -, hrecorded⟩ := (record_ends t _).of_ok hu
  exact ⟨_, _, .recorded (.opened rfl ht hopened.snapshots) _ hu hrecorded.snapshots, rfl⟩

omit [Secant Exact τ] [Numeral Exact] in
theorem Method.stall_counts_streaks_standard :
    letI := Exact.unwritten
    Method.standard.From .standard ∧
      State.CountsStreaks (Options.standard : Options Exact).muMin
        (Session.after (Method.standard.run .zero (.free 1) #[1] #[0] .unlimited)).journal.snapshots ∧
      ∃ (l : List (State Exact)) (N : Method Exact Unit (LimitedMemory Exact)),
        Method.standard.Records l N ∧ l.length = 2 ∧
        State.CountsStreaks (Options.standard : Options Exact).muMin l := by
  let _ := Exact.unwritten
  obtain ⟨hruns, hsteps⟩ := Method.stall_counts_streaks Method.from_standard
  obtain ⟨l, N, hl, hlength⟩ := Method.exists_records_standard
  exact ⟨Method.from_standard, hruns .zero (.free 1) _ _ _, l, N, hl, hlength, hsteps l N hl⟩

end LogBarrier
