import LogBarrier.Proofs.Cut
import LogBarrier.Proofs.Trace

/-!
# The report as a table

A successful run that reports anything writes the lines with the name of its solver, one row for
each state that observers were shown, in their order, and the line that tells how it ended. The
names of the columns stand above the first row, and above every other one if they are repeated.
-/

namespace LogBarrier

open LogBarrier.Action

variable {α σ τ : Type} {n : Nat}

/-! ## Pieces -/

/-- What a report is put together from. -/
inductive Report.Piece (α : Type) where
  | title (solver : String)
  | header
  | row (t : State α)
  | closing (v : Status)

namespace Report.Piece

def isHeader : Piece α → Bool
  | .header => true
  | _ => false

/-- The state that a piece shows. -/
def shown? : Piece α → Option (State α)
  | .row t => some t
  | _ => none

variable [Numeral α]

def text : Piece α → String
  | .title solver => Report.title solver
  | .header => Report.header
  | .row t => Report.row t
  | .closing v => Report.closing v

def bytes (p : Piece α) : List UInt8 := p.text.toUTF8.data.toList

end Report.Piece

open Report (Piece)

namespace Options

/-- The names of the columns stand above every row. -/
abbrev RepeatsHeader (o : Options α) : Prop := o.printHeader ∨ 2 ≤ o.verbosity

/-- The pieces for a state after the first one. -/
def entry (o : Options α) (t : State α) : List (Piece α) :=
  if o.RepeatsHeader then [.header, .row t] else [.row t]

/-- The report of a run that showed the given states. -/
def table (o : Options α) (solver : String) (v : Status) : List (State α) → List (Piece α)
  | [] => [.closing v]
  | first :: later =>
    [.title solver, .header, .row first] ++ later.flatMap o.entry ++ [.closing v]

variable (o : Options α) (solver : String) (v : Status)

/-- The rows of a table show its states, one each. -/
theorem shown_table (shown : List (State α)) :
    (o.table solver v shown).filterMap Piece.shown? = shown := by
  have hentry (t : State α) : (o.entry t).filterMap Piece.shown? = [t] := by
    unfold entry
    split <;> rfl
  have hlater (later : List (State α)) :
      (later.flatMap o.entry).filterMap Piece.shown? = later := by
    induction later with
    | nil => rfl
    | cons t later ih => rw [List.flatMap_cons, List.filterMap_append, hentry, ih]; rfl
  cases shown with
  | nil => rfl
  | cons first later =>
    rw [table, List.filterMap_append, List.filterMap_append, hlater]
    exact List.append_nil (first :: later)

theorem countP_isHeader_table (first : State α) (later : List (State α)) :
    (o.table solver v (first :: later)).countP Piece.isHeader =
      if o.RepeatsHeader then later.length + 1 else 1 := by
  have hlater : (later.flatMap o.entry).countP Piece.isHeader =
      if o.RepeatsHeader then later.length else 0 := by
    induction later with
    | nil => split <;> rfl
    | cons t later ih =>
      rw [List.flatMap_cons, List.countP_append, ih, entry]
      by_cases h : o.RepeatsHeader
      · rw [if_pos h, if_pos h, if_pos h]
        exact Nat.add_comm 1 later.length
      · rw [if_neg h, if_neg h, if_neg h]
        rfl
  rw [table, List.countP_append, List.countP_append, hlater]
  split
  · exact Nat.add_comm 1 later.length
  · rfl

variable [Numeral α] {o}

/-- The bytes that a run writes are those of the table. -/
theorem bytes_table (ho : 1 ≤ o.verbosity) {shown : List (State α)} (hshown : shown ≠ []) :
    (o.table solver v shown).flatMap Piece.bytes =
      o.reportBytes solver shown ++ closingBytes o v := by
  have hentry (t : State α) : (o.entry t).flatMap Piece.bytes = o.rowBytes t := by
    rw [rowBytes, if_pos ho, entry]
    split <;> simp [Piece.bytes, Piece.text]
  have hlater (later : List (State α)) :
      (later.flatMap o.entry).flatMap Piece.bytes = later.flatMap o.rowBytes := by
    rw [List.flatMap_assoc]
    exact congrArg (later.flatMap ·) (funext hentry)
  cases shown with
  | nil => exact absurd rfl hshown
  | cons first later =>
    rw [table, reportBytes, openingBytes, closingBytes, if_pos ho, if_pos ho, List.flatMap_append,
      List.flatMap_append, hlater]
    simp [Piece.bytes, Piece.text]

end Options

/-! ## Runs -/

section

variable [Numeral α]

/-- The report of a run of the method that answered `v` and ended in `t`. -/
structure Method.Tabulates (M : Method α σ τ) (v : Status) (t : Session α σ τ n) : Prop where
  /-- One state is shown before the iterations and one by each of them. -/
  shown_length : t.journal.snapshots.length = t.method.state.iteration + 1
  shown_iteration (k : Nat) (u : State α) : t.journal.snapshots[k]? = some u → u.iteration = k
  output : t.journal.output =
    (M.options.table M.solver.name v t.journal.snapshots).flatMap Piece.bytes
  rows : (M.options.table M.solver.name v t.journal.snapshots).filterMap Piece.shown? =
    t.journal.snapshots
  headers : (M.options.table M.solver.name v t.journal.snapshots).countP Piece.isHeader =
    if M.options.RepeatsHeader then t.method.state.iteration + 1 else 1

end

namespace Method

variable [Scalar α] [Numeral α] [Secant α τ] {M : Method α σ τ} {f : Objective α} {B : Box α n}
  {x g : Array α}

/-- A run that succeeds has shown and written what it would with a sink that never fails. -/
theorem run_ok_unlimited {k : Sink} {v : Status} {t : Session α σ τ n}
    (h : M.run f B x g k = .ok v t) :
    ∃ u, M.run f B x g .unlimited = .ok v u ∧ u.method = t.method ∧ u.journal = t.journal := by
  obtain ⟨_ | r⟩ := k
  · exact ⟨t, h, rfl, rfl⟩
  obtain ⟨hfits, hfails, -⟩ := M.run_cut f B x g
  by_cases hroom : (Session.after (M.run f B x g .unlimited)).journal.output.length ≤ r
  · rw [hfits r hroom] at h
    cases hrun : M.run f B x g .unlimited with
    | error e u =>
      rw [hrun] at h
      cases h
    | ok w u =>
      rw [hrun] at h
      cases h
      exact ⟨u, rfl, rfl, rfl⟩
  · obtain ⟨u, hu, -⟩ := hfails r (Nat.lt_of_not_le hroom)
    rw [hu] at h
    cases h

/-- A run that succeeds writes the table of the states that it has shown, whatever the sink, and
without a report nothing is written. -/
theorem run_tabulates (M : Method α σ τ) (f : Objective α) (B : Box α n) (x g : Array α)
    (k : Sink) :
    (∀ v t, M.run f B x g k = .ok v t → 1 ≤ M.options.verbosity → M.Tabulates v t) ∧
      (M.options.verbosity = 0 → (Session.after (M.run f B x g k)).journal.output = []) := by
  refine ⟨fun v t h ho => ?_, fun ho => (M.run_cut f B x g).2.2 ho k |>.1⟩
  obtain ⟨last, hended, -⟩ := run_ended h
  have hlength := hended.snapshots_length
  obtain ⟨first, later, hshown⟩ : ∃ first later, t.journal.snapshots = first :: later := by
    refine List.exists_cons_of_length_pos ?_
    rw [hlength]
    exact Nat.succ_pos _
  obtain ⟨u, hu, -, hjournal⟩ := run_ok_unlimited h
  have htold := (run_tells (s := M.session f B x g .unlimited) ⟨rfl, rfl⟩ rfl).of_ok hu
  rw [hjournal] at htold
  refine ⟨hlength, fun i w hw => (hended.shown i w hw).iteration, ?_, Options.shown_table .., ?_⟩
  · rw [Options.bytes_table _ _ ho (by rw [hshown]; exact List.cons_ne_nil first later)]
    exact htold
  · rw [hshown, List.length_cons] at hlength
    rw [hshown, Options.countP_isHeader_table, Nat.succ.inj hlength]

/-- Two rows with a header each. -/
theorem exists_run_tabulated :
    ∃ (M : Method Float Unit (LimitedMemory Float)) (t : Session Float Unit _ 1),
      Method.ofOptions { Options.standard with verbosity := 2 } = .ok M ∧
      M.run .zero (.free 1) #[1] #[0] .unlimited = .ok .converged t ∧
      t.method.state.iteration = 1 ∧ M.Tabulates .converged t := by
  have h : (Method.ofOptions (α := Float)
      { Options.standard with verbosity := 2 }).toOption.any (fun M =>
        decide (M.options.verbosity = 2) && match M.run .zero (.free 1) #[1] #[0] .unlimited with
          | .ok v t => decide (v = .converged ∧ t.method.state.iteration = 1)
          | .error _ _ => false) = true := by
    decide +kernel
  cases hM : Method.ofOptions (α := Float) { Options.standard with verbosity := 2 } with
  | error e =>
    rw [hM] at h
    cases h
  | ok M =>
    rw [hM] at h
    obtain ⟨hverbosity, hrun⟩ := (Bool.and_eq_true ..).mp h
    replace hverbosity := of_decide_eq_true hverbosity
    cases ht : M.run .zero (.free 1) #[1] #[0] .unlimited with
    | error e t =>
      rw [ht] at hrun
      cases hrun
    | ok v t =>
      rw [ht] at hrun
      obtain ⟨rfl, hiteration⟩ := of_decide_eq_true hrun
      refine ⟨M, t, rfl, ht, hiteration, ?_⟩
      refine (M.run_tabulates .zero (.free 1) #[1] #[0] .unlimited).1 _ t ht ?_
      rw [hverbosity]
      decide

end Method

end LogBarrier
