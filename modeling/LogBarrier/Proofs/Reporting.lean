import LogBarrier.Proofs.Iterating
import LogBarrier.Proofs.Outcome

/-!
# What a run reports

A sink that never fails is told of every state that observers are shown: the lines that open the
report and a row for the first one, a row for each of the others. An iteration that fails leaves
nothing in it, and the closing line comes last.
-/

namespace LogBarrier

open Scalar LogBarrier.Action

variable {α σ τ β : Type} {n : Nat}

/-! ## What is neither written nor shown -/

namespace Session

/-- `t` comes from `s` without a byte for the report and without a state for the observers. -/
structure Silent (s t : Session α σ τ n) : Prop where
  options : t.method.options = s.method.options
  solver : t.method.solver = s.method.solver
  sink : t.sink = s.sink
  output : t.journal.output = s.journal.output
  snapshots : t.journal.snapshots = s.journal.snapshots

variable {s t u : Session α σ τ n}

theorem Silent.trans (h : s.Silent t) (h' : t.Silent u) : s.Silent u :=
  ⟨h'.options.trans h.options, h'.solver.trans h.solver, h'.sink.trans h.sink,
    h'.output.trans h.output, h'.snapshots.trans h.snapshots⟩

theorem silent_fault (s : Session α σ τ n) : s.Silent s.fault :=
  ⟨rfl, rfl, rfl, s.output_fault, s.snapshots_fault⟩

theorem silent_charge (m : Metered α β) (s : Session α σ τ n) : s.Silent (s.charge m) :=
  ⟨rfl, rfl, rfl, by simp, by simp⟩

theorem silent_movedTo (s : Session α σ τ n) (x : Vector α n) : s.Silent (s.movedTo x) :=
  ⟨rfl, rfl, rfl, by simp [movedTo, Event.bytes], by simp [movedTo, Event.snapshot?]⟩

theorem silent_gradedAt (s : Session α σ τ n) (x g : Vector α n) : s.Silent (s.gradedAt x g) :=
  (s.silent_movedTo x).trans
    ⟨rfl, rfl, rfl, by simp [gradedAt, Event.bytes], by simp [gradedAt, Event.snapshot?]⟩

variable [Scalar α]

theorem silent_openedAt (s : Session α σ τ n) (x g : Vector α n) (v : α) :
    s.Silent (s.openedAt x g v) :=
  (s.silent_gradedAt x g).trans ⟨rfl, rfl, rfl, rfl, rfl⟩

theorem silent_asked (s : Session α σ τ n) (x : Vector α n) : s.Silent (s.asked x) :=
  ⟨rfl, rfl, rfl, by simp [asked, Event.bytes], by simp [asked, Event.snapshot?]⟩

theorem silent_landedAt (s : Session α σ τ n) (x y : Vector α n) (report : SolveReport) :
    s.Silent (s.landedAt x y report) := by
  refine (s.silent_asked x).trans ⟨rfl, rfl, rfl, ?_, ?_⟩
  · unfold landedAt warning
    split <;> simp [Event.bytes]
  · unfold landedAt warning
    split <;> simp [Event.snapshot?]

theorem silent_valuedAt (s : Session α σ τ n) (x g : Vector α n) : s.Silent (s.valuedAt x g) :=
  ⟨rfl, rfl, rfl, by simp [valuedAt, Event.bytes], by simp [valuedAt, Event.snapshot?]⟩

theorem silent_recordedAt (s : Session α σ τ n) (x g : Vector α n) (v : α) :
    s.Silent (s.recordedAt x g v) :=
  ⟨rfl, rfl, rfl, by simp [recordedAt, Event.bytes], by simp [recordedAt, Event.snapshot?]⟩

end Session

/-! ## The report of a series of states -/

variable [Numeral α]

namespace Options

/-- The lines that open the report of a solver, with the row of the first state. -/
def openingBytes (o : Options α) (solver : String) (t : State α) : List UInt8 :=
  if 1 ≤ o.verbosity then
    (Report.title solver).toUTF8.data.toList ++ Report.header.toUTF8.data.toList ++
      (Report.row t).toUTF8.data.toList
  else []

/-- The row of a later state, below the names of the columns if they are repeated. -/
def rowBytes (o : Options α) (t : State α) : List UInt8 :=
  if 1 ≤ o.verbosity then
    (if o.printHeader ∨ 2 ≤ o.verbosity then Report.header.toUTF8.data.toList else []) ++
      (Report.row t).toUTF8.data.toList
  else []

def reportBytes (o : Options α) (solver : String) : List (State α) → List UInt8
  | [] => []
  | first :: later => o.openingBytes solver first ++ later.flatMap o.rowBytes

theorem reportBytes_concat (o : Options α) (solver : String) {shown : List (State α)}
    (hshown : shown ≠ []) (t : State α) :
    o.reportBytes solver (shown ++ [t]) = o.reportBytes solver shown ++ o.rowBytes t := by
  cases shown with
  | nil => exact absurd rfl hshown
  | cons first later => simp [reportBytes]

theorem reportBytes_quiet {o : Options α} (ho : o.verbosity = 0) (solver : String)
    (shown : List (State α)) : o.reportBytes solver shown = [] := by
  cases shown with
  | nil => rfl
  | cons first later => simp [reportBytes, openingBytes, rowBytes, ho]

end Options

/-! ## One state -/

namespace Session

/-- A report that cannot fail has written the bytes and shown the state. -/
structure Reports (bytes : List UInt8) (s t : Session α σ τ n) : Prop where
  method : t.method = s.method
  sink : t.sink = s.sink
  output : t.journal.output = s.journal.output ++ bytes
  snapshots : t.journal.snapshots = s.journal.snapshots ++ [s.method.state]

/-- The sink never fails and was told of all that was shown, and of nothing else. -/
structure Told (s : Session α σ τ n) : Prop where
  sink : s.sink = .unlimited
  output : s.journal.output =
    s.method.options.reportBytes s.method.solver.name s.journal.snapshots

variable {s t : Session α σ τ n}

theorem Told.of_silent (h : s.Told) (ht : s.Silent t) : t.Told where
  sink := ht.sink.trans h.sink
  output := by rw [ht.output, ht.options, ht.solver, ht.snapshots, h.output]

theorem Told.opening (h : s.Told) (hnone : s.journal.snapshots = [])
    (ht : Reports (s.method.options.openingBytes s.method.solver.name s.method.state) s t) :
    t.Told where
  sink := ht.sink.trans h.sink
  output := by
    rw [ht.output, h.output, ht.method, ht.snapshots, hnone]
    simp [Options.reportBytes]

theorem Told.next (h : s.Told) (hsome : s.journal.snapshots ≠ [])
    (ht : Reports (s.method.options.rowBytes s.method.state) s t) : t.Told where
  sink := ht.sink.trans h.sink
  output := by
    rw [ht.output, h.output, ht.method, ht.snapshots, Options.reportBytes_concat _ _ hsome]

end Session

namespace Action

variable [Scalar α] {s : Session α σ τ n}

theorem announce_reports (hs : s.sink = .unlimited) :
    announce.Ends (fun _ t => Session.Reports
      (s.method.options.openingBytes s.method.solver.name s.method.state) s t)
      (fun _ _ => False) s := by
  unfold announce Options.openingBytes
  rw [ends_bind, ends_get, ends_ite]
  refine ⟨fun hverbose => ?_, fun hquiet => ?_⟩
  · rw [if_pos hverbose, ends_bind, ends_write_of_unlimited hs, ends_bind,
      ends_write_of_unlimited, ends_bind, ends_write_of_unlimited]
    · refine ⟨rfl, rfl, ?_, ?_⟩
      · simp [Event.bytes]
      · simp [Event.snapshot?]
    · exact hs
    · exact hs
  · rw [if_neg hquiet]
    refine ⟨rfl, rfl, ?_, ?_⟩
    · simp [Event.bytes]
    · simp [Event.snapshot?]

theorem publish_reports (hs : s.sink = .unlimited) :
    publish.Ends (fun _ t => Session.Reports (s.method.options.rowBytes s.method.state) s t)
      (fun _ _ => False) s := by
  unfold publish Options.rowBytes
  rw [ends_bind, ends_get, ends_ite]
  refine ⟨fun hverbose => ?_, fun hquiet => ?_⟩
  · rw [if_pos hverbose, ends_ite]
    refine ⟨fun hheader => ?_, fun hheader => ?_⟩
    · rw [if_pos hheader, ends_bind, ends_write_of_unlimited hs, ends_bind,
        ends_write_of_unlimited]
      · refine ⟨rfl, rfl, ?_, ?_⟩
        · simp [Event.bytes]
        · simp [Event.snapshot?]
      · exact hs
    · rw [if_neg hheader, ends_bind, ends_write_of_unlimited hs]
      refine ⟨rfl, rfl, ?_, ?_⟩
      · simp [Event.bytes]
      · simp [Event.snapshot?]
  · rw [if_neg hquiet]
    refine ⟨rfl, rfl, ?_, ?_⟩
    · simp [Event.bytes]
    · simp [Event.snapshot?]

omit [Numeral α] in
/-- The end of an iteration neither writes nor shows, and does not fail. -/
theorem settle_silent (s : Session α σ τ n) :
    settle.Ends (fun _ t => s.Silent t) (fun _ _ => False) s := by
  unfold settle
  rw [ends_bind, ends_modify, ends_bind, ends_get]
  dsimp only
  split
  · exact ⟨rfl, rfl, rfl, by simp [Event.bytes], by simp [Event.snapshot?]⟩
  · exact ⟨rfl, rfl, rfl, rfl, rfl⟩

/-! ## The stages of a run -/

theorem openRun_told (h : s.Told) (hnone : s.journal.snapshots = []) :
    openRun.Ends (fun _ t => t.Told ∧ t.journal.snapshots ≠ [])
      (fun _ t => t.Told) s := by
  unfold Ends
  rw [openRun_apply]
  cases s.augmented.box.opening s.x with
  | error e => exact h.of_silent s.silent_fault
  | ok x =>
    dsimp only
    cases s.augmented.objective.checkedGradient x with
    | error e => exact (h.of_silent (s.silent_movedTo x)).of_silent (Session.silent_fault _)
    | ok g =>
      dsimp only
      cases s.augmented.objective.checkedValue x.toArray with
      | error e => exact (h.of_silent (s.silent_gradedAt x g)).of_silent (Session.silent_fault _)
      | ok v =>
        have hopen := s.silent_openedAt x g v
        have htold := h.of_silent hopen
        have hreport : (faulting announce).Ends (fun _ t => t.Told ∧ t.journal.snapshots ≠ [])
            (fun _ t => t.Told) (s.openedAt x g v) := by
          rw [ends_faulting]
          refine (announce_reports htold.sink).mono (fun _ t ht => ?_) fun _ _ h => h.elim
          refine ⟨htold.opening (hopen.snapshots.trans hnone) ht, ?_⟩
          rw [ht.snapshots]
          exact List.concat_ne_nil _ _
        exact hreport

theorem record_told (h : s.Told) (hsome : s.journal.snapshots ≠ []) (y : Vector α n) :
    (record y.toArray).Ends (fun _ t => t.Told ∧ t.journal.snapshots ≠ [])
      (fun _ t => s.Silent t) s := by
  unfold Ends
  rw [record_apply]
  cases s.augmented.objective.checkedGradient y with
  | error e => exact (Session.silent_charge _ s).trans (Session.silent_fault _)
  | ok g =>
    dsimp only
    cases s.augmented.objective.checkedValue y.toArray with
    | error e => exact (s.silent_valuedAt y g).trans (Session.silent_fault _)
    | ok v =>
      have hrecorded := s.silent_recordedAt y g v
      have htold := h.of_silent hrecorded
      have hreport : (faulting publish).Ends (fun _ t => t.Told ∧ t.journal.snapshots ≠ [])
          (fun _ t => s.Silent t) (s.recordedAt y g v) := by
        rw [ends_faulting]
        refine (publish_reports htold.sink).mono (fun _ t ht => ?_) fun _ _ h => h.elim
        refine ⟨htold.next (hrecorded.snapshots.symm ▸ hsome) ht, ?_⟩
        rw [ht.snapshots]
        exact List.concat_ne_nil _ _
      exact hreport

/-- An iteration tells of the state that it shows, and one that fails does neither. -/
theorem iterate_told (h : s.Told) (hsome : s.journal.snapshots ≠ []) {x : Vector α n}
    (hx : s.x = x.toArray) :
    iterate.Ends (fun _ t => t.Told ∧ t.journal.snapshots ≠ []) (fun _ t => s.Silent t) s := by
  unfold Ends
  rw [iterate_apply hx]
  cases (s.solution x).result.outcome with
  | error e => exact (s.silent_asked x).trans (Session.silent_fault _)
  | ok report =>
    dsimp only
    cases sized n (s.solution x).result.x with
    | error e => exact s.silent_asked x
    | ok z =>
      have hlanded := s.silent_landedAt x (s.augmented.box.project z) report
      have hrest : (record (s.augmented.box.project z).toArray >>= fun _ => settle).Ends
          (fun _ t => t.Told ∧ t.journal.snapshots ≠ []) (fun _ t => s.Silent t)
          (s.landedAt x (s.augmented.box.project z) report) := by
        rw [ends_bind]
        refine (record_told (h.of_silent hlanded) (hlanded.snapshots.symm ▸ hsome) _).mono
          ?_ fun _ t ht => hlanded.trans ht
        rintro - t ⟨ht, hshown⟩
        refine (settle_silent t).mono (fun _ u hu => ?_) fun _ _ h => h.elim
        exact ⟨ht.of_silent hu, hu.snapshots.symm ▸ hshown⟩
      exact hrest

/-- As long as a run is not closed its report is that of the states shown. -/
theorem body_told (h : s.Told) (hnone : s.journal.snapshots = []) :
    body.Ends (fun _ t => t.Told) (fun _ t => t.Told) s := by
  unfold body
  rw [ends_bind]
  refine ((openRun_told h hnone).and (openRun_ends s)).mono ?_ fun _ _ h => h.1
  rintro - t ⟨⟨ht, hshown⟩, x, g, v, hopened⟩
  rw [ends_bind, ends_get]
  refine ends_loop
    (fun _ t => (t.Told ∧ t.journal.snapshots ≠ []) ∧ ∃ x : Vector α n, t.x = x.toArray)
    ?_ (fun t ht => ht.1.1) (Nat.zero_add _) ⟨⟨ht, hshown⟩, x, hopened.point⟩
  rintro k u - ⟨⟨hu, hsome⟩, y, hy⟩
  refine ((iterate_told hu hsome hy).and (iterate_ends hy)).mono ?_ ?_
  · rintro (_ | status) w ⟨hw, -, z, g, v, report, hit⟩
    · exact ⟨hw, z, hit.point⟩
    · exact hw.1
  · rintro e w ⟨hw, -⟩
    exact hu.of_silent hw

end Action

/-! ## Whole runs -/

/-- A run whose sink never fails writes the report of the states it has shown, and the closing line
if it succeeds. -/
theorem Action.run_tells [Scalar α] {s : Session α σ τ n} (h : s.Told)
    (hnone : s.journal.snapshots = []) :
    run.Ends
      (fun v t => t.journal.output =
        s.method.options.reportBytes s.method.solver.name t.journal.snapshots ++
          closingBytes s.method.options v)
      (fun _ t => t.journal.output =
        s.method.options.reportBytes s.method.solver.name t.journal.snapshots) s := by
  have halike := run_alike s
  rw [run_eq_body_bind_close, ends_bind] at halike ⊢
  refine ((body_told h hnone).and (halike.and (body_ends s))).mono ?_ ?_
  · rintro v t ⟨ht, -, halike, -⟩
    obtain ⟨u, hu, houtput⟩ := close_of_unlimited ht.sink v
    have hclosed := ((close_ends t v).of_ok hu).2
    unfold Ends
    rw [hu]
    dsimp only
    rw [houtput, ht.output, hclosed.snapshots, halike.options, halike.solver]
  · rintro e t ⟨ht, halike, -⟩
    rw [ht.output, halike.options, halike.solver]

end LogBarrier
