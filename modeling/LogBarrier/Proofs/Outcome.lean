import LogBarrier.Double.Read
import LogBarrier.Proofs.Room
import LogBarrier.Proofs.Steps

/-!
# The outcome of a run

What the state says after a run. It agrees with the answer of the run except when the report sink
runs out of room in the closing line, which is written after the state has been settled.
-/

namespace LogBarrier

open Scalar LogBarrier.Action

variable {α σ τ : Type} [Scalar α] [Numeral α] {n : Nat}

/-! ## Before the closing line -/

/-- Whatever goes wrong before the closing line marks the run as faulted. -/
theorem Action.body_ends (s : Session α σ τ n) :
    body.Ends (fun v t => s.Alike t ∧ v ∈ [Status.converged, .iterationLimit, .stalled])
      (fun e t => ∀ e', e = .error e' → t.method.state.status = .faulted) s := by
  unfold body
  rw [ends_bind]
  refine (openRun_ends s).mono ?_ fun e t h e' _ => h.status
  rintro - t ⟨x, g, v, hopened⟩
  rw [ends_bind, ends_get]
  refine ends_loop (fun _ t => s.Alike t ∧ ∃ x : Vector α n, t.x = x.toArray) ?_ ?_
    (Nat.zero_add _) ⟨hopened.toAlike, x, hopened.point⟩
  · rintro k u - ⟨hu, y, hy⟩
    refine (iterate_ends hy).mono ?_ ?_
    · rintro v w ⟨hv, z, g, value, report, hit⟩
      have hw := hu.trans hit.toAlike
      cases v with
      | none => exact ⟨hw, z, hit.point⟩
      | some status =>
        refine ⟨hw, ?_⟩
        unfold Session.verdict? Options.verdict? at hv
        split at hv
        · cases hv
          simp
        · split at hv
          · cases hv
            simp
          · cases hv
    · -- The one failure of an iteration that is not marked is a length mismatch.
      rintro e w (h | ⟨-, h⟩) e' rfl
      · obtain ⟨-, hstate⟩ | ⟨he, -⟩ := h.reached
        · rw [hstate]
        · cases he
      · exact h.status
  · rintro u ⟨hu, -⟩
    exact ⟨hu, by simp⟩

/-! ## The closing line -/

/-- The bytes of the closing line. -/
def closingBytes (o : Options α) (v : Status) : List UInt8 :=
  if 1 ≤ o.verbosity then (Report.closing v).toUTF8.data.toList else []

omit [Scalar α] [Numeral α] in
theorem Action.close_of_unlimited {s : Session α σ τ n} (hs : s.sink = .unlimited)
    (v : Status) :
    ∃ t, close v s = .ok v t ∧
      t.journal.output = s.journal.output ++ closingBytes s.method.options v := by
  have h : (close v).Ends (fun w t => w = v ∧ t.journal.output =
      s.journal.output ++ closingBytes s.method.options v) (fun _ _ => False) s := by
    unfold close closingBytes
    simp only [ends_bind, ends_get, ends_modify, ends_note]
    rw [ends_ite]
    refine ⟨fun hv => ?_, fun hv => ?_⟩
    · rw [ends_bind, ends_write_of_unlimited]
      · refine ⟨rfl, ?_⟩
        change 1 ≤ s.method.options.verbosity at hv
        simp [hv, Event.bytes]
      · exact hs
    · refine ⟨rfl, ?_⟩
      change ¬ 1 ≤ s.method.options.verbosity at hv
      simp [hv, Event.bytes]
  cases hrun : close v s with
  | error e t => exact (h.of_error hrun).elim
  | ok w t =>
    obtain ⟨rfl, hout⟩ := h.of_ok hrun
    exact ⟨t, rfl, hout⟩

/-! ## The answer and the state -/

/-- The state tells what the run answered: an outcome is the status, and after an error the status
is `faulted`. -/
def Reported : EStateM.Result Failure (Session α σ τ n) Status → Prop
  | .ok v t => t.method.state.status = v ∧ v ∈ [Status.converged, .iterationLimit, .stalled]
  | .error (.error _) t => t.method.state.status = .faulted
  | .error _ _ => True

theorem Action.run_of_body_ok {s t : Session α σ τ n} {v : Status} (h : body s = .ok v t) :
    run s = close v t := by
  rw [run_eq_body_bind_close]
  show EStateM.bind body close s = _
  rw [EStateM.bind, h]

theorem Action.run_of_body_error {s t : Session α σ τ n} {e : Failure} (h : body s = .error e t) :
    run s = .error e t := by
  rw [run_eq_body_bind_close]
  show EStateM.bind body close s = _
  rw [EStateM.bind, h]

/-- An error before the closing line is told by the state. -/
theorem Action.reported_of_body_error {s t : Session α σ τ n} {e : Failure}
    (h : body s = .error e t) : Reported (run s) := by
  rw [run_of_body_error h]
  have hfaulted := (body_ends s).of_error h
  cases e with
  | error e => exact hfaulted e rfl
  | lengthMismatch => trivial
  | noRoom => trivial

omit [Scalar α] [Numeral α] in
/-- A run that writes its closing line has told how it ends. -/
theorem Action.reported_of_close {s t : Session α σ τ n} {v : Status} (h : close v s = .ok v t)
    (hv : v ∈ [Status.converged, .iterationLimit, .stalled]) : Reported (close v s) := by
  have hclosed := ((close_ends s v).of_ok h).2
  rw [h]
  refine ⟨?_, hv⟩
  rw [hclosed.state]

theorem Action.reported_of_unlimited {s : Session α σ τ n} (hs : s.sink = .unlimited) :
    Reported (run s) := by
  have hgrows := fitsOrFails_body.grows s hs
  cases hbody : body s with
  | error e t => exact reported_of_body_error hbody
  | ok v t =>
    rw [hbody] at hgrows
    obtain ⟨u, hu, -⟩ := close_of_unlimited (hgrows.sink.trans hs) v
    rw [run_of_body_ok hbody]
    exact reported_of_close hu ((body_ends s).of_ok hbody).2

omit [Scalar α] [Numeral α] in
/-- The closing line is the one write whose failure is not marked: the state keeps the outcome. -/
theorem Action.reported_close_within_iff {t : Session α σ τ n} (ht : t.sink = .unlimited)
    {v : Status} (hv : v ∈ [Status.converged, .iterationLimit, .stalled]) {r : Nat}
    (hroom : t.journal.output.length ≤ r) :
    Reported (close v (t.within r)) ↔
      t.journal.output.length + (closingBytes t.method.options v).length ≤ r := by
  obtain ⟨u, hu, hout⟩ := close_of_unlimited ht v
  have hlength := congrArg List.length hout
  rw [List.length_append] at hlength
  have hfits := (fitsOrFails_close v).fits r t ht
  have hfails := (fitsOrFails_close v).fails r t ht hroom
  rw [hu] at hfits hfails
  by_cases hall : u.journal.output.length ≤ r
  · exact iff_of_true (reported_of_close (hfits hall) hv) (by omega)
  · obtain ⟨w, hw, -⟩ := hfails (Nat.not_le.mp hall)
    have hclosed := ((close_ends (t.within r) v).of_error hw).2
    rw [hw]
    refine iff_of_false ?_ (by omega)
    intro hfaulted
    change w.method.state.status = .faulted at hfaulted
    rw [hclosed.state] at hfaulted
    change v = .faulted at hfaulted
    rw [hfaulted] at hv
    simp at hv

/-- All that a limited sink changes is known from the unlimited run: `v` is how that run ends, and
its report is complete up to the closing line if there is room for the rest of it. -/
theorem Action.reported_run_within_iff {s : Session α σ τ n} (hs : s.sink = .unlimited)
    (hempty : s.journal.output = []) (r : Nat) :
    Reported (run (s.within r)) ↔
      ¬ ∃ v t, run s = .ok v t ∧ r < t.journal.output.length ∧
        t.journal.output.length ≤ r + (closingBytes s.method.options v).length := by
  have hr : s.journal.output.length ≤ r := by
    rw [hempty]
    exact Nat.zero_le r
  have hgrows := fitsOrFails_body.grows s hs
  have hfits := fitsOrFails_body.fits r s hs
  have hfails := fitsOrFails_body.fails r s hs hr
  cases hbody : body s with
  | error e t =>
    rw [hbody] at hfits hfails
    refine iff_of_true ?_ ?_
    · by_cases hroom : t.journal.output.length ≤ r
      · exact reported_of_body_error (hfits hroom)
      · obtain ⟨w, hw, -⟩ := hfails (Nat.not_le.mp hroom)
        exact reported_of_body_error hw
    · rintro ⟨v, w, hw, -⟩
      rw [run_of_body_error hbody] at hw
      cases hw
  | ok v t =>
    rw [hbody] at hgrows hfits hfails
    have ht : t.sink = .unlimited := hgrows.sink.trans hs
    obtain ⟨halike, hv⟩ := (body_ends s).of_ok hbody
    obtain ⟨u, hu, hout⟩ := close_of_unlimited ht v
    rw [halike.options] at hout
    have hlength := congrArg List.length hout
    rw [List.length_append] at hlength
    have hrun : run s = .ok v u := (run_of_body_ok hbody).trans hu
    have hcut : (∃ v t, run s = .ok v t ∧ r < t.journal.output.length ∧
        t.journal.output.length ≤ r + (closingBytes s.method.options v).length) ↔
        r < u.journal.output.length ∧ t.journal.output.length ≤ r := by
      constructor
      · rintro ⟨v', w, hw, hlt, hle⟩
        rw [hrun] at hw
        cases hw
        omega
      · rintro ⟨hlt, hle⟩
        exact ⟨v, u, hrun, hlt, by omega⟩
    rw [hcut]
    by_cases hroom : t.journal.output.length ≤ r
    · -- The limited run comes as far as the closing line.
      rw [run_of_body_ok (hfits hroom), reported_close_within_iff ht hv hroom, halike.options]
      omega
    · -- The report was cut before, and every failure there is marked.
      obtain ⟨w, hw, -⟩ := hfails (Nat.not_le.mp hroom)
      exact iff_of_true (reported_of_body_error hw) fun h => hroom h.2

/-- The sink runs out of room in the closing line: all of the report fits but not all of that
line. -/
def Method.ClosingLineCut [Secant α τ] (M : Method α σ τ) (f : Objective α) (B : Box α n)
    (x g : Array α) (k : Sink) : Prop :=
  ∃ r v t, k = ⟨some r⟩ ∧ M.run f B x g .unlimited = .ok v t ∧
    r < t.journal.output.length ∧
    t.journal.output.length ≤ r + (closingBytes M.options v).length

/-- Whatever the method has run before, whatever its solver does and wherever the sink runs out of
room, the state tells what the run answered, unless the sink runs out of room in the closing
line. -/
theorem Method.reported_run_iff [Secant α τ] (M : Method α σ τ) (f : Objective α) (B : Box α n)
    (x g : Array α) (k : Sink) :
    Reported (M.run f B x g k) ↔ ¬ M.ClosingLineCut f B x g k := by
  obtain ⟨room⟩ := k
  unfold ClosingLineCut
  cases room with
  | none =>
    refine iff_of_true (reported_of_unlimited rfl) ?_
    rintro ⟨r, v, t, hr, -⟩
    cases hr
  | some r =>
    have h := reported_run_within_iff (s := M.session f B x g .unlimited) rfl rfl r
    refine Iff.trans h (not_congr ?_)
    constructor
    · rintro ⟨v, t, hrun, hlt, hle⟩
      exact ⟨r, v, t, rfl, hrun, hlt, hle⟩
    · rintro ⟨_, v, t, hr, hrun, hlt, hle⟩
      cases hr
      exact ⟨v, t, hrun, hlt, hle⟩

/-! ## A closing line that is cut -/

instance (r : EStateM.Result Failure (Session α σ τ n) Status) : Decidable (Reported r) :=
  match r with
  | .ok v t => inferInstanceAs (Decidable (t.method.state.status = v ∧ _))
  | .error (.error _) t => inferInstanceAs (Decidable (t.method.state.status = .faulted))
  | .error .lengthMismatch _ => .isTrue trivial
  | .error .noRoom _ => .isTrue trivial

/-- The report of a run without iterations takes 362 bytes, the last 49 of them in the closing
line. With room for 313 the run fails and its state tells of an iteration limit. -/
theorem exists_run_not_reported :
    ∃ M, Method.ofOptions (α := Float) { Options.standard with maxOuter := 0, verbosity := 1 } =
        .ok M ∧
      ¬ Reported (M.run .zero (.free 1) #[1] #[0] ⟨some 313⟩) := by
  have h : (Method.ofOptions (α := Float)
      { Options.standard with maxOuter := 0, verbosity := 1 }).toOption.any
        (fun M => decide (¬ Reported (M.run .zero (.free 1) #[1] #[0] ⟨some 313⟩))) = true := by
    decide +kernel
  cases hM : Method.ofOptions (α := Float)
    { Options.standard with maxOuter := 0, verbosity := 1 } with
  | error e =>
    rw [hM] at h
    cases h
  | ok M =>
    rw [hM] at h
    exact ⟨M, rfl, of_decide_eq_true h⟩

end LogBarrier
