import LogBarrier.Augmented.Points
import LogBarrier.Descent
import LogBarrier.Exact.Vector
import LogBarrier.Proofs.Interior

/-!
# Results that are defined

Division by zero and the logarithm of a number that is not positive have no value that a program
should rely on. A result is defined if it is the same whatever they answer. With exact arithmetic
the barrier is defined at every point, and so are the step lengths of the solvers and the forward
difference along a real direction.
-/

namespace LogBarrier

open Scalar Exact

variable {n : ℕ}

/-! ## Other answers -/

/-- What is answered outside the domains of division and of the logarithm. -/
structure Exact.Whim where
  quotient : Exact → Exact
  logarithm : Exact → Exact

namespace Exact.Whim

open Classical in
/-- Exact scalars with other answers outside the domains of division and of the logarithm. -/
noncomputable abbrev scalar (w : Whim) : Scalar Exact :=
  { instScalar with
    div := fun a b => if b = 0 then w.quotient a else a / b
    log := fun a => if 0 < a then Scalar.log a else w.logarithm a }

variable (w : Whim) {a b : Exact}

theorem div_of_ne (a : Exact) (hb : b ≠ 0) : w.scalar.div a b = a / b := if_neg hb

theorem ne_zero_of_pos (hb : 0 < b) : b ≠ 0 := by
  rintro rfl
  exact lt_irrefl (0 : ℝ) hb

theorem div_of_pos (a : Exact) (hb : 0 < b) : w.scalar.div a b = a / b :=
  w.div_of_ne a (ne_zero_of_pos hb)

theorem log_of_pos (ha : 0 < a) : w.scalar.log a = Scalar.log a := if_pos ha

end Exact.Whim

/-- The result is the same whatever is answered outside the domains of division and of the
logarithm. -/
def Defined {β : Type*} (result : Scalar Exact → β) : Prop :=
  ∀ w : Whim, result w.scalar = result inferInstance

/-- A quotient is defined exactly if its divisor is not zero. -/
theorem defined_div_iff {a b : Exact} : (Defined fun _ => a / b) ↔ b ≠ 0 := by
  constructor
  · -- Two answers to a division by zero cannot both be the one of the model.
    rintro h rfl
    have hquotient (c : Exact) : c = a / 0 := (if_pos rfl).symm.trans (h ⟨fun _ => c, id⟩)
    exact Exact.noConfusion ((hquotient .posInf).trans (hquotient .negInf).symm)
  · exact fun hb w => w.div_of_ne a hb

/-- A logarithm is defined exactly if its argument is positive. -/
theorem defined_log_iff {a : Exact} : (Defined fun _ => Scalar.log a) ↔ 0 < a := by
  constructor
  · intro h
    by_contra ha
    have hlogarithm (c : Exact) : c = Scalar.log a := (if_neg ha).symm.trans (h ⟨id, fun _ => c⟩)
    exact Exact.noConfusion ((hlogarithm .posInf).trans (hlogarithm .negInf).symm)
  · exact fun ha w => w.log_of_pos ha

/-! ## Step lengths -/

/-- Where the spectral step length is a quotient, it does not divide by zero. -/
theorem dot_ne_zero_of_scaled {s y : Vector Exact n} (h : ¬ (dot s y ≤ 0 ∨ ¬ IsFinite (dot s y))) :
    dot s y ≠ 0 := by
  intro hzero
  refine h (.inl ?_)
  rw [hzero]
  exact real_le_real.mpr le_rfl

theorem defined_spectralScale (s y : Vector Exact n) : Defined fun _ => spectralScale s y := by
  intro w
  refine ite_congr rfl (fun _ => rfl) fun h => ?_
  exact congrArg (fun q => Scalar.min maxScale (Scalar.max minScale q))
    (w.div_of_ne _ (dot_ne_zero_of_scaled h))

theorem defined_initialScale (r : Vector Exact n) : Defined fun _ => initialScale r := by
  intro w
  refine ite_congr rfl (fun h => ?_) fun _ => rfl
  exact congrArg (fun q => Scalar.min maxScale (Scalar.max minScale q)) (w.div_of_pos _ h)

/-! ## The barrier -/

theorem Exact.pos_mul {a b : Exact} (ha : 0 < a) (hb : 0 < b) : 0 < a * b := by
  have hscaled {r : ℝ} (hr : 0 < r) : scaledInf r = posInf := if_pos hr
  cases a with
  | nan => exact ha.elim
  | negInf => exact ha.elim
  | real r =>
    cases b with
    | nan => exact hb.elim
    | negInf => exact hb.elim
    | real s => exact mul_pos (α := ℝ) ha hb
    | posInf =>
      show 0 < scaledInf r
      rw [hscaled ha]
      trivial
  | posInf =>
    cases b with
    | nan => exact hb.elim
    | negInf => exact hb.elim
    | real s =>
      show 0 < scaledInf s
      rw [hscaled hb]
      trivial
    | posInf => trivial

/-- A distance whose logarithm the barrier takes, and by which and by whose square it divides. -/
structure Exact.InDomain (a : Exact) : Prop where
  logarithm : 0 < a
  divisor : a ≠ 0
  square : a * a ≠ 0

theorem Exact.inDomain_of_pos {a : Exact} (ha : 0 < a) : a.InDomain :=
  ⟨ha, Whim.ne_zero_of_pos ha, Whim.ne_zero_of_pos (pos_mul ha ha)⟩

/-- Where a variable that is not fixed has a barrier term, the distances to its finite ends are in
the domain of what the term is made of. -/
theorem Interval.inDomain_of_barrier? {k x : Exact} {I : Interval Exact} {t : BarrierTerm Exact}
    (h : I.barrier? k x = some t) (hI : ¬ I.IsFixed) :
    (IsFinite I.lower → (x - I.lower).InDomain) ∧ (IsFinite I.upper → (I.upper - x).InDomain) := by
  unfold barrier? at h
  rw [if_neg hI] at h
  dsimp only at h
  by_cases hl : IsFinite I.lower
  · rw [if_pos hl] at h
    by_cases hu : IsFinite I.upper
    · rw [if_pos hu] at h
      split at h
      · rename_i hpos
        exact ⟨fun _ => inDomain_of_pos hpos.1, fun _ => inDomain_of_pos hpos.2⟩
      · cases h
    · rw [if_neg hu] at h
      split at h
      · rename_i hpos
        exact ⟨fun _ => inDomain_of_pos hpos, fun hfinite => absurd hfinite hu⟩
      · cases h
  · rw [if_neg hl] at h
    refine ⟨fun hfinite => absurd hfinite hl, fun hu => ?_⟩
    rw [if_pos hu] at h
    split at h
    · rename_i hpos
      exact inDomain_of_pos hpos
    · cases h

theorem Interval.defined_barrier? (k : Exact) (I : Interval Exact) (x : Exact) :
    Defined fun _ => I.barrier? k x := by
  intro w
  have hsquare {a : Exact} (ha : 0 < a) : w.scalar.div 1 (a * a) = 1 / (a * a) :=
    w.div_of_pos 1 (pos_mul ha ha)
  refine ite_congr rfl (fun _ => rfl) fun _ => ?_
  refine ite_congr rfl (fun _ => ?_) fun _ => ?_
  · refine ite_congr rfl (fun _ => ?_) fun _ => ?_
    · refine ite_congr rfl (fun ⟨ha, hb⟩ => ?_) fun _ => rfl
      show some (⟨-w.scalar.log (x - I.lower) - w.scalar.log (I.upper - x),
        w.scalar.div (-1) (x - I.lower) + w.scalar.div 1 (I.upper - x),
        w.scalar.div 1 ((x - I.lower) * (x - I.lower)) +
          w.scalar.div 1 ((I.upper - x) * (I.upper - x))⟩ : BarrierTerm Exact) = _
      rw [w.log_of_pos ha, w.log_of_pos hb, w.div_of_pos _ ha, w.div_of_pos _ hb, hsquare ha,
        hsquare hb]
    · refine ite_congr rfl (fun ha => ?_) fun _ => rfl
      show some (⟨-w.scalar.log (x - I.lower) + k * (x - I.lower),
        w.scalar.div (-1) (x - I.lower) + k,
        w.scalar.div 1 ((x - I.lower) * (x - I.lower))⟩ : BarrierTerm Exact) = _
      rw [w.log_of_pos ha, w.div_of_pos _ ha, hsquare ha]
  · refine ite_congr rfl (fun _ => ?_) fun _ => rfl
    refine ite_congr rfl (fun hb => ?_) fun _ => rfl
    show some (⟨-w.scalar.log (I.upper - x) + k * (I.upper - x),
      w.scalar.div 1 (I.upper - x) - k,
      w.scalar.div 1 ((I.upper - x) * (I.upper - x))⟩ : BarrierTerm Exact) = _
    rw [w.log_of_pos hb, w.div_of_pos _ hb, hsquare hb]

theorem Interval.defined_barrierSlope (k : Exact) (I : Interval Exact) (x : Exact) :
    Defined fun _ => I.barrierSlope k x := by
  intro w
  have h : @Interval.barrier? _ w.scalar k I x = I.barrier? k x := I.defined_barrier? k x w
  show @Interval.barrierSlope _ w.scalar k I x = I.barrierSlope k x
  unfold barrierSlope
  rw [h]
  rfl

theorem Interval.defined_barrierCurvature (k : Exact) (I : Interval Exact) (x : Exact) :
    Defined fun _ => I.barrierCurvature k x := by
  intro w
  have h : @Interval.barrier? _ w.scalar k I x = I.barrier? k x := I.defined_barrier? k x w
  show @Interval.barrierCurvature _ w.scalar k I x = I.barrierCurvature k x
  unfold barrierCurvature
  rw [h]
  rfl

namespace Box

theorem defined_barrier? (k : Exact) (B : Box Exact n) (x : Vector Exact n) :
    Defined fun _ => B.barrier? k x := by
  intro w
  have hterm : (fun i => @Interval.barrier? _ w.scalar k (B.side i) (x.get i)) =
      fun i => (B.side i).barrier? k (x.get i) :=
    funext fun i => (B.side i).defined_barrier? k (x.get i) w
  show (List.finRange n).foldlM (fun total i =>
    ((fun i => @Interval.barrier? _ w.scalar k (B.side i) (x.get i)) i).map
      fun t => total + t.value) (0 : Exact) = _
  rw [hterm]
  rfl

theorem defined_barrier (k : Exact) (B : Box Exact n) (x : Vector Exact n) :
    Defined fun _ => B.barrier k x :=
  fun w => congrArg (Option.getD · inf) (B.defined_barrier? k x w)

theorem defined_barrierSlopes (k : Exact) (B : Box Exact n) (x : Vector Exact n) :
    Defined fun _ => B.barrierSlopes k x := by
  intro w
  have hslope : @Interval.barrierSlope _ w.scalar k = Interval.barrierSlope k :=
    funext fun I => funext fun t => I.defined_barrierSlope k t w
  show B.sides.zipWith (@Interval.barrierSlope _ w.scalar k) x = _
  rw [hslope]
  rfl

theorem defined_barrierCurvatures (k : Exact) (B : Box Exact n) (x : Vector Exact n) :
    Defined fun _ => B.barrierCurvatures k x := by
  intro w
  have hcurvature : @Interval.barrierCurvature _ w.scalar k = Interval.barrierCurvature k :=
    funext fun I => funext fun t => I.defined_barrierCurvature k t w
  show B.sides.zipWith (@Interval.barrierCurvature _ w.scalar k) x = _
  rw [hcurvature]
  rfl

end Box

/-! ## The augmented objective -/

namespace Augmented

variable (A : Augmented Exact n) (x : Vector Exact n)

theorem defined_value : Defined fun _ => A.value x := by
  intro w
  have h : @Augmented.barrier _ n w.scalar A x = A.barrier x := A.box.defined_barrier _ x w
  show (if Same (@Augmented.barrier _ n w.scalar A x) inf then return inf
    else return (← A.plainValue x.toArray) + A.mu * @Augmented.barrier _ n w.scalar A x) = _
  rw [h]
  rfl

theorem defined_gradient : Defined fun _ => A.gradient x := by
  intro w
  have h : @Augmented.barrierSlopes _ n w.scalar A x = A.barrierSlopes x :=
    A.box.defined_barrierSlopes _ x w
  show (do
    let g ← Trying.ask (A.plainGradient x.toArray)
    let g ← Trying.of (sized n g)
    return (g + A.mu * @Augmented.barrierSlopes _ n w.scalar A x).toArray) = _
  rw [h]
  rfl

/-! ### Points of any length -/

variable (x : Array Exact)

theorem defined_barrierAt : Defined fun _ => A.barrierAt x := by
  intro w
  refine dite_congr rfl (fun h => ?_) fun h => ?_
  · have hbarrier : @barrier _ _ w.scalar (A.leading h) x.toVector =
        (A.leading h).barrier x.toVector := (A.leading h).box.defined_barrier _ _ w
    exact congrArg Except.ok hbarrier
  · have hbarrier (known : Vector Exact n) :
        @Box.barrier? _ w.scalar n (@activeKappa _ n w.scalar A) A.box known =
          A.box.barrier? A.activeKappa known := A.box.defined_barrier? _ known w
    dsimp only
    rw [hbarrier]
    rfl

theorem defined_barrierSlopesAt : Defined fun _ => A.barrierSlopesAt x := by
  intro w
  refine congrArg (bind (A.atLength x.size)) (funext fun A => ?_)
  have hslopes : @barrierSlopes _ _ w.scalar A x.toVector = A.barrierSlopes x.toVector :=
    A.box.defined_barrierSlopes _ _ w
  exact congrArg (fun v : Vector Exact _ => Except.ok v.toArray) hslopes

theorem defined_barrierCurvaturesAt : Defined fun _ => A.barrierCurvaturesAt x := by
  intro w
  refine congrArg (bind (A.atLength x.size)) (funext fun A => ?_)
  have hcurvatures : @barrierCurvatures _ _ w.scalar A x.toVector =
      A.barrierCurvatures x.toVector := A.box.defined_barrierCurvatures _ _ w
  exact congrArg (fun v : Vector Exact _ => Except.ok v.toArray) hcurvatures

end Augmented

/-! ## Forward differences -/

theorem Exact.pos_div {a : Exact} {r : ℝ} (ha : 0 < a) (hr : 0 < r) : 0 < a / real r := by
  cases a with
  | nan => exact ha.elim
  | negInf => exact ha.elim
  | real s =>
    rw [real_div_real s hr.ne']
    exact zero_lt_real.mpr (div_pos (zero_lt_real.mp ha) hr)
  | posInf =>
    have hquotient : posInf / real r = posInf := if_neg (not_lt.mpr hr.le)
    rw [hquotient]
    trivial

/-- The step of a forward difference is positive at every point. -/
theorem differenceStep_pos (x : Vector Exact n) {r : ℝ} (hr : 0 < r) :
    0 < differenceStep x (real r) := by
  have hepsilon : (0 : ℝ) < 2 ^ (-52 : ℤ) := zpow_pos two_pos _
  have hroot : 0 < sqrt (epsilon : Exact) := by
    have hsqrt : sqrt (epsilon : Exact) = real (Real.sqrt (2 ^ (-52 : ℤ))) := sqrt_real hepsilon.le
    rw [hsqrt]
    exact Real.sqrt_pos.mpr hepsilon
  have hone : (0 : Exact) < 1 := zero_lt_one (α := ℝ)
  have hmax : 0 < Scalar.max 1 (norm x) := by
    unfold Scalar.max
    split
    · rename_i hle
      exact Exact.lt_of_lt_of_le hone hle
    · rw [if_pos (show (1 : Exact) ≤ 1 from real_le_real.mpr le_rfl)]
      exact hone
  exact pos_div (pos_mul hroot hmax) hr

/-- The norm of a real vector is positive or the same as zero. -/
theorem exists_norm_pos {v : Vector Exact n} (hv : AllFinite v) (hne : ¬ Same (norm v) 0) :
    ∃ r, norm v = real r ∧ 0 < r := by
  obtain ⟨a, rfl⟩ := allFinite_iff.mp hv
  refine ⟨length a, norm_vec a, lt_of_le_of_ne (length_nonneg a) fun hzero => hne ?_⟩
  rw [norm_vec, ← hzero]
  exact ⟨real_le_real.mpr le_rfl, real_le_real.mpr le_rfl⟩

/-- The forward difference of a defined gradient along a real direction. -/
theorem defined_forwardDifference {gradient : Scalar Exact → Vector Exact n →
    Trying Exact (Array Exact)} (hgradient : Defined gradient) (x : Vector Exact n)
    {v : Array Exact} (hv : AllFinite v.toVector) :
    Defined fun i => forwardDifference (gradient i) x v := by
  intro w
  show @forwardDifference _ w.scalar n (gradient w.scalar) x v = forwardDifference _ x v
  rw [hgradient w]
  refine ite_congr rfl (fun _ => rfl) fun hne => ?_
  -- The guard leaves a positive norm, by which the step is divided; the step is positive in turn.
  obtain ⟨r, hnorm, hpos⟩ := exists_norm_pos hv hne
  have hstep : @differenceStep _ w.scalar n x (norm v.toVector) =
      differenceStep x (norm v.toVector) := by
    rw [hnorm]
    exact w.div_of_pos _ (zero_lt_real.mpr hpos)
  have hinverse : w.scalar.div 1 (differenceStep x (norm v.toVector)) =
      1 / differenceStep x (norm v.toVector) := by
    rw [hnorm]
    exact w.div_of_pos 1 (differenceStep_pos x hpos)
  show (do
    let h := @differenceStep _ w.scalar n x (norm v.toVector)
    let g ← gradient inferInstance x
    let v ← Trying.of (sized n v)
    let shifted ← gradient inferInstance (x + h * v)
    let shifted ← Trying.of (sized g.size shifted)
    return (w.scalar.div 1 h * (shifted - g.toVector)).toArray) = _
  rw [hstep]
  dsimp only
  rw [hinverse]

theorem Objective.defined_productAt (f : Objective Exact) (x : Vector Exact n) {v : Array Exact}
    (hv : AllFinite v.toVector) : Defined fun _ => f.productAt x v := by
  intro w
  show @Objective.productAt _ w.scalar n f x v = f.productAt x v
  unfold productAt
  cases f.product? with
  | some h => rfl
  | none =>
    have hgradient : Defined fun _ => (f.gradientAt : Vector Exact n → _) := fun _ => rfl
    exact defined_forwardDifference hgradient x hv w

theorem Augmented.defined_product (A : Augmented Exact n) (x : Vector Exact n) {v : Array Exact}
    (hv : AllFinite v.toVector) : Defined fun _ => A.product x v := by
  intro w
  have hcurvatures : @Augmented.barrierCurvatures _ n w.scalar A x = A.barrierCurvatures x :=
    A.box.defined_barrierCurvatures _ x w
  have hproduct : @Objective.productAt _ w.scalar n A.objective x v = A.objective.productAt x v :=
    A.objective.defined_productAt x hv w
  show (do
    let h ← @Objective.productAt _ w.scalar n A.objective x v
    let v ← Trying.of (sized n v)
    let h ← Trying.of (sized n h)
    return (h + A.mu * (@Augmented.barrierCurvatures _ n w.scalar A x).zipWith (· * ·) v).toArray)
      = _
  rw [hcurvatures, hproduct]
  rfl

end LogBarrier
