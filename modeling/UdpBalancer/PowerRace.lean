import UdpBalancer.LogMoments

/-! The race of two exponential clocks, one of them read through a power:
`race r` is the chance that `X^r < Y`. Bounds to the second order next to one
and from the two sides of one far from it. -/
namespace UdpBalancer.PowerRace
open MeasureTheory Set Real LogMoments

noncomputable def race (r : ℝ) : ℝ := ∫ x in Ioi 0, exp (-x)*exp (-x^r)

theorem expQuadratic {t : ℝ} (small : t ≤ 1) : exp t ≤ 1+t+t^2 := by
  rcases le_total (-1) t with above | below
  · have h := abs_exp_sub_one_sub_id_le (abs_le.mpr ⟨above,small⟩)
    have := (abs_le.mp h).2
    linarith
  · have h := exp_le_one_iff.mpr (below.trans (by norm_num))
    nlinarith

theorem powerSplit {x d : ℝ} (pos : 0 < x) : x^(1+d) = x*exp (d*log x) := by
  rw [rpow_add pos,rpow_one,rpow_def_of_pos pos,mul_comm d]

theorem raceMeasurable (r : ℝ) :
    AEStronglyMeasurable (fun x : ℝ => exp (-x)*exp (-x^r)) (volume.restrict (Ioi 0)) := by
  apply Measurable.aestronglyMeasurable
  fun_prop

theorem raceIntegrable (r : ℝ) : IntegrableOn (fun x : ℝ => exp (-x)*exp (-x^r)) (Ioi 0) := by
  apply Integrable.mono' (integrableOn_exp_neg_Ioi 0) (raceMeasurable r)
  apply (ae_restrict_mem measurableSet_Ioi).mono
  intro x pos
  have power : exp (-x^r) ≤ 1 := exp_le_one_iff.mpr (neg_nonpos.mpr (rpow_nonneg (le_of_lt pos) r))
  rw [norm_of_nonneg (by positivity)]
  exact mul_le_of_le_one_right (exp_pos _).le power

theorem weightSplit (x : ℝ) : weight x = exp (-x)*exp (-x) := by
  rw [weight,← exp_add]
  congr 1
  ring

theorem raceAbovePoint {x d : ℝ} (pos : 0 < x) (nonneg : 0 ≤ d) (small : d ≤ 1) :
    exp (-x)*exp (-x^(1+d)) ≤
      x^0*weight x-d*(x*log x*weight x)+d^2*(x^3*weight x-2*(x^2*weight x)+x^1*weight x) := by
  have tangent : x+d*(x*log x) ≤ x^(1+d) := by
    rw [powerSplit pos]
    have := mul_le_mul_of_nonneg_left (add_one_le_exp (d*log x)) pos.le
    linarith
  have low : -1 ≤ x*log x := by
    have := mul_le_mul_of_nonneg_left (one_sub_inv_le_log_of_pos pos) pos.le
    rw [mul_sub,mul_inv_cancel₀ pos.ne'] at this
    linarith
  have quadratic := expQuadratic (t := -(d*(x*log x))) (by nlinarith)
  have square := mul_le_mul_of_nonneg_left (logSquareNext pos) (sq_nonneg d)
  calc exp (-x)*exp (-x^(1+d)) ≤ exp (-x)*exp (-x+-(d*(x*log x))) := by
        gcongr
        linarith
    _ = weight x*exp (-(d*(x*log x))) := by rw [exp_add,weightSplit]; ring
    _ ≤ weight x*(1-d*(x*log x)+d^2*(x^3-2*x^2+x)) := by
        refine mul_le_mul_of_nonneg_left ?_ (weightPos x).le
        nlinarith
    _ = _ := by ring

/- A power past `exp 1` costs more than the whole clock, so the quadratic
bound holds there as well. -/
theorem raceBelowPoint {x d : ℝ} (pos : 0 < x) (nonneg : 0 ≤ d) :
    x^0*weight x-d*(x*log x*weight x)-d^2*(x^2*weight x-2*(x^1*weight x)+x^0*weight x) ≤
      exp (-x)*exp (-x^(1+d)) := by
  have square := mul_le_mul_of_nonneg_left (logSquare pos) (sq_nonneg d)
  have w := weightPos x
  rcases le_total (d*log x) 1 with small | large
  · have quadratic := mul_le_mul_of_nonneg_left (expQuadratic small) pos.le
    have line := add_one_le_exp (x-x^(1+d))
    rw [powerSplit pos] at line ⊢
    calc _ = weight x*(1-d*(x*log x)-d^2*(x-1)^2) := by ring
      _ ≤ weight x*exp (x-x*exp (d*log x)) := by
          refine mul_le_mul_of_nonneg_left ?_ w.le
          nlinarith
      _ = _ := by rw [weightSplit,mul_assoc,← exp_add]; congr 2; ring
  · have past : 1 ≤ x := by
      by_contra under
      have := mul_nonneg nonneg (neg_nonneg.mpr (log_nonpos pos.le (not_le.mp under).le))
      linarith
    have cost : 1 ≤ d*(x*log x) := by nlinarith
    have : 0 ≤ exp (-x)*exp (-x^(1+d)) := by positivity
    have : 0 ≤ d^2*(x-1)^2*weight x := by positivity
    nlinarith

theorem raceAbove {d : ℝ} (nonneg : 0 ≤ d) (small : d ≤ 1) :
    race (1+d) ≤ 1/2-d*(∫ x in Ioi 0, x*log x*weight x)+d^2/8 := by
  have bound := setIntegral_mono_on (raceIntegrable (1+d))
    (seriesIntegrable 1 (-d) (d^2) (-(2*d^2)) (d^2)) measurableSet_Ioi fun x pos =>
      (raceAbovePoint pos nonneg small).trans (by rw [series]; linarith)
  rw [seriesIntegral] at bound
  rw [race]
  linarith

theorem raceBelow {d : ℝ} (nonneg : 0 ≤ d) :
    1/2-d*(∫ x in Ioi 0, x*log x*weight x)-d^2/4 ≤ race (1+d) := by
  have bound := setIntegral_mono_on (seriesIntegrable (1-d^2) (-d) (2*d^2) (-d^2) 0)
    (raceIntegrable (1+d)) measurableSet_Ioi fun x pos =>
      le_trans (by rw [series]; linarith) (raceBelowPoint pos nonneg)
  rw [seriesIntegral] at bound
  rw [race]
  linarith

theorem raceParts (r : ℝ) :
    race r = (∫ x in (0 : ℝ)..1, exp (-x)*exp (-x^r))+∫ x in Ioi 1, exp (-x)*exp (-x^r) := by
  rw [intervalIntegral.integral_of_le zero_le_one,race,← Ioc_union_Ioi_eq_Ioi zero_le_one]
  exact setIntegral_union (Ioc_disjoint_Ioi le_rfl) measurableSet_Ioi
    ((raceIntegrable r).mono_set Ioc_subset_Ioi_self)
    ((raceIntegrable r).mono_set (Ioi_subset_Ioi zero_le_one))

theorem headIntegrable (r : ℝ) :
    IntervalIntegrable (fun x : ℝ => exp (-x)*exp (-x^r)) volume 0 1 :=
  (intervalIntegrable_iff_integrableOn_Ioc_of_le zero_le_one).mpr
    ((raceIntegrable r).mono_set Ioc_subset_Ioi_self)

theorem expChord {y : ℝ} (nonneg : 0 ≤ y) (small : y ≤ 1) : exp (-y) ≤ 1-y/2 := by
  have line := add_one_le_exp y
  have inverse : exp (-y)*exp y = 1 := by rw [← exp_add,neg_add_cancel,exp_zero]
  have pos := exp_pos (-y)
  nlinarith

theorem expGap {a b : ℝ} (nonneg : 0 ≤ a) (order : a ≤ b) : exp (-a)-exp (-b) ≤ b-a := by
  have unit : exp (-a) ≤ 1 := exp_le_one_iff.mpr (neg_nonpos.mpr nonneg)
  have line := add_one_le_exp (a-b)
  have split : exp (-b) = exp (-a)*exp (a-b) := by
    rw [← exp_add]
    congr 1
    ring
  rw [split]
  nlinarith [mul_le_mul_of_nonneg_left line (exp_pos (-a)).le,
    mul_nonneg (sub_nonneg.mpr unit) (sub_nonneg.mpr order)]

variable {r s : ℝ}

theorem headGapIntegral (pos : 0 < r) (order : r ≤ s) :
    IntervalIntegrable (fun x => x^r-x^s-(x^(r+1)-x^(s+1))/2) volume 0 1 ∧
    ∫ x in (0 : ℝ)..1, (x^r-x^s-(x^(r+1)-x^(s+1))/2) = 1/(1+r)-1/(1+s)-(1/(r+2)-1/(s+2))/2 := by
  have power : ∀ {y : ℝ}, 0 < y → IntervalIntegrable (fun x : ℝ => x^y) volume 0 1 :=
    fun pos => intervalIntegral.intervalIntegrable_rpow' (by linarith)
  have value : ∀ {y : ℝ}, 0 < y → ∫ x in (0 : ℝ)..1, x^y = 1/(y+1) := by
    intro y pos
    rw [integral_rpow (.inl (by linarith)),one_rpow,zero_rpow (by linarith),sub_zero]
  have first := (power pos).sub (power (pos.trans_le order))
  have second := ((power (by linarith : 0 < r+1)).sub (power (by linarith : 0 < s+1))).div_const 2
  constructor
  · exact first.sub second
  · rw [intervalIntegral.integral_sub first second,intervalIntegral.integral_div,
      intervalIntegral.integral_sub (power pos) (power (pos.trans_le order)),
      intervalIntegral.integral_sub (power (by linarith)) (power (by linarith)),
      value pos,value (pos.trans_le order),value (by linarith),value (by linarith)]
    ring

theorem headBelow (pos : 0 < r) (order : r ≤ s) {x : ℝ} (unit : x ∈ Icc 0 1) :
    exp (-x)*exp (-x^s)-exp (-x)*exp (-x^r) ≤ x^r-x^s-(x^(r+1)-x^(s+1))/2 := by
  have less : x^s ≤ x^r := rpow_le_rpow_of_exponent_ge_of_imp unit.1 unit.2 order
    fun _ zero => absurd zero (pos.trans_le order).ne'
  have gap := expGap (rpow_nonneg unit.1 s) less
  have chord := expChord unit.1 unit.2
  calc _ = exp (-x)*(exp (-x^s)-exp (-x^r)) := by ring
    _ ≤ exp (-x)*(x^r-x^s) := mul_le_mul_of_nonneg_left gap (exp_pos _).le
    _ ≤ (1-x/2)*(x^r-x^s) := mul_le_mul_of_nonneg_right chord (sub_nonneg.mpr less)
    _ = _ := by
        rw [rpow_add_one' unit.1 (by linarith),rpow_add_one' unit.1 (by linarith)]
        ring

theorem tailBelow (order : r ≤ s) :
    ∫ x in Ioi (1 : ℝ), exp (-x)*exp (-x^s) ≤ ∫ x in Ioi (1 : ℝ), exp (-x)*exp (-x^r) := by
  refine setIntegral_mono_on ((raceIntegrable s).mono_set (Ioi_subset_Ioi zero_le_one))
    ((raceIntegrable r).mono_set (Ioi_subset_Ioi zero_le_one)) measurableSet_Ioi fun x past => ?_
  have := rpow_le_rpow_of_exponent_le (le_of_lt past) order
  gcongr

noncomputable def excess (r : ℝ) : ℝ := 1-race r-1/(1+r)

theorem excessGrows (pos : 0 < r) (order : r ≤ s) :
    (1/(r+2)-1/(s+2))/2 ≤ excess s-excess r := by
  obtain ⟨integrable,value⟩ := headGapIntegral pos order
  have head := intervalIntegral.integral_mono_on zero_le_one
    ((headIntegrable s).sub (headIntegrable r)) integrable fun x unit => headBelow pos order unit
  rw [intervalIntegral.integral_sub (headIntegrable s) (headIntegrable r),value] at head
  have tail := tailBelow order
  rw [excess,excess,raceParts r,raceParts s]
  linarith

theorem excessMono (pos : 0 < r) (order : r ≤ s) : excess r ≤ excess s := by
  have grows := excessGrows pos order
  have : 1/(s+2) ≤ 1/(r+2) := by gcongr
  linarith

theorem excessRate (least : 1 ≤ r) (order : r ≤ s) (most : s ≤ 2) :
    (s-r)/32 ≤ excess s-excess r := by
  have grows := excessGrows (zero_lt_one.trans_le least) order
  have rate : (s-r)/16 ≤ 1/(r+2)-1/(s+2) := by
    rw [div_sub_div _ _ (by linarith) (by linarith),div_le_div_iff₀ (by norm_num) (by nlinarith)]
    nlinarith [mul_nonneg (sub_nonneg.mpr order) (by nlinarith : 0 ≤ 16-(r+2)*(s+2))]
  linarith

theorem excessOne : excess 1 = 0 := by
  have whole := moment 0
  have same : race 1 = ∫ x in Ioi 0, x^0*weight x := by
    apply setIntegral_congr_fun measurableSet_Ioi
    intro x _
    simp only [rpow_one,pow_zero,one_mul,weightSplit]
  rw [excess,same,whole]
  norm_num

theorem excessLow : excess (21/20) ≤ 1/100 := by
  have below := raceBelow (d := 1/20) (by norm_num)
  have high := logMomentBounds.1
  rw [excess,show (21/20 : ℝ) = 1+1/20 by norm_num]
  norm_num at below ⊢
  linarith

theorem excessHigh : 1/100 < excess (17/16) := by
  have above := raceAbove (d := 1/16) (by norm_num) (by norm_num)
  have low := logMomentBounds.2
  rw [excess,show (17/16 : ℝ) = 1+1/16 by norm_num]
  norm_num at above ⊢
  linarith

/- The exponents whose race is within a hundredth of the proportion. -/
def fair : Set ℝ := {r | 1 ≤ r ∧ excess r ≤ 1/100}

noncomputable def fairLimit : ℝ := sSup fair

theorem fairStart : 21/20 ∈ fair := ⟨by norm_num,excessLow⟩

theorem fairBelow (within : r ∈ fair) : r ≤ 17/16 := by
  rcases le_total r (17/16) with below | past
  · exact below
  · have := excessMono (by norm_num) past
    linarith [excessHigh,within.2]

theorem fairBounded : BddAbove fair := ⟨17/16,fun _ => fairBelow⟩

theorem fairLimitBounds : 21/20 ≤ fairLimit ∧ fairLimit ≤ 17/16 :=
  ⟨le_csSup fairBounded fairStart,csSup_le ⟨_,fairStart⟩ fun _ => fairBelow⟩

variable {band : ℝ}

theorem excessUnder (wide : 0 < band) (least : 1 ≤ r) (under : r ≤ fairLimit-band) :
    excess r ≤ 1/100-band/64 := by
  obtain ⟨s,within,near⟩ := exists_lt_of_lt_csSup ⟨_,fairStart⟩
    (show fairLimit-band/2 < sSup fair by rw [← fairLimit]; linarith)
  have rate := excessRate least (by linarith : r ≤ s) (by linarith [fairBelow within])
  linarith [within.2]

theorem excessOver (wide : 0 < band) (narrow : band ≤ 1/2) (upper : fairLimit+band ≤ r) :
    1/100+band/64 < excess r := by
  obtain ⟨least,most⟩ := fairLimitBounds
  have unfair : 1/100 < excess (fairLimit+band/2) := by
    by_contra within
    have := le_csSup fairBounded (show fairLimit+band/2 ∈ fair from
      ⟨by linarith,not_lt.mp within⟩)
    rw [← fairLimit] at this
    linarith
  have rate := excessRate (by linarith : 1 ≤ fairLimit+band/2)
    (by linarith : fairLimit+band/2 ≤ fairLimit+band) (by linarith)
  have mono := excessMono (by linarith) upper
  linarith

end UdpBalancer.PowerRace
