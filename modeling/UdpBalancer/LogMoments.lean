import Mathlib.NumberTheory.Harmonic.GammaDeriv
import Mathlib.Analysis.SpecialFunctions.ImproperIntegrals
import Mathlib.Analysis.SpecialFunctions.Trigonometric.DerivHyp

/-! Integrals over the positive reals against `exp (-2x)`: the powers, `x log x`
with its bounds from Euler's constant, and the two squares of the logarithm that
bound the second order of a power. -/
namespace UdpBalancer.LogMoments
open MeasureTheory Set Real

noncomputable def weight (x : ℝ) : ℝ := exp (-(2*x))

theorem weightPos (x : ℝ) : 0 < weight x := exp_pos _

theorem momentIntegrable (n : Nat) : IntegrableOn (fun x => x^n*weight x) (Ioi 0) := by
  have h := integrableOn_rpow_mul_exp_neg_mul_rpow (p := 1) (s := n) (b := 2)
    (by have := n.cast_nonneg (α := ℝ); linarith) one_pos two_pos
  refine h.congr_fun (fun x _ => ?_) measurableSet_Ioi
  simp only [rpow_natCast,rpow_one,weight,neg_mul]

theorem moment (n : Nat) : ∫ x in Ioi 0, x^n*weight x = n.factorial/2^(n+1) := by
  have h := integral_rpow_mul_exp_neg_mul_Ioi (a := n+1) (r := 2) (by positivity) two_pos
  rw [Gamma_nat_eq_factorial] at h
  have same : ∫ x in Ioi (0 : ℝ), x^n*weight x =
      ∫ x in Ioi (0 : ℝ), x^((n : ℝ)+1-1)*exp (-(2*x)) := by
    apply setIntegral_congr_fun measurableSet_Ioi
    intro x _
    simp only [add_sub_cancel_right,rpow_natCast,weight]
  have power : ((1 : ℝ)/2)^((n : ℝ)+1) = 1/2^(n+1) := by
    rw [← Nat.cast_succ,rpow_natCast,one_div_pow]
  rw [same,h,power]
  ring

/- `|log x| ≤ |x-1|/√x`, from `|y| ≤ sinh |y|` at half the logarithm. -/
theorem logSquare {x : ℝ} (pos : 0 < x) : x*log x^2 ≤ (x-1)^2 := by
  have half : (log x/2)^2 ≤ sinh (log x/2)^2 := by
    rw [sq_le_sq,abs_sinh]
    exact self_le_sinh_iff.mpr (abs_nonneg _)
  have double : cosh (log x) = 2*sinh (log x/2)^2+1 := by
    have h := cosh_two_mul (log x/2)
    rw [cosh_sq,mul_div_cancel₀ _ two_ne_zero] at h
    linarith
  rw [cosh_log pos] at double
  have inverse : x*x⁻¹ = 1 := mul_inv_cancel₀ pos.ne'
  have scaled := mul_le_mul_of_nonneg_left half pos.le
  nlinarith

theorem logSquareNext {x : ℝ} (pos : 0 < x) : x^2*log x^2 ≤ x^3-2*x^2+x := by
  have scaled := mul_le_mul_of_nonneg_left (logSquare pos) pos.le
  nlinarith

theorem logMomentIntegrable : IntegrableOn (fun x => x*log x*weight x) (Ioi 0) := by
  have bound : IntegrableOn (fun x => x^2*weight x+x^0*weight x) (Ioi 0) :=
    (momentIntegrable 2).add (momentIntegrable 0)
  refine Integrable.mono' bound ?_ ?_
  · exact (continuous_mul_log.mul (by unfold weight; fun_prop)).aestronglyMeasurable
  · apply (ae_restrict_mem measurableSet_Ioi).mono
    intro x pos
    have square := logSquare (x := x) pos
    have pos : 0 < x := pos
    have close : |x*log x| ≤ x^2+1 := by
      rw [abs_le]
      constructor
      · nlinarith [sq_nonneg (log x+1)]
      · nlinarith [sq_nonneg (log x-1)]
    rw [norm_mul,norm_of_nonneg (weightPos x).le,norm_eq_abs]
    nlinarith [weightPos x]

theorem gammaLogMoment : ∫ x in Ioi 0, x*log x*exp (-x) = 1-eulerMascheroniConstant := by
  have integral := Complex.hasDerivAt_GammaIntegral (s := 2) (by norm_num)
  have value := Complex.hasDerivAt_Gamma_nat 1
  have near : Complex.GammaIntegral =ᶠ[nhds 2] Complex.Gamma := by
    have half : ∀ᶠ s in nhds (2 : ℂ), 0 < s.re :=
      Complex.continuous_re.continuousAt.eventually (lt_mem_nhds (by norm_num))
    exact half.mono fun s pos => (Complex.Gamma_eq_integral pos).symm
  rw [show ((1 : Nat) : ℂ)+1 = 2 by norm_num] at value
  have same := (near.hasDerivAt_iff.mp integral).unique value
  have real : ∫ x in Ioi (0 : ℝ), (x : ℂ)^((2 : ℂ)-1)*(log x*exp (-x)) =
      ((∫ x in Ioi 0, x*log x*exp (-x) : ℝ) : ℂ) := by
    rw [← integral_complex_ofReal]
    apply setIntegral_congr_fun measurableSet_Ioi
    intro x _
    have square : (2 : ℂ)-1 = 1 := by norm_num
    simp only [square,Complex.cpow_one,Complex.ofReal_mul,mul_assoc]
  rw [real] at same
  have h : (∫ x in Ioi 0, x*log x*exp (-x) : ℝ) = -eulerMascheroniConstant+1 := by
    simpa using congrArg Complex.re same
  linarith

theorem logMoment :
    ∫ x in Ioi 0, x*log x*weight x = (1-eulerMascheroniConstant-log 2)/4 := by
  have doubled := integral_comp_mul_left_Ioi (fun x => x*log x*exp (-x)) 0 two_pos
  rw [mul_zero,gammaLogMoment] at doubled
  have split : ∫ x in Ioi (0 : ℝ), 2*x*log (2*x)*exp (-(2*x)) =
      2*(∫ x in Ioi 0, x*log x*weight x)+2*log 2*∫ x in Ioi 0, x^1*weight x := by
    rw [← integral_const_mul,← integral_const_mul,← integral_add
      (logMomentIntegrable.const_mul 2) ((momentIntegrable 1).const_mul (2*log 2))]
    apply setIntegral_congr_fun measurableSet_Ioi
    intro x pos
    have pos : 0 < x := pos
    simp only [log_mul two_ne_zero pos.ne',weight]
    ring
  have first := moment 1
  rw [split,first,smul_eq_mul] at doubled
  norm_num at doubled
  linarith

theorem logTwoSix : log 64 = 6*log 2 := by
  rw [show (64 : ℝ) = 2^6 by norm_num,log_pow]
  norm_num

theorem logMomentBounds :
    (∫ x in Ioi 0, x*log x*weight x) < -656/10000 ∧
      -696/10000 < ∫ x in Ioi 0, x*log x*weight x := by
  have under := eulerMascheroniSeq_lt_eulerMascheroniConstant 63
  have upper := eulerMascheroniConstant_lt_eulerMascheroniSeq' 64
  have two := log_two_gt_d9
  have two' := log_two_lt_d9
  rw [eulerMascheroniSeq,show ((63 : Nat) : ℝ)+1 = 64 by norm_num,logTwoSix] at under
  rw [eulerMascheroniSeq',if_neg (by norm_num),show ((64 : Nat) : ℝ) = 64 by norm_num,
    logTwoSix] at upper
  have low : ((47282/10000 : ℚ) : ℝ) < harmonic 63 := Rat.cast_lt.mpr (by decide +kernel)
  have high : (harmonic 64 : ℝ) < ((4744/1000 : ℚ) : ℝ) := Rat.cast_lt.mpr (by decide +kernel)
  push_cast at low high
  rw [logMoment]
  constructor <;> linarith

noncomputable def series (a b c d e x : ℝ) : ℝ :=
  a*(x^0*weight x)+b*(x*log x*weight x)+
    (c*(x^1*weight x)+d*(x^2*weight x)+e*(x^3*weight x))

section
variable (a b c d e : ℝ)

theorem seriesHead :
    IntegrableOn (fun x => a*(x^0*weight x)+b*(x*log x*weight x)) (Ioi 0) :=
  ((momentIntegrable 0).const_mul a).add (logMomentIntegrable.const_mul b)

theorem seriesMiddle :
    IntegrableOn (fun x => c*(x^1*weight x)+d*(x^2*weight x)) (Ioi 0) :=
  ((momentIntegrable 1).const_mul c).add ((momentIntegrable 2).const_mul d)

theorem seriesTail :
    IntegrableOn (fun x => c*(x^1*weight x)+d*(x^2*weight x)+e*(x^3*weight x)) (Ioi 0) :=
  (seriesMiddle c d).add ((momentIntegrable 3).const_mul e)

theorem seriesIntegrable : IntegrableOn (series a b c d e) (Ioi 0) :=
  (seriesHead a b).add (seriesTail c d e)

theorem seriesIntegral :
    ∫ x in Ioi 0, series a b c d e x =
      a/2+b*(∫ x in Ioi 0, x*log x*weight x)+(c/4+d/4+e*(3/8)) := by
  simp only [series]
  rw [integral_add (seriesHead a b) (seriesTail c d e),
    integral_add ((momentIntegrable 0).const_mul a) (logMomentIntegrable.const_mul b),
    integral_add (seriesMiddle c d) ((momentIntegrable 3).const_mul e),
    integral_add ((momentIntegrable 1).const_mul c) ((momentIntegrable 2).const_mul d)]
  simp only [integral_const_mul,moment]
  norm_num [Nat.factorial]
  ring

end

end UdpBalancer.LogMoments
