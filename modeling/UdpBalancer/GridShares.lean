import Mathlib.Analysis.SumIntegralComparisons
import Mathlib.MeasureTheory.Function.JacobianOneDim
import UdpBalancer.PowerRace

/-! Pairs of grid points decided by a power of their logarithms: the share of
the pairs over the threshold is the race up to one grid step. -/
namespace UdpBalancer.GridShares
open MeasureTheory Set Real PowerRace

noncomputable def threshold (r u : ℝ) : ℝ := exp (-(-log u)^r)

variable {r : ℝ}

theorem thresholdPos (u : ℝ) : 0 < threshold r u := exp_pos _

theorem thresholdLe {u : ℝ} (pos : 0 < u) (unit : u ≤ 1) : threshold r u ≤ 1 :=
  exp_le_one_iff.mpr (neg_nonpos.mpr (rpow_nonneg (neg_nonneg.mpr (log_nonpos pos.le unit)) r))

theorem thresholdOne (pos : 0 < r) : threshold r 1 = 1 := by
  rw [threshold,log_one,neg_zero,zero_rpow pos.ne',neg_zero,exp_zero]

-- the threshold with its limit at zero, where `log` has no value
noncomputable def curve (r u : ℝ) : ℝ := if u ≤ 0 then 0 else threshold r u

theorem curveOver {u : ℝ} (pos : 0 < u) : curve r u = threshold r u := if_neg (not_le.mpr pos)

theorem curveMono (pos : 0 < r) : MonotoneOn (curve r) (Icc 0 1) := by
  intro u low v high order
  rcases low.1.eq_or_lt with zero | upper
  · rw [← zero,curve,if_pos le_rfl,curve]
    split
    · exact le_rfl
    · exact (thresholdPos v).le
  · have past := upper.trans_le order
    rw [curveOver upper,curveOver past,threshold,threshold,exp_le_exp,neg_le_neg_iff]
    exact rpow_le_rpow (neg_nonneg.mpr (log_nonpos past.le high.2))
      (neg_le_neg (log_le_log upper order)) pos.le

theorem expImage : (fun x => exp (-x)) '' Ioi 0 = Ioo 0 1 := by
  ext u
  constructor
  · intro ⟨x,pos,same⟩
    rw [← same]
    exact ⟨exp_pos _,by simpa using pos⟩
  · intro ⟨pos,unit⟩
    exact ⟨-log u,neg_pos.mpr (log_neg pos unit),by simp only [neg_neg,exp_log pos]⟩

theorem curveIntegral : ∫ u in (0 : ℝ)..1, curve r u = race r := by
  have slope : ∀ x ∈ Ioi (0 : ℝ),
      HasDerivWithinAt (fun x => exp (-x)) (-exp (-x)) (Ioi 0) x := by
    intro x _
    exact ((hasDerivAt_neg x).exp.congr_deriv (by ring)).hasDerivWithinAt
  have apart : InjOn (fun x => exp (-x)) (Ioi 0) := fun x _ y _ same =>
    neg_injective (exp_injective same)
  have change := integral_image_eq_integral_abs_deriv_smul measurableSet_Ioi slope apart (curve r)
  rw [intervalIntegral.integral_of_le zero_le_one,integral_Ioc_eq_integral_Ioo,← expImage,change,race]
  apply setIntegral_congr_fun measurableSet_Ioi
  intro x _
  simp only [abs_neg,abs_exp,smul_eq_mul,curveOver (exp_pos _),threshold,log_exp,neg_neg]

variable {n : Nat}

theorem gridSum (pos : 0 < r) (some : 0 < n) :
    n*race r ≤ ∑ h ∈ Finset.Icc 1 n, threshold r (h/n) ∧
    ∑ h ∈ Finset.Icc 1 n, threshold r (h/n) ≤ n*race r+1 := by
  have size : (0 : ℝ) < n := Nat.cast_pos.mpr some
  have mono : MonotoneOn (fun y => curve r (y/n)) (Icc 0 (0+n)) := by
    intro x low y high order
    rw [zero_add] at low high
    exact curveMono pos ⟨div_nonneg low.1 size.le,(div_le_one size).mpr low.2⟩
      ⟨div_nonneg high.1 size.le,(div_le_one size).mpr high.2⟩ (by gcongr)
  have area : ∫ y in (0 : ℝ)..0+n, curve r (y/n) = n*race r := by
    rw [intervalIntegral.integral_comp_div _ size.ne',zero_div,zero_add,div_self size.ne',
      curveIntegral,smul_eq_mul]
  have under := mono.integral_le_sum
  have upper := mono.sum_le_integral
  rw [area] at under upper
  have grid : ∑ h ∈ Finset.Icc 1 n, threshold r (h/n) =
      ∑ i ∈ Finset.range n, curve r ((0+((i+1 : Nat) : ℝ))/n) := by
    rw [← Finset.Ico_add_one_right_eq_Icc,Finset.sum_Ico_eq_sum_range,Nat.add_sub_cancel]
    apply Finset.sum_congr rfl
    intro i _
    rw [zero_add,curveOver (by positivity),add_comm 1 i]
  have shift : ∑ i ∈ Finset.range n, curve r ((0+((i+1 : Nat) : ℝ))/n) =
      ∑ i ∈ Finset.range n, curve r ((0+(i : ℝ))/n)+1 := by
    have front := Finset.sum_range_succ' (fun i : Nat => curve r ((0+(i : ℝ))/n)) n
    have back := Finset.sum_range_succ (fun i : Nat => curve r ((0+(i : ℝ))/n)) n
    rw [back,zero_add (n : ℝ),div_self size.ne',curveOver one_pos,thresholdOne pos,Nat.cast_zero,
      zero_add (0 : ℝ),zero_div,curve,if_pos le_rfl,add_zero] at front
    exact front.symm
  rw [grid]
  exact ⟨under,by linarith⟩

def Decides (r : ℝ) (n : Nat) (wins : Nat → Nat → Prop) : Prop :=
  ∀ h ∈ Finset.Icc 1 n, ∀ g ∈ Finset.Icc 1 n,
    (threshold r (h/n) < g/n → wins h g) ∧ (wins h g → threshold r (h/n) ≤ g/n)

variable {wins : Nat → Nat → Prop} [DecidableRel wins]

theorem unitGrid {h : Nat} (inside : h ∈ Finset.Icc 1 n) : 0 < (h/n : ℝ) ∧ (h/n : ℝ) ≤ 1 := by
  obtain ⟨low,high⟩ := Finset.mem_Icc.mp inside
  have size : (0 : ℝ) < n := Nat.cast_pos.mpr (low.trans high)
  exact ⟨div_pos (Nat.cast_pos.mpr low) size,(div_le_one size).mpr (Nat.cast_le.mpr high)⟩

theorem rowCount (decides : Decides r n wins) {h : Nat} (inside : h ∈ Finset.Icc 1 n) :
    n-n*threshold r (h/n) ≤ ((Finset.Icc 1 n).filter (wins h)).card ∧
    ((Finset.Icc 1 n).filter (wins h)).card ≤ n-n*threshold r (h/n)+1 := by
  obtain ⟨pos,unit⟩ := unitGrid inside
  obtain ⟨low,high⟩ := Finset.mem_Icc.mp inside
  have size : (0 : ℝ) < n := Nat.cast_pos.mpr (low.trans high)
  have level : n*threshold r (h/n) ≤ n :=
    mul_le_of_le_one_right size.le (thresholdLe pos unit)
  have nonneg : 0 ≤ n*threshold r (h/n) := mul_nonneg size.le (thresholdPos _).le
  constructor
  · have above : Finset.Ioc ⌊n*threshold r (h/n)⌋₊ n ⊆ (Finset.Icc 1 n).filter (wins h) := by
      intro g beyond
      obtain ⟨past,most⟩ := Finset.mem_Ioc.mp beyond
      have grid : g ∈ Finset.Icc 1 n := Finset.mem_Icc.mpr ⟨Nat.one_le_of_lt past,most⟩
      have upper := (Nat.floor_lt nonneg).mp past
      exact Finset.mem_filter.mpr ⟨grid,(decides h inside g grid).1 ((lt_div_iff₀' size).mpr upper)⟩
    have count := Finset.card_le_card above
    rw [Nat.card_Ioc] at count
    have floor := Nat.floor_le nonneg
    have : (n : ℝ) ≤ ((Finset.Icc 1 n).filter (wins h)).card+(⌊n*threshold r (h/n)⌋₊ : ℝ) := by
      exact_mod_cast (by omega)
    linarith
  · have below : (Finset.Icc 1 n).filter (wins h) ⊆ Finset.Icc ⌈n*threshold r (h/n)⌉₊ n := by
      intro g won
      obtain ⟨grid,wins⟩ := Finset.mem_filter.mp won
      have under := (le_div_iff₀' size).mp ((decides h inside g grid).2 wins)
      exact Finset.mem_Icc.mpr ⟨Nat.ceil_le.mpr under,(Finset.mem_Icc.mp grid).2⟩
    have count := Finset.card_le_card below
    rw [Nat.card_Icc] at count
    have ceil := Nat.le_ceil (n*threshold r (h/n))
    have top : ⌈n*threshold r (h/n)⌉₊ ≤ n := Nat.ceil_le.mpr level
    have : ((Finset.Icc 1 n).filter (wins h)).card+(⌈n*threshold r (h/n)⌉₊ : ℝ) ≤ n+1 := by
      exact_mod_cast (by omega)
    linarith

noncomputable def share (n : Nat) (wins : Nat → Nat → Prop) [DecidableRel wins] : ℝ :=
  (((Finset.Icc 1 n ×ˢ Finset.Icc 1 n).filter fun p => wins p.1 p.2).card : ℝ)/n^2

theorem shareRace (pos : 0 < r) (some : 0 < n) (decides : Decides r n wins) :
    |share n wins-(1-race r)| ≤ 1/n := by
  have size : (0 : ℝ) < n := Nat.cast_pos.mpr some
  have rows : (((Finset.Icc 1 n ×ˢ Finset.Icc 1 n).filter fun p => wins p.1 p.2).card : ℝ) =
      ∑ h ∈ Finset.Icc 1 n, (((Finset.Icc 1 n).filter (wins h)).card : ℝ) := by
    rw [← Nat.cast_sum]
    simp only [Finset.card_filter,Finset.sum_product]
  have low := Finset.sum_le_sum fun h inside => (rowCount decides (h := h) inside).1
  have high := Finset.sum_le_sum fun h inside => (rowCount decides (h := h) inside).2
  rw [← rows] at low high
  obtain ⟨under,upper⟩ := gridSum pos some
  simp only [Finset.sum_add_distrib,Finset.sum_sub_distrib,← Finset.mul_sum,Finset.sum_const,
    Nat.card_Icc,Nat.add_sub_cancel,nsmul_eq_mul,mul_one] at low high
  have least := mul_le_mul_of_nonneg_left under size.le
  have most := mul_le_mul_of_nonneg_left upper size.le
  calc |share n wins-(1-race r)| = _ := by rw [share,div_sub' (by positivity),abs_div]
    _ ≤ n/|(n : ℝ)^2| := by
        gcongr
        rw [abs_le]
        constructor <;> linarith
    _ = 1/n := by
        rw [abs_of_pos (by positivity)]
        field_simp

theorem shareComplement (wins : Nat → Nat → Prop) [DecidableRel wins] (some : 0 < n) :
    share n wins+share n (fun g h => ¬wins h g) = 1 := by
  have turned : ((Finset.Icc 1 n ×ˢ Finset.Icc 1 n).filter fun p => ¬wins p.2 p.1).card =
      ((Finset.Icc 1 n ×ˢ Finset.Icc 1 n).filter fun p => ¬wins p.1 p.2).card :=
    Finset.card_equiv (Equiv.prodComm Nat Nat) fun p => by
      simp only [Finset.mem_filter,Finset.mem_product,Equiv.prodComm_apply,Prod.fst_swap,
        Prod.snd_swap,and_comm]
  have whole := Finset.card_filter_add_card_filter_not
    (s := Finset.Icc 1 n ×ˢ Finset.Icc 1 n) (p := fun p => wins p.1 p.2)
  have size : (0 : ℝ) < n^2 := pow_pos (Nat.cast_pos.mpr some) 2
  rw [share,share,turned,← add_div,← Nat.cast_add,whole,Finset.card_product,Nat.card_Icc,
    Nat.add_sub_cancel,← sq,Nat.cast_pow,div_self size.ne']

end UdpBalancer.GridShares
