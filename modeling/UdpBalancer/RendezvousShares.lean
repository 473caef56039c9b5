import UdpBalancer.GridShares
import UdpBalancer.RendezvousChoice

/-! The shares of two alive backends under rendezvous hashing when their hash
values run independently over `1..2^64-1` and the scores are exact. -/
namespace UdpBalancer.RendezvousShares
open Backends Rendezvous GridShares PowerRace Real

theorem u64MaxNat : u64Max.toNat = 2^64-1 := rfl

theorem scoreFin {w : ℝ} (pos : 0 < w) {h : Nat} (inside : h ∈ Finset.Icc 1 u64Max.toNat) :
    weightedHash exactArith (UInt64.ofNat h) (.fin w) =
      .fin ((-log (h/u64Max.toNat))^(1/w)) := by
  obtain ⟨least,most⟩ := Finset.mem_Icc.mp inside
  have small : h < 2^64 := by
    rw [u64MaxNat] at most
    omega
  have same : (UInt64.ofNat h).toNat = h := UInt64.toNat_ofNat_of_lt small
  have nonzero : UInt64.ofNat h ≠ 0 := by
    intro zero
    rw [zero] at same
    exact absurd least (same ▸ Nat.not_succ_le_zero 0)
  rw [scoreOfNonzero pos nonzero,unit,same]

theorem scorePower {w0 w1 u : ℝ} (pos0 : 0 < w0) (pos1 : 0 < w1) (pos : 0 < u) (unit : u ≤ 1) :
    (-log u)^(1/w0) = ((-log u)^(w1/w0))^(1/w1) := by
  rw [← rpow_mul (neg_nonneg.mpr (log_nonpos pos.le unit))]
  congr 1
  field_simp

section
variable {w0 w1 : ℝ} (pos0 : 0 < w0) (pos1 : 0 < w1) {u v : ℝ} (pos : 0 < u) (unit : u ≤ 1)
  (above : 0 < v) (within : v ≤ 1)
include pos0 pos1 pos unit above within

theorem scoreBelow : (-log v)^(1/w1) < (-log u)^(1/w0) ↔ threshold (w1/w0) u < v := by
  have low : 0 ≤ -log u := neg_nonneg.mpr (log_nonpos pos.le unit)
  have high : 0 ≤ -log v := neg_nonneg.mpr (log_nonpos above.le within)
  rw [scorePower pos0 pos1 pos unit,
    rpow_lt_rpow_iff high (rpow_nonneg low _) (one_div_pos.mpr pos1),threshold,
    ← lt_log_iff_exp_lt above,neg_lt]

theorem scoreAtMost : (-log v)^(1/w1) ≤ (-log u)^(1/w0) ↔ threshold (w1/w0) u ≤ v := by
  have low : 0 ≤ -log u := neg_nonneg.mpr (log_nonpos pos.le unit)
  have high : 0 ≤ -log v := neg_nonneg.mpr (log_nonpos above.le within)
  rw [scorePower pos0 pos1 pos unit,
    rpow_le_rpow_iff high (rpow_nonneg low _) (one_div_pos.mpr pos1),threshold,
    ← le_log_iff_exp_le above,neg_le]

end

theorem scoresDecide {w0 w1 : ℝ} (pos0 : 0 < w0) (pos1 : 0 < w1) {n : Nat}
    {wins : Nat → Nat → Prop}
    (won : ∀ h ∈ Finset.Icc 1 n, ∀ g ∈ Finset.Icc 1 n, wins h g →
      (-log (g/n))^(1/w1) ≤ (-log (h/n))^(1/w0))
    (lost : ∀ h ∈ Finset.Icc 1 n, ∀ g ∈ Finset.Icc 1 n, ¬wins h g →
      (-log (h/n))^(1/w0) ≤ (-log (g/n))^(1/w1)) :
    Decides (w1/w0) n wins := by
  intro h left g right
  obtain ⟨low,unit⟩ := unitGrid left
  obtain ⟨pos,within⟩ := unitGrid right
  constructor
  · intro upper
    by_contra other
    have higher := (scoreBelow pos0 pos1 low unit pos within).mpr upper
    exact absurd (lost h left g right other) (not_le.mpr higher)
  · intro chosen
    exact (scoreAtMost pos0 pos1 low unit pos within).mp (won h left g right chosen)

structure Duel where
  backends : List (WeightedBackend ℝ)
  alive : Index backends → Bool
  first : Index backends
  second : Index backends
  distinct : first ≠ second
  others : ∀ i, alive i = true ↔ i = first ∨ i = second
  apart : backends[first].address.display ≠ backends[second].address.display
  w0 : ℝ
  w1 : ℝ
  weight0 : backends[first].weight = .fin w0
  weight1 : backends[second].weight = .fin w1
  pos0 : 0 < w0
  pos1 : 0 < w1

namespace Duel
variable (d : Duel) (key : Bytes)

def hash (h g : Nat) : Bytes → Bytes → UInt64 := fun _ addr =>
  if addr = d.backends[d.first].address.display then UInt64.ofNat h else UInt64.ofNat g

def selects (h g : Nat) : Prop :=
  next exactArith (d.hash h g) d.backends d.alive key = some d.first

noncomputable instance : DecidableRel (d.selects key) := fun h g =>
  inferInstanceAs (Decidable (next exactArith (d.hash h g) d.backends d.alive key = some d.first))

noncomputable def fraction : ℝ := share u64Max.toNat (d.selects key)

noncomputable def ratio : ℝ := max d.w0 d.w1/min d.w0 d.w1

variable {d key} {h g : Nat}

theorem scoreFirst (inside : h ∈ Finset.Icc 1 u64Max.toNat) :
    score exactArith (d.hash h g) d.backends key d.first =
      .fin ((-log (h/u64Max.toNat))^(1/d.w0)) := by
  rw [score,d.weight0,hash,if_pos rfl,scoreFin d.pos0 inside]

theorem scoreSecond (inside : g ∈ Finset.Icc 1 u64Max.toNat) :
    score exactArith (d.hash h g) d.backends key d.second =
      .fin ((-log (g/u64Max.toNat))^(1/d.w1)) := by
  rw [score,d.weight1,hash,if_neg d.apart.symm,scoreFin d.pos1 inside]

theorem decided (left : h ∈ Finset.Icc 1 u64Max.toNat) (right : g ∈ Finset.Icc 1 u64Max.toNat) :
    (d.selects key h g →
      (-log (g/u64Max.toNat))^(1/d.w1) ≤ (-log (h/u64Max.toNat))^(1/d.w0)) ∧
    (¬d.selects key h g →
      (-log (h/u64Max.toNat))^(1/d.w0) ≤ (-log (g/u64Max.toNat))^(1/d.w1)) := by
  have up0 := (d.others d.first).mpr (.inl rfl)
  have up1 := (d.others d.second).mpr (.inr rfl)
  constructor
  · intro chosen
    have unbeaten := nextUnbeaten exactArith (d.hash h g) d.backends chosen up1
    rw [scoreFirst left,scoreSecond right,F64.gtFin] at unbeaten
    exact not_lt.mp (of_decide_eq_false unbeaten)
  · intro other
    have ranked : F64.gt (score exactArith (d.hash h g) d.backends key d.first) .negInf = true := by
      rw [scoreFirst left]
      rfl
    obtain ⟨i,chosen⟩ := nextRanked exactArith (d.hash h g) d.backends up0 ranked
    rcases (d.others i).mp (nextAlive exactArith (d.hash h g) d.backends chosen) with rfl | rfl
    · exact absurd chosen other
    · have unbeaten := nextUnbeaten exactArith (d.hash h g) d.backends chosen up0
      rw [scoreFirst left,scoreSecond right,F64.gtFin] at unbeaten
      exact not_lt.mp (of_decide_eq_false unbeaten)

variable (d key)

theorem firstDecides : Decides (d.w1/d.w0) u64Max.toNat (d.selects key) :=
  scoresDecide d.pos0 d.pos1 (fun _ left _ right => (decided left right).1)
    fun _ left _ right => (decided left right).2

theorem secondDecides :
    Decides (d.w0/d.w1) u64Max.toNat (fun g h => ¬d.selects key h g) :=
  scoresDecide d.pos1 d.pos0 (fun _ right _ left => (decided left right).2)
    fun _ right _ left back => (decided left right).1 (not_not.mp back)

theorem u64MaxPos : 0 < u64Max.toNat := by
  rw [u64MaxNat]
  norm_num

theorem ratioLeast : 1 ≤ d.ratio :=
  (one_le_div (lt_min d.pos0 d.pos1)).mpr min_le_max

theorem closeExcess {x e error : ℝ} (nonneg : 0 ≤ e) (close : |x-e| ≤ error) :
    |(|x|)-e| ≤ error := by
  have h := (abs_abs_sub_abs_le x e).trans close
  rwa [abs_of_nonneg nonneg] at h

/- The fraction misses the proportional share by the excess of the ratio, in
favour of the lighter backend. -/
theorem fractionSkew :
    |(|d.fraction key-d.w0/(d.w0+d.w1)|)-excess d.ratio| ≤ 1/u64Max.toNat := by
  have pos0 := d.pos0
  have pos1 := d.pos1
  have nonneg : 0 ≤ excess d.ratio := by
    rw [← excessOne]
    exact excessMono one_pos d.ratioLeast
  rcases le_total d.w0 d.w1 with lighter | heavier
  · have near := shareRace (div_pos pos1 pos0) u64MaxPos (d.firstDecides key)
    have same : d.ratio = d.w1/d.w0 := by rw [ratio,max_eq_right lighter,min_eq_left lighter]
    have part : d.w0/(d.w0+d.w1) = 1/(1+d.ratio) := by
      rw [same]
      field_simp
    rw [← same] at near
    apply closeExcess nonneg
    rw [part,excess,fraction]
    convert near using 2
    ring
  · have near := shareRace (div_pos pos0 pos1) u64MaxPos (d.secondDecides key)
    have whole := shareComplement (d.selects key) u64MaxPos
    have same : d.ratio = d.w0/d.w1 := by rw [ratio,max_eq_left heavier,min_eq_right heavier]
    have part : d.w0/(d.w0+d.w1) = 1-1/(1+d.ratio) := by
      rw [same]
      field_simp
      ring
    rw [← same,eq_sub_iff_add_eq'.mpr whole] at near
    rw [abs_sub_comm (d.fraction key)]
    apply closeExcess nonneg
    rw [part,excess,fraction]
    convert near using 2
    ring

noncomputable def band : ℝ := 64/u64Max.toNat

theorem bandSize : 0 < band ∧ band ≤ 1/2 := by
  rw [band,u64MaxNat]
  norm_num

theorem fairUnder (under : d.ratio ≤ fairLimit-band) :
    |d.fraction key-d.w0/(d.w0+d.w1)| ≤ 1/100 := by
  have skew := (abs_le.mp (d.fractionSkew key)).2
  have small := excessUnder bandSize.1 d.ratioLeast under
  rw [band,div_right_comm,div_self (by norm_num)] at small
  linarith

theorem unfairOver (upper : fairLimit+band ≤ d.ratio) :
    1/100 < |d.fraction key-d.w0/(d.w0+d.w1)| := by
  have skew := (abs_le.mp (d.fractionSkew key)).1
  have large := excessOver bandSize.1 bandSize.2 upper
  rw [band,div_right_comm,div_self (by norm_num)] at large
  linarith

/- The shares are proportional to a hundredth up to the band's lower end, and from its
upper end on they are not. In between single pairs gain and lose as the ratio grows. -/
theorem sharesDecided :
    (d.ratio ≤ fairLimit-band → |d.fraction key-d.w0/(d.w0+d.w1)| ≤ 1/100) ∧
    (fairLimit+band ≤ d.ratio → 1/100 < |d.fraction key-d.w0/(d.w0+d.w1)|) :=
  ⟨d.fairUnder key,d.unfairOver key⟩

theorem portsApart : (localhost 10000).display ≠ (localhost 10001).display := by
  decide

noncomputable def ports (w0 w1 : ℝ) (pos0 : 0 < w0) (pos1 : 0 < w1) : Duel where
  backends := [localBackend 10000 w0,localBackend 10001 w1]
  alive _ := true
  first := ⟨0,by simp⟩
  second := ⟨1,by simp⟩
  distinct := by simp
  others i := by
    have := i.isLt
    simp only [List.length_cons,List.length_nil] at this
    simp only [Fin.ext_iff,true_iff]
    omega
  apart := portsApart
  w0 := w0
  w1 := w1
  weight0 := rfl
  weight1 := rfl
  pos0 := pos0
  pos1 := pos1

noncomputable def evenPorts : Duel := ports 1 1 one_pos one_pos

noncomputable def testPorts : Duel := ports 10 1 (by norm_num) one_pos

theorem evenHalves : |evenPorts.fraction [1]-1/2| ≤ 1/100 := by
  have same : evenPorts.ratio = 1 := by norm_num [ratio,evenPorts,ports]
  have bounds := fairLimitBounds
  have narrow : band ≤ 1/20 := by
    rw [band,u64MaxNat]
    norm_num
  have fair := (sharesDecided evenPorts [1]).1 (by
    rw [same]
    linarith)
  have half : evenPorts.w0/(evenPorts.w0+evenPorts.w1) = 1/2 := by norm_num [evenPorts,ports]
  rwa [half] at fair

theorem tenToOne : 1/100 < |testPorts.fraction [1]-10/11| := by
  have same : testPorts.ratio = 10 := by norm_num [ratio,testPorts,ports]
  have unfair := unfairOver testPorts [1] (by
    rw [same]
    linarith [fairLimitBounds.2,bandSize.2])
  have part : testPorts.w0/(testPorts.w0+testPorts.w1) = 10/11 := by norm_num [testPorts,ports]
  rwa [part] at unfair

end Duel
end UdpBalancer.RendezvousShares
