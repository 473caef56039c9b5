import UdpBalancer.RendezvousChoice
import UdpBalancer.RendezvousShares

/-! Raising one backend's weight under rendezvous hashing with exact scores. The
exponent `1/weight` falls, so the score of a backend rises with its weight where
the negated logarithm is at most one and falls where it is more. -/
namespace UdpBalancer.Rendezvous
open Backends (Bytes SocketAddr localhost fnv1a)
open GridShares (threshold)
open Real

namespace ExactPool
variable {p : ExactPool} {hash : Bytes → Bytes → UInt64} {alive : Index p.backends → Bool}
  {key : Bytes}

variable (p hash key) in
noncomputable def level (i : Index p.backends) : ℝ := -log (unit (p.hashOf hash key i))

variable (p hash key) in
noncomputable def strength (i : Index p.backends) : ℝ := p.level hash key i^(1/p.weight i)

theorem levelNonneg {i} (nonzero : p.hashOf hash key i ≠ 0) : 0 ≤ p.level hash key i := by
  obtain ⟨pos,within⟩ := unitRange nonzero
  exact neg_nonneg.mpr (log_nonpos pos.le within)

theorem nextStrongest (nonzero : ∀ i, p.hashOf hash key i ≠ 0) {i} :
    p.next hash alive key = some i ↔ alive i = true ∧ ∀ j, alive j = true →
      p.strength hash key j ≤ p.strength hash key i ∧
        (j < i → p.strength hash key j < p.strength hash key i) := by
  have compare : ∀ j k, F64.gt (score exactArith hash p.backends key j)
      (score exactArith hash p.backends key k) =
        decide (p.strength hash key k < p.strength hash key j) := by
    intro j k
    rw [scoreNonzero (nonzero j),scoreNonzero (nonzero k),F64.gtFin]
    rfl
  rw [nextBest]
  constructor
  · intro ⟨best,_⟩
    refine ⟨best.maximal.up,fun j up => ?_⟩
    have le : p.strength hash key j ≤ p.strength hash key i := by
      have unbeaten := best.maximal.unbeaten j up
      rw [compare] at unbeaten
      exact not_lt.mp (of_decide_eq_false unbeaten)
    refine ⟨le,fun less => lt_of_le_of_ne le fun same => best.first j less ⟨up,fun k live => ?_⟩⟩
    have unbeaten := best.maximal.unbeaten k live
    rwa [compare,← same,← compare] at unbeaten
  · intro ⟨up,wins⟩
    refine ⟨⟨⟨up,fun j live => ?_⟩,fun j less maximal => ?_⟩,nonzero i⟩
    · rw [compare]
      exact decide_eq_false (not_lt.mpr (wins j live).1)
    · have unbeaten := maximal.unbeaten i up
      rw [compare] at unbeaten
      exact of_decide_eq_false unbeaten ((wins j maximal.up).2 less)

end ExactPool

structure Raise where
  pool : ExactPool
  alive : Index pool.backends → Bool
  hash : Bytes → Bytes → UInt64
  key : Bytes
  nonzero : ∀ i, pool.hashOf hash key i ≠ 0
  chosen : Index pool.backends
  raised : ℝ
  higher : pool.weight chosen < raised

namespace Raise
variable (r : Raise)

theorem raisedPos : 0 < r.raised := (r.pool.positive r.chosen).trans r.higher

def reweighed : List (WeightedBackend ℝ) :=
  r.pool.backends.set r.chosen ⟨(r.pool.backends.get r.chosen).address,.fin r.raised⟩

theorem sameLength : r.reweighed.length = r.pool.backends.length := List.length_set

def back (i : Index r.reweighed) : Index r.pool.backends := i.cast r.sameLength

noncomputable def weight (i : Index r.pool.backends) : ℝ :=
  if i = r.chosen then r.raised else r.pool.weight i

theorem reweighedAt (i : Index r.reweighed) : r.reweighed.get i =
    ⟨(r.pool.backends.get (r.back i)).address,.fin (r.weight (r.back i))⟩ := by
  have written : r.reweighed.get i = if r.chosen.val = i.val then
      ⟨(r.pool.backends.get r.chosen).address,.fin r.raised⟩
    else r.pool.backends.get (r.back i) := List.getElem_set _
  rw [written,weight]
  split
  · rename_i same
    have same : r.back i = r.chosen := Fin.ext same.symm
    simp only [same,if_true]
  · rename_i other
    have other : r.back i ≠ r.chosen := fun same => other (congrArg Fin.val same).symm
    rw [if_neg other,← r.pool.weighted]

noncomputable def after : ExactPool where
  backends := r.reweighed
  weight i := r.weight (r.back i)
  weighted i := by rw [reweighedAt]
  positive i := by
    unfold weight
    split
    · exact r.raisedPos
    · exact r.pool.positive _

def home (i : Index r.after.backends) : Index r.pool.backends := r.back i

def selects : Prop := r.pool.next r.hash r.alive r.key = some r.chosen

def stillSelects : Prop :=
  (r.after.next r.hash (fun i => r.alive (r.home i)) r.key).map r.home = some r.chosen

def Kept : Prop := r.selects → r.stillSelects

noncomputable def unitAt (i : Index r.pool.backends) : ℝ := unit (r.pool.hashOf r.hash r.key i)

noncomputable def level (i : Index r.pool.backends) : ℝ := r.pool.level r.hash r.key i

def Clear : Prop := ∀ i, i ≠ r.chosen → r.alive i = true →
  threshold (r.pool.weight i/r.raised) (r.unitAt r.chosen) ≤ r.unitAt i ∧
    (i < r.chosen → threshold (r.pool.weight i/r.raised) (r.unitAt r.chosen) < r.unitAt i)

def HighHash : Prop :=
  (u64Max.toNat : ℝ) ≤ exp 1*(r.pool.hashOf r.hash r.key r.chosen).toNat

variable {r}

theorem hashHome (i : Index r.after.backends) :
    r.after.hashOf r.hash r.key i = r.pool.hashOf r.hash r.key (r.home i) := by
  have written := congrArg (fun b => r.hash r.key b.address.display) (r.reweighedAt i)
  exact written

theorem strengthAfter (i : Index r.after.backends) :
    r.after.strength r.hash r.key i = r.level (r.home i)^(1/r.weight (r.home i)) := by
  rw [ExactPool.strength,ExactPool.level,hashHome]
  rfl

theorem homePlace (i : Index r.pool.backends) : ∃ j, r.home j = i ∧ ∀ k, r.home k = i → k = j :=
  ⟨i.cast r.sameLength.symm,rfl,fun k same => Fin.ext (show k.val = i.val from same ▸ rfl)⟩

theorem stillStrongest : r.stillSelects ↔ r.alive r.chosen = true ∧ ∀ j, r.alive j = true →
    r.level j^(1/r.weight j) ≤ r.level r.chosen^(1/r.raised) ∧
      (j < r.chosen → r.level j^(1/r.weight j) < r.level r.chosen^(1/r.raised)) := by
  have nonzero : ∀ i, r.after.hashOf r.hash r.key i ≠ 0 := by
    intro i
    rw [hashHome]
    exact r.nonzero _
  obtain ⟨c,atChosen,only⟩ := homePlace r.chosen
  have own : r.weight r.chosen = r.raised := if_pos rfl
  have mapped : r.stillSelects ↔
      r.after.next r.hash (fun i => r.alive (r.home i)) r.key = some c := by
    unfold stillSelects
    rw [Option.map_eq_some_iff]
    constructor
    · intro ⟨k,found,same⟩
      rwa [only k same] at found
    · exact fun found => ⟨c,found,atChosen⟩
  rw [mapped,ExactPool.nextStrongest nonzero,atChosen]
  simp only [strengthAfter,atChosen,own]
  constructor
  · intro ⟨up,wins⟩
    refine ⟨up,fun j live => ?_⟩
    obtain ⟨k,atK,_⟩ := homePlace j
    subst atK
    refine ⟨(wins k live).1,fun less => (wins k live).2 ?_⟩
    rwa [← atChosen] at less
  · intro ⟨up,wins⟩
    refine ⟨up,fun k live => ⟨(wins _ live).1,fun less => (wins _ live).2 ?_⟩⟩
    rwa [← atChosen]

/- After the raise the other scores are what they were, so the thresholds of the
rivals' hash values decide. -/
theorem stillClear : r.stillSelects ↔ r.alive r.chosen = true ∧ r.Clear := by
  rw [stillStrongest]
  have range := fun i => unitRange (r.nonzero i)
  have rival : ∀ j, j ≠ r.chosen → r.weight j = r.pool.weight j := fun j other => if_neg other
  have atMost := fun j => RendezvousShares.scoreAtMost r.raisedPos (r.pool.positive j)
    (range r.chosen).1 (range r.chosen).2 (range j).1 (range j).2
  have below := fun j => RendezvousShares.scoreBelow r.raisedPos (r.pool.positive j)
    (range r.chosen).1 (range r.chosen).2 (range j).1 (range j).2
  constructor
  · intro ⟨up,wins⟩
    refine ⟨up,fun j other live => ?_⟩
    have wins := wins j live
    rw [rival j other] at wins
    exact ⟨(atMost j).mp wins.1,fun less => (below j).mp (wins.2 less)⟩
  · intro ⟨up,clear⟩
    refine ⟨up,fun j live => ?_⟩
    cases Classical.em (j = r.chosen) with
    | inl same =>
      subst same
      have own : r.weight r.chosen = r.raised := if_pos rfl
      rw [own]
      exact ⟨le_refl _,fun less => absurd less (lt_irrefl _)⟩
    | inr other =>
      have clear := clear j other live
      rw [rival j other]
      exact ⟨(atMost j).mpr clear.1,fun less => (below j).mpr (clear.2 less)⟩

theorem selectsUp (selected : r.selects) : r.alive r.chosen = true :=
  nextAlive exactArith r.hash r.pool.backends selected

theorem highLevel : r.HighHash ↔ r.level r.chosen ≤ 1 := by
  obtain ⟨pos,_⟩ := unitRange (r.nonzero r.chosen)
  have size : (0 : ℝ) < u64Max.toNat := by
    rw [RendezvousShares.u64MaxNat]
    norm_num
  have logs : r.level r.chosen ≤ 1 ↔ exp (-1) ≤ unit (r.pool.hashOf r.hash r.key r.chosen) := by
    rw [← le_log_iff_exp_le pos]
    exact neg_le
  rw [logs,HighHash,unit,le_div_iff₀ size,exp_neg,inv_mul_le_iff₀ (exp_pos 1)]

theorem scoreRises {level w v : ℝ} (nonneg : 0 ≤ level) (low : level ≤ 1) (pos : 0 < w)
    (less : w < v) : level^(1/w) ≤ level^(1/v) := by
  have exponent : 1/v ≤ 1/w := one_div_le_one_div_of_le pos less.le
  rcases nonneg.eq_or_lt with zero | positive
  · rw [← zero,zero_rpow (one_div_pos.mpr pos).ne',zero_rpow (one_div_pos.mpr (pos.trans less)).ne']
  · exact rpow_le_rpow_of_exponent_ge positive low exponent

theorem highKept (high : r.HighHash) : r.Kept := by
  intro selected
  have wins := ((ExactPool.nextStrongest r.nonzero).mp selected).2
  have rises := scoreRises (ExactPool.levelNonneg (r.nonzero r.chosen)) (highLevel.mp high)
    (r.pool.positive r.chosen) r.higher
  refine stillStrongest.mpr ⟨selectsUp selected,fun j live => ?_⟩
  cases Classical.em (j = r.chosen) with
  | inl same =>
    subst same
    have own : r.weight r.chosen = r.raised := if_pos rfl
    rw [own]
    exact ⟨le_refl _,fun less => absurd less (lt_irrefl _)⟩
  | inr other =>
    have rival : r.weight j = r.pool.weight j := if_neg other
    rw [rival]
    exact ⟨(wins j live).1.trans rises,fun less => ((wins j live).2 less).trans_le rises⟩

structure Pair where
  first : SocketAddr
  second : SocketAddr
  w0 : ℝ
  w1 : ℝ
  raised : ℝ
  pos0 : 0 < w0
  pos1 : 0 < w1
  higher : w0 < raised
  hash : Bytes → Bytes → UInt64
  key : Bytes
  nonzero0 : hash key first.display ≠ 0
  nonzero1 : hash key second.display ≠ 0

namespace Pair
variable (d : Pair)

def place0 {x y : WeightedBackend ℝ} : Index [x,y] := ⟨0,Nat.two_pos⟩
def place1 {x y : WeightedBackend ℝ} : Index [x,y] := ⟨1,Nat.one_lt_two⟩

theorem places {x y : WeightedBackend ℝ} (i : Index [x,y]) : i = place0 ∨ i = place1 := by
  have bound : i.val < 2 := i.isLt
  rcases Nat.lt_or_ge i.val 1 with low | high
  · exact .inl (Fin.ext (Nat.lt_one_iff.mp low))
  · exact .inr (Fin.ext (Nat.le_antisymm (Nat.le_of_lt_succ bound) high))

noncomputable def raise : Raise where
  pool :=
    { backends := [⟨d.first,.fin d.w0⟩,⟨d.second,.fin d.w1⟩]
      weight := fun i => if i = place0 then d.w0 else d.w1
      weighted := fun i => by rcases places i with rfl | rfl <;> rfl
      positive := fun i => by
        split
        · exact d.pos0
        · exact d.pos1 }
  alive _ := true
  hash := d.hash
  key := d.key
  nonzero i := by
    rcases places i with rfl | rfl
    · exact d.nonzero0
    · exact d.nonzero1
  chosen := place0
  raised := d.raised
  higher := d.higher

theorem raiseWeight : d.raise.pool.weight d.raise.chosen = d.w0 := by
  simp only [raise,if_true]

noncomputable def level0 : ℝ := -log (unit (d.hash d.key d.first.display))
noncomputable def level1 : ℝ := -log (unit (d.hash d.key d.second.display))

theorem raiseSelects (wins : d.level1^(1/d.w1) ≤ d.level0^(1/d.w0)) : d.raise.selects := by
  refine (ExactPool.nextStrongest d.raise.nonzero).mpr ⟨rfl,fun j _ => ?_⟩
  refine ⟨?_,fun less => absurd less (Nat.not_lt_zero j.val)⟩
  rcases places j with rfl | rfl
  · exact le_refl _
  · exact wins

theorem raiseLoses (loses : d.level0^(1/d.raised) < d.level1^(1/d.w1)) :
    ¬ d.raise.stillSelects := by
  intro kept
  have wins := ((stillStrongest.mp kept).2 place1 rfl).1
  exact absurd wins (not_le.mpr loses)

end Pair

structure Alike (s r : Raise) : Prop where
  hashed : s.pool.hashOf s.hash s.key s.chosen = r.pool.hashOf r.hash r.key r.chosen
  weighted : s.pool.weight s.chosen = r.pool.weight r.chosen
  lifted : s.raised = r.raised

/- Below the limit some rival of hash value one scores between the old and the
new score of the chosen backend. -/
theorem levelOfOne : 1 < -log (unit 1) := by
  have one : unit 1 = (u64Max.toNat : ℝ)⁻¹ := by
    have single : UInt64.toNat 1 = 1 := rfl
    rw [unit,single,Nat.cast_one,one_div]
  have large : exp 1 < u64Max.toNat := by
    rw [RendezvousShares.u64MaxNat]
    have := exp_one_lt_d9
    norm_num
    linarith
  rw [one,log_inv,neg_neg]
  exact (lt_log_iff_exp_lt ((exp_pos 1).trans large)).mpr large

noncomputable def middle (w v : ℝ) : ℝ := (w+v)/(1+1)

theorem middleBetween {w v : ℝ} (less : w < v) : w < middle w v ∧ middle w v < v := by
  unfold middle
  constructor <;> linarith

noncomputable def rivalWeight (level w v : ℝ) : ℝ := middle w v*log (-log (unit 1))/log level

theorem rivalScore {level w v : ℝ} (high : 1 < level) (pos : 0 < w) (less : w < v) :
    0 < rivalWeight level w v ∧
      (-log (unit 1))^(1/rivalWeight level w v) = level^(1/middle w v) := by
  have half : 0 < middle w v := pos.trans (middleBetween less).1
  have logs := log_pos levelOfOne
  have levels := log_pos high
  refine ⟨div_pos (mul_pos half logs) levels,?_⟩
  rw [rpow_def_of_pos (one_pos.trans levelOfOne),rpow_def_of_pos (one_pos.trans high)]
  congr 1
  rw [rivalWeight]
  field_simp

def rivalHash (hash : UInt64) : Bytes → Bytes → UInt64 :=
  fun _ addr => if addr = (localhost 10000).display then hash else 1

theorem rivalHashes (hash : UInt64) (key : Bytes) :
    rivalHash hash key (localhost 10000).display = hash ∧
      rivalHash hash key (localhost 10001).display = 1 :=
  ⟨if_pos rfl,if_neg RendezvousShares.Duel.portsApart.symm⟩

noncomputable def rivalPair (r : Raise) (low : ¬ r.HighHash) : Pair where
  first := localhost 10000
  second := localhost 10001
  w0 := r.pool.weight r.chosen
  w1 := rivalWeight (r.level r.chosen) (r.pool.weight r.chosen) r.raised
  raised := r.raised
  pos0 := r.pool.positive r.chosen
  pos1 := (rivalScore (not_le.mp (mt highLevel.mpr low)) (r.pool.positive r.chosen) r.higher).1
  higher := r.higher
  hash := rivalHash (r.pool.hashOf r.hash r.key r.chosen)
  key := r.key
  nonzero0 := by
    rw [(rivalHashes _ r.key).1]
    exact r.nonzero r.chosen
  nonzero1 := by
    rw [(rivalHashes _ r.key).2]
    decide

theorem rivalAlike (r : Raise) (low : ¬ r.HighHash) : (r.rivalPair low).raise.Alike r :=
  ⟨(rivalHashes _ r.key).1,(r.rivalPair low).raiseWeight,rfl⟩

theorem rivalTakes (r : Raise) (low : ¬ r.HighHash) : ¬ (r.rivalPair low).raise.Kept := by
  have high : 1 < r.level r.chosen := not_le.mp (mt highLevel.mpr low)
  have pos := r.pool.positive r.chosen
  have score := (rivalScore high pos r.higher).2
  have own : (r.rivalPair low).level0 = r.level r.chosen := by
    exact congrArg (fun hash => -log (unit hash)) (rivalHashes _ r.key).1
  have rival : (r.rivalPair low).level1 = -log (unit 1) := by
    exact congrArg (fun hash => -log (unit hash)) (rivalHashes (r.pool.hashOf r.hash r.key r.chosen) r.key).2
  obtain ⟨inner,outer⟩ := middleBetween r.higher
  intro kept
  refine (r.rivalPair low).raiseLoses ?_ (kept ((r.rivalPair low).raiseSelects ?_))
  · rw [own,rival]
    refine lt_of_lt_of_eq ?_ score.symm
    exact rpow_lt_rpow_of_exponent_lt high (one_div_lt_one_div_of_lt (pos.trans inner) outer)
  · rw [own,rival]
    refine le_of_eq_of_le score ?_
    exact rpow_le_rpow_of_exponent_le high.le (one_div_le_one_div_of_le pos inner.le)

/- A backend keeps its key just when every rival clears the threshold of the
raised weight, and it does so against all rivals just when its hash is high. -/
theorem raiseExactly (r : Raise) : (r.Kept ↔ (r.selects → r.Clear)) ∧
    ((∀ s : Raise, s.Alike r → s.Kept) ↔ r.HighHash) := by
  refine ⟨⟨?_,?_⟩,?_,?_⟩
  · exact fun kept selected => (stillClear.mp (kept selected)).2
  · exact fun clear selected => stillClear.mpr ⟨selectsUp selected,clear selected⟩
  · intro all
    by_contra low
    exact rivalTakes r low (all _ (rivalAlike r low))
  · intro high s alike
    apply highKept
    rw [HighHash,alike.hashed]
    exact high

def collector (last : UInt8) : SocketAddr := .v4 ⟨#v[10,0,0,last]⟩ 2055

def flow : Bytes := [192,0,2,23,161,225]

theorem flowHashes : hashWithBackend fnv1a flow (collector 1).display = 20950907658181202 ∧
    hashWithBackend fnv1a flow (collector 2).display = 806091322166211277 := by decide

theorem flowNonzero : hashWithBackend fnv1a flow (collector 1).display ≠ 0 ∧
    hashWithBackend fnv1a flow (collector 2).display ≠ 0 := by
  rw [flowHashes.1,flowHashes.2]
  decide

theorem singleWeight : (0 : ℝ) < 1 := one_pos

theorem doubleWeight : (1 : ℝ) < 1+1 := lt_add_one 1

noncomputable def doubled : Pair where
  first := collector 1
  second := collector 2
  w0 := 1
  w1 := 1
  raised := 1+1
  pos0 := singleWeight
  pos1 := singleWeight
  higher := doubleWeight
  hash := hashWithBackend fnv1a
  key := flow
  nonzero0 := flowNonzero.1
  nonzero1 := flowNonzero.2

theorem levelOver {k : Nat} {hash : UInt64} (nonzero : hash ≠ 0)
    (small : exp 1^k*hash.toNat < u64Max.toNat) : k < -log (unit hash) := by
  obtain ⟨pos,_⟩ := unitRange nonzero
  have size : (0 : ℝ) < u64Max.toNat := (by positivity : (0:ℝ) ≤ exp 1^k*hash.toNat).trans_lt small
  rw [lt_neg,log_lt_iff_lt_exp pos,unit,div_lt_iff₀ size,exp_neg,
    lt_inv_mul_iff₀ (exp_pos _),← mul_one (k : ℝ),exp_nat_mul]
  exact small

theorem levelUnder {k : Nat} {hash : UInt64} (nonzero : hash ≠ 0)
    (large : (u64Max.toNat : ℝ) < exp 1^k*hash.toNat) : -log (unit hash) < k := by
  obtain ⟨pos,_⟩ := unitRange nonzero
  have size : (0 : ℝ) < u64Max.toNat := by
    rw [RendezvousShares.u64MaxNat]
    norm_num
  rw [neg_lt,lt_log_iff_exp_lt pos,unit,lt_div_iff₀ size,exp_neg,
    inv_mul_lt_iff₀ (exp_pos _),← mul_one (k : ℝ),exp_nat_mul]
  exact large

theorem doubledLevels : doubled.level1 < 4 ∧ 4 < doubled.level0 ∧ doubled.level0 < 9 ∧
    3 < doubled.level1 := by
  have eLow := exp_one_gt_d9
  have eHigh := exp_one_lt_d9
  have low : (2.7 : ℝ) < exp 1 := by linarith
  have high : exp 1 < (2.72 : ℝ) := by linarith
  have hash0 : (doubled.hash doubled.key doubled.first.display).toNat = 20950907658181202 :=
    congrArg UInt64.toNat flowHashes.1
  have hash1 : (doubled.hash doubled.key doubled.second.display).toNat = 806091322166211277 :=
    congrArg UInt64.toNat flowHashes.2
  have size : (u64Max.toNat : ℝ) = 18446744073709551615 := by
    rw [RendezvousShares.u64MaxNat]
    norm_num
  have above := fun k : Nat => pow_le_pow_left₀ (by norm_num) low.le k
  have below := fun k : Nat => pow_le_pow_left₀ (exp_pos 1).le high.le k
  refine ⟨levelUnder (k := 4) doubled.nonzero1 ?_,levelOver (k := 4) doubled.nonzero0 ?_,
    levelUnder (k := 9) doubled.nonzero0 ?_,levelOver (k := 3) doubled.nonzero1 ?_⟩
  · rw [hash1,size]
    have := above 4
    norm_num at this ⊢
    linarith
  · rw [hash0,size]
    have := below 4
    norm_num at this ⊢
    linarith
  · rw [hash0,size]
    have := above 9
    norm_num at this ⊢
    linarith
  · rw [hash1,size]
    have := below 3
    norm_num at this ⊢
    linarith

theorem doubledLosesFlow : doubled.raise.selects ∧ ¬ doubled.raise.stillSelects := by
  obtain ⟨below,above,under,past⟩ := doubledLevels
  have selected : doubled.raise.selects := by
    refine doubled.raiseSelects ?_
    simp only [doubled,one_div_one,rpow_one]
    exact (below.trans above).le
  refine ⟨selected,fun kept => doubled.raiseLoses ?_ kept⟩
  have root : doubled.level0^(1/2 : ℝ) < 3 := by
    rw [← sqrt_eq_rpow,sqrt_lt' (by norm_num)]
    norm_num
    exact under
  simp only [doubled,one_div_one,rpow_one,one_add_one_eq_two]
  exact root.trans past

end Raise
end UdpBalancer.Rendezvous
