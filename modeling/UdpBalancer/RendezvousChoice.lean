import Mathlib.Data.List.Sort
import UdpBalancer.Rendezvous

/-! What `RendezvousHashing::next` selects: the first of the alive backends whose
score is maximal, unless no score rises above negative infinity. Under exact
arithmetic a score does not rise just when its hash value is zero. -/
namespace UdpBalancer.Rendezvous
open Backends (Bytes localhost SocketAddr fnv1a)

section
variable {R : Type u} [Field R] [LinearOrder R] (a : Arith R) (hash : Bytes → Bytes → UInt64)
  (backends : List (WeightedBackend R)) (alive : Index backends → Bool) (key : Bytes)

structure Maximal (i : Index backends) : Prop where
  up : alive i = true
  unbeaten : ∀ j, alive j = true →
    F64.gt (score a hash backends key j) (score a hash backends key i) = false

structure FirstMaximal (i : Index backends) : Prop where
  maximal : Maximal a hash backends alive key i
  first : ∀ j, j < i → ¬ Maximal a hash backends alive key j

variable {a hash backends alive key}

theorem firstMaximalUnique {i j} (left : FirstMaximal a hash backends alive key i)
    (right : FirstMaximal a hash backends alive key j) : i = j := by
  rcases lt_trichotomy i j with less | same | more
  · exact absurd left.maximal (right.first i less)
  · exact same
  · exact absurd right.maximal (left.first j more)

omit [Field R] [LinearOrder R] in
theorem aliveBefore {before later : List (Index backends)} {i}
    (split : (List.finRange _).filter alive = before ++ i::later) {j} (less : j < i)
    (up : alive j = true) : j ∈ before := by
  have sorted := (List.sortedLT_finRange backends.length).pairwise.filter alive
  have inside : j ∈ (List.finRange _).filter alive := List.mem_filter.mpr ⟨List.mem_finRange j,up⟩
  rw [split] at sorted inside
  rcases List.mem_append.mp inside with early | late
  · exact early
  · have tail := (List.pairwise_append.mp sorted).2.1
    rcases List.mem_cons.mp late with rfl | after
    · exact absurd less (lt_irrefl _)
    · exact absurd less (List.rel_of_pairwise_cons tail after).asymm

theorem nextFirst (number : ∀ j, alive j = true → score a hash backends key j ≠ .nan) {i}
    (chosen : next a hash backends alive key = some i) :
    FirstMaximal a hash backends alive key i ∧
      F64.gt (score a hash backends key i) .negInf = true := by
  have up := nextAlive a hash backends chosen
  have unbeaten := fun j => nextUnbeaten a hash backends chosen (j := j)
  rw [nextScan] at chosen
  obtain ⟨before,later,split,wins⟩ :=
    FirstMax.scanWinner (rankingLawful a hash backends key) chosen
  refine ⟨⟨⟨up,unbeaten⟩,?_⟩,wins.ranked⟩
  intro j less maximal
  have lower := maximal.unbeaten i up
  have early := wins.above j (aliveBefore split less maximal.up)
  rcases F64.gtSplit wins.ranked (number j maximal.up) with above | ranked
  · exact absurd above (ne_true_of_eq_false lower)
  · exact absurd (early ranked) (ne_true_of_eq_false lower)

theorem nextExact (number : ∀ j, alive j = true → score a hash backends key j ≠ .nan) {i} :
    next a hash backends alive key = some i ↔
      FirstMaximal a hash backends alive key i ∧
        F64.gt (score a hash backends key i) .negInf = true := by
  constructor
  · exact nextFirst number
  · intro ⟨best,ranked⟩
    obtain ⟨k,chosen⟩ := nextRanked a hash backends best.maximal.up ranked
    rw [chosen,firstMaximalUnique best (nextFirst number chosen).1]

end

/- Exact scores: a zero hash scores negative infinity, every other one the real
power of the negated logarithm. -/
noncomputable def unit (hash : UInt64) : ℝ := hash.toNat/u64Max.toNat

theorem unitRange {hash : UInt64} (nonzero : hash ≠ 0) : 0 < unit hash ∧ unit hash ≤ 1 := by
  have positive : 0 < hash.toNat := Nat.pos_of_ne_zero fun zero => nonzero (UInt64.toNat.inj zero)
  have bounded : hash.toNat ≤ u64Max.toNat := Nat.le_of_lt_succ hash.toNat_lt
  have size : (0 : ℝ) < u64Max.toNat := by exact_mod_cast positive.trans_le bounded
  refine ⟨div_pos (by exact_mod_cast positive) size,?_⟩
  rw [unit,div_le_one size]
  exact_mod_cast bounded

theorem scoreOfZero (weight : F64 ℝ) : weightedHash exactArith 0 weight = .negInf := by
  have low : F64.le (F64.fin ((0 : UInt64).toNat/u64Max.toNat : ℝ)) (.fin 0) = true := by
    rw [F64.leFin]
    simp
  simp only [weightedHash,exactArith,low,Bool.true_or,if_true]

theorem scoreOfNonzero {w : ℝ} (pos : 0 < w) {hash : UInt64} (nonzero : hash ≠ 0) :
    weightedHash exactArith hash (.fin w) = .fin ((-Real.log (unit hash))^(1/w)) := by
  have normal := (unitRange nonzero).1
  unfold unit at normal ⊢
  simp only [weightedHash,exactArith,F64.leFin,not_le.mpr normal,not_le.mpr pos,
    decide_false,Bool.or_self,Bool.false_eq_true,if_false,F64.neg]

structure ExactPool where
  backends : List (WeightedBackend ℝ)
  weight : Index backends → ℝ
  weighted : ∀ i, (backends.get i).weight = .fin (weight i)
  positive : ∀ i, 0 < weight i

namespace ExactPool
variable (p : ExactPool) (hash : Bytes → Bytes → UInt64) (alive : Index p.backends → Bool)
  (key : Bytes)

def hashOf (i : Index p.backends) : UInt64 := hash key (p.backends.get i).address.display

noncomputable def next : Option (Index p.backends) :=
  Rendezvous.next exactArith hash p.backends alive key

def Best (i : Index p.backends) : Prop := FirstMaximal exactArith hash p.backends alive key i

def Served : Prop :=
  (p.next hash alive key = none ↔ ∀ i, alive i = false) ∧
    ((∃ i, alive i = true) → ∃ i, p.next hash alive key = some i ∧ p.Best hash alive key i)

variable {p hash alive key}

theorem scoreZero {i} (zero : p.hashOf hash key i = 0) :
    score exactArith hash p.backends key i = .negInf := by
  have same : score exactArith hash p.backends key i =
      weightedHash exactArith (p.hashOf hash key i) (p.backends.get i).weight := rfl
  rw [same,zero,scoreOfZero]

theorem scoreNonzero {i} (nonzero : p.hashOf hash key i ≠ 0) :
    score exactArith hash p.backends key i =
      .fin ((-Real.log (unit (p.hashOf hash key i)))^(1/p.weight i)) := by
  have same : score exactArith hash p.backends key i =
      weightedHash exactArith (p.hashOf hash key i) (p.backends.get i).weight := rfl
  rw [same,p.weighted,scoreOfNonzero (p.positive i) nonzero]

theorem scoreNumber (i : Index p.backends) : score exactArith hash p.backends key i ≠ .nan := by
  intro same
  cases zero : decide (p.hashOf hash key i = 0) with
  | true =>
    rw [scoreZero (of_decide_eq_true zero)] at same
    contradiction
  | false =>
    rw [scoreNonzero (of_decide_eq_false zero)] at same
    contradiction

theorem scoreRanked {i} : F64.gt (score exactArith hash p.backends key i) .negInf = true ↔
    p.hashOf hash key i ≠ 0 := by
  constructor
  · intro ranked zero
    rw [scoreZero zero,F64.gtIrrefl] at ranked
    contradiction
  · intro nonzero
    rw [scoreNonzero nonzero]
    rfl

theorem scoreAbove {i j} (equal : p.weight i = p.weight j) (nonzero : p.hashOf hash key i ≠ 0)
    (less : p.hashOf hash key i < p.hashOf hash key j) :
    F64.gt (score exactArith hash p.backends key i) (score exactArith hash p.backends key j) =
      true := by
  have larger : (p.hashOf hash key i).toNat < (p.hashOf hash key j).toNat := less
  have other : p.hashOf hash key j ≠ 0 := by
    intro zero
    rw [zero] at larger
    exact absurd larger (Nat.not_lt_zero _)
  obtain ⟨low,_⟩ := unitRange nonzero
  obtain ⟨high,within⟩ := unitRange other
  have size : (0 : ℝ) < u64Max.toNat := by exact_mod_cast (by decide : 0 < u64Max.toNat)
  have below : unit (p.hashOf hash key i) < unit (p.hashOf hash key j) :=
    div_lt_div_of_pos_right (by exact_mod_cast larger) size
  rw [scoreNonzero nonzero,scoreNonzero other,equal,F64.gtFin,decide_eq_true_iff]
  exact Real.rpow_lt_rpow (neg_nonneg.mpr (Real.log_nonpos high.le within))
    (neg_lt_neg (Real.log_lt_log low below)) (one_div_pos.mpr (p.positive j))

theorem nextBest {i} : p.next hash alive key = some i ↔
    p.Best hash alive key i ∧ p.hashOf hash key i ≠ 0 := by
  rw [next,nextExact fun j _ => scoreNumber j,scoreRanked]
  rfl

theorem nextNonzero {i} (up : alive i = true) (nonzero : p.hashOf hash key i ≠ 0) :
    ∃ j, p.next hash alive key = some j :=
  nextRanked exactArith hash p.backends up (scoreRanked.mpr nonzero)

theorem servedExactly (p : ExactPool) (hash : Bytes → Bytes → UInt64)
    (alive : Index p.backends → Bool) (key : Bytes) :
    p.Served hash alive key ↔
      (∀ i, alive i = false) ∨ ∃ i, alive i = true ∧ p.hashOf hash key i ≠ 0 := by
  constructor
  · intro ⟨_,serves⟩
    cases Classical.em (∃ i, alive i = true) with
    | inl some =>
      obtain ⟨i,chosen,_⟩ := serves some
      obtain ⟨best,nonzero⟩ := nextBest.mp chosen
      exact .inr ⟨i,best.maximal.up,nonzero⟩
    | inr none => exact .inl fun i => eq_false_of_ne_true fun up => none ⟨i,up⟩
  · intro condition
    rcases condition with down | ⟨i,up,nonzero⟩
    · refine ⟨⟨fun _ => down,fun _ => ?_⟩,fun ⟨i,up⟩ => ?_⟩
      · cases chosen : p.next hash alive key with
        | none => rfl
        | some i =>
          have up := (nextBest.mp chosen).1.maximal.up
          rw [down i] at up
          contradiction
      · rw [down i] at up
        contradiction
    · obtain ⟨j,chosen⟩ := nextNonzero up nonzero
      refine ⟨⟨fun none => ?_,fun down => ?_⟩,fun _ => ⟨j,chosen,(nextBest.mp chosen).1⟩⟩
      · rw [chosen] at none
        contradiction
      · rw [down i] at up
        contradiction

def lone : SocketAddr := .v4 ⟨#v[10,0,149,253]⟩ 53

def unlucky : Bytes := [100,60,7,8,143,222]

theorem unluckyZero : hashWithBackend fnv1a unlucky lone.display = 0 := by decide

noncomputable def lonePool : ExactPool where
  backends := [⟨lone,.fin 1⟩]
  weight _ := 1
  weighted i := by
    cases i using Fin.cases with
    | zero => rfl
    | succ i => exact absurd i.isLt (Nat.not_lt_zero _)
  positive _ := one_pos

theorem unluckyDropped : lonePool.next (hashWithBackend fnv1a) (fun _ => true) unlucky = none ∧
    ¬ lonePool.Served (hashWithBackend fnv1a) (fun _ => true) unlucky := by
  have zero : ∀ i, lonePool.hashOf (hashWithBackend fnv1a) unlucky i = 0 := by
    intro i
    cases i using Fin.cases with
    | zero => exact unluckyZero
    | succ i => exact absurd i.isLt (Nat.not_lt_zero _)
  have none : lonePool.next (hashWithBackend fnv1a) (fun _ => true) unlucky = none := by
    cases chosen : lonePool.next (hashWithBackend fnv1a) (fun _ => true) unlucky with
    | none => rfl
    | some i => exact absurd (zero i) (nextBest.mp chosen).2
  refine ⟨none,fun served => ?_⟩
  have down := served.1.mp none ⟨0,Nat.one_pos⟩
  contradiction

end ExactPool
end UdpBalancer.Rendezvous
