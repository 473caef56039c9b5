import UdpBalancer.Loop
import UdpBalancer.Transition
import UdpBalancer.Backends
import UdpBalancer.Rotation

/-! `WeightedRoundRobin`: construction, the scan of `next` and the states that
runs of calls and health flips reach, in exact arithmetic. The scan is a loop
without a bound; when it leaves is a result below, not part of the model. -/
namespace UdpBalancer.Wrr
open Backends

structure Wheel where
  gcdWeight : ℚ
  maxWeight : ℚ

/- `current` counts the `fetch_add`s; the atomic holds it modulo 2^64. -/
structure State where
  current : Nat
  currentWeight : ℚ

def epsilon : ℚ := 1/10000

def rem (a b : ℚ) : ℚ := a-⌊a/b⌋*b

def gcdStep (p : ℚ × ℚ) : Loop.Turn (ℚ × ℚ) ℚ :=
  if p.2 < epsilon then .done p.1 else .more (p.2,rem p.1 p.2)

def gcdF64 (a b : ℚ) : Option ℚ := Loop.run gcdStep (⌊(a+b)/epsilon⌋₊+2) (a,b)

def new (pool : Pool) : Option (Wheel × State) := do
  let weights := pool.backends.map Backend.weight
  let gcd ← weights.foldlM gcdF64 0
  some (⟨if 0 < gcd then gcd else 1,weights.foldl max 0⟩,⟨0,0⟩)

def counterPeriod : Nat := usizeMax+1

variable {pool : Pool}

def scanStep (nonempty : 0 < pool.backends.length) (w : Wheel) (alive : Alive pool) (s : State) :
    Loop.Turn State (State × Option pool.Index) :=
  let current : pool.Index :=
    ⟨s.current % counterPeriod % pool.backends.length,Nat.mod_lt _ nonempty⟩
  let cw := if current.val = 0 then
      if s.currentWeight-w.gcdWeight ≤ 0 then w.maxWeight else s.currentWeight-w.gcdWeight
    else s.currentWeight
  let t : State := ⟨s.current+1,cw⟩
  if current.val = 0 ∧ cw ≤ 0 then .done (t,none)
  else if !alive current then .more t
  else if cw ≤ pool.weight current then .done (t,some current)
  else .more t

def next (w : Wheel) (alive : Alive pool) (fuel : Nat) (s : State) :
    Option (State × Option pool.Index) :=
  if nonempty : 0 < pool.backends.length then
    match aliveIndices alive with
    | [] => some (s,none)
    | [only] => some (s,some only)
    | _ => Loop.run (scanStep nonempty w alive) fuel s
  else some (s,none)

def Returns (w : Wheel) (alive : Alive pool) (s : State) (out : State × Option pool.Index) : Prop :=
  ∃ fuel, next w alive fuel s = some out

structure World (pool : Pool) where
  alive : Alive pool
  state : State

inductive Label (pool : Pool) where
  | flip (i : pool.Index) (flag : Bool)
  | next (r : Option pool.Index)

inductive Step (w : Wheel) : World pool → Label pool → World pool → Prop where
  | flip {x} (i : pool.Index) (flag : Bool) :
      Step w x (.flip i flag) {x with alive := setAlive x.alive i flag}
  | next {x t r} (returned : Returns w x.alive x.state (t,r)) :
      Step w x (.next r) {x with state := t}

def system (pool : Pool) (w : Wheel) : Transition.System (World pool) (Label pool) where
  init x := x.state = ⟨0,0⟩
  step := Step w

/- Euclid's loop leaves: after the first turn the pair is ordered, and every later
turn lowers its sum by epsilon at least. -/
theorem remNonneg {a b : ℚ} (positive : 0 < b) : 0 ≤ rem a b := by
  have floor := Int.floor_le (a/b)
  have scaled := (le_div_iff₀ positive).mp floor
  unfold rem
  linarith

theorem remLt {a b : ℚ} (positive : 0 < b) : rem a b < b := by
  have above := Int.lt_floor_add_one (a/b)
  have scaled := (div_lt_iff₀ positive).mp above
  unfold rem
  linarith

theorem remLe {a b : ℚ} (positive : 0 < b) (le : b ≤ a) : rem a b ≤ a-b := by
  have one : (1 : ℤ) ≤ ⌊a/b⌋ := Int.le_floor.mpr (by rw [Int.cast_one]; exact (one_le_div₀ positive).mpr le)
  have cast : (1 : ℚ) ≤ ⌊a/b⌋ := by exact_mod_cast one
  have scaled := mul_le_mul_of_nonneg_right cast positive.le
  unfold rem
  linarith

theorem remLeSelf {a b : ℚ} (left : 0 ≤ a) (positive : 0 < b) : rem a b ≤ a := by
  have floor : (0 : ℤ) ≤ ⌊a/b⌋ := Int.floor_nonneg.mpr (div_nonneg left positive.le)
  have cast : (0 : ℚ) ≤ ⌊a/b⌋ := by exact_mod_cast floor
  have scaled := mul_nonneg cast positive.le
  unfold rem
  linarith

theorem epsilonPos : 0 < epsilon := by norm_num [epsilon]

theorem floorDrop {a b : ℚ} (left : 0 ≤ a) (le : a+epsilon ≤ b) :
    ⌊a/epsilon⌋₊ < ⌊b/epsilon⌋₊ := by
  have below : a/epsilon+1 ≤ b/epsilon := by
    rw [div_add_one epsilonPos.ne']
    exact div_le_div_of_nonneg_right le epsilonPos.le
  have floors := Nat.floor_le_floor below
  rw [Nat.floor_add_one (div_nonneg left epsilonPos.le)] at floors
  omega

def gcdMeasure (p : ℚ × ℚ) : Nat := ⌊(p.1+p.2)/epsilon⌋₊+(if p.1 < p.2 then 1 else 0)

theorem gcdTurn (p : ℚ × ℚ) (inv : 0 ≤ p.1 ∧ 0 ≤ p.2) : (∃ r, gcdStep p = .done r) ∨
    ∃ q, gcdStep p = .more q ∧ (0 ≤ q.1 ∧ 0 ≤ q.2) ∧ gcdMeasure q < gcdMeasure p := by
  obtain ⟨x,y⟩ := p
  obtain ⟨first,second⟩ := inv
  simp only at first second
  unfold gcdStep
  split
  · exact .inl ⟨x,rfl⟩
  · rename_i large
    have large := not_lt.mp large
    have positive : 0 < y := epsilonPos.trans_le large
    have nonneg := remNonneg (a := x) positive
    refine .inr ⟨(y,rem x y),rfl,⟨second,nonneg⟩,?_⟩
    have ordered : ¬ y < rem x y := not_lt.mpr (remLt positive).le
    simp only [gcdMeasure,ordered,if_false]
    split
    · have sum : y+rem x y ≤ x+y := by
        have le := remLeSelf first positive
        linarith
      have floors := Nat.floor_le_floor (div_le_div_of_nonneg_right sum epsilonPos.le)
      omega
    · rename_i swapped
      have le := remLe positive (not_lt.mp swapped)
      have drop := floorDrop (add_nonneg second nonneg)
        (show y+rem x y+epsilon ≤ x+y by linarith)
      omega

theorem gcdDefined {a b : ℚ} (left : 0 ≤ a) (right : 0 ≤ b) : ∃ g, gcdF64 a b = some g := by
  have small : gcdMeasure (a,b) < ⌊(a+b)/epsilon⌋₊+2 := by
    unfold gcdMeasure
    split
    · exact Nat.lt_succ_self _
    · exact Nat.lt_add_of_pos_right (by decide)
  exact Loop.returnsWithin _ gcdMeasure gcdTurn ⟨left,right⟩ _ small

theorem gcdSmall {a b : ℚ} (small : b < epsilon) : gcdF64 a b = some a := by
  have leaves : gcdStep (a,b) = .done a := if_pos small
  exact Loop.runDone leaves _

theorem gcdStart {b : ℚ} (large : epsilon ≤ b) : gcdF64 0 b = some b := by
  have goes : gcdStep (0,b) = .more (b,0) := by
    simp only [gcdStep,not_lt.mpr large,if_false,rem,zero_div,Int.floor_zero,Int.cast_zero,
      zero_mul,sub_zero]
  have leaves : gcdStep (b,0) = .done b := if_pos (by norm_num [epsilon])
  exact (Loop.runMore goes _).trans (Loop.runDone leaves _)

theorem gcdKept (p q : ℚ × ℚ) (inv : 0 ≤ p.1 ∧ 0 ≤ p.2) (goes : gcdStep p = .more q) :
    0 ≤ q.1 ∧ 0 ≤ q.2 := by
  rcases gcdTurn p inv with ⟨r,leaves⟩ | ⟨t,more,stays,_⟩
  · rw [leaves] at goes
    contradiction
  · rw [more] at goes
    cases goes
    exact stays

theorem gcdNonneg {a b g : ℚ} (left : 0 ≤ a) (right : 0 ≤ b) (ok : gcdF64 a b = some g) :
    0 ≤ g := by
  obtain ⟨last,inv,leaves⟩ := Loop.lastTurn _ gcdKept ⟨left,right⟩ ok
  unfold gcdStep at leaves
  split at leaves
  · cases leaves
    exact inv.1
  · contradiction

theorem gcdFold {weights : List ℚ} (positive : ∀ x ∈ weights, 0 < x) {a : ℚ} (left : 0 ≤ a) :
    ∃ g, weights.foldlM gcdF64 a = some g ∧ 0 ≤ g := by
  induction weights generalizing a with
  | nil => exact ⟨a,rfl,left⟩
  | cons x rest ih =>
    have right := (positive x List.mem_cons_self).le
    obtain ⟨b,ok⟩ := gcdDefined left right
    obtain ⟨g,fold,nonneg⟩ := ih (fun y mem => positive y (List.mem_cons_of_mem x mem))
      (gcdNonneg left right ok)
    exact ⟨g,by simp only [List.foldlM_cons,ok,bind,Option.bind,fold],nonneg⟩

structure Wheel.Fits (w : Wheel) (pool : Pool) : Prop where
  gcd : 0 < w.gcdWeight
  max : ∀ i : pool.Index, pool.weight i ≤ w.maxWeight

theorem leFoldMax (weights : List ℚ) (a : ℚ) :
    a ≤ weights.foldl max a ∧ ∀ x ∈ weights, x ≤ weights.foldl max a := by
  induction weights generalizing a with
  | nil => exact ⟨le_refl a,fun x mem => absurd mem List.not_mem_nil⟩
  | cons y rest ih =>
    obtain ⟨start,others⟩ := ih (max a y)
    refine ⟨(le_max_left a y).trans start,fun x mem => ?_⟩
    rcases List.mem_cons.mp mem with rfl | tail
    · exact (le_max_right a x).trans start
    · exact others x tail

theorem poolPositive (pool : Pool) : ∀ x ∈ pool.backends.map Backend.weight, 0 < x := by
  intro x mem
  obtain ⟨b,inPool,rfl⟩ := List.mem_map.mp mem
  exact pool.positive b inPool

theorem newFits (pool : Pool) : ∃ w, new pool = some (w,⟨0,0⟩) ∧ w.Fits pool := by
  obtain ⟨g,fold,_⟩ := gcdFold (poolPositive pool) (le_refl 0)
  refine ⟨⟨if 0 < g then g else 1,(pool.backends.map Backend.weight).foldl max 0⟩,?_,?_,?_⟩
  · simp only [new,fold,bind,Option.bind]
  · simp only
    split
    · assumption
    · exact one_pos
  · intro i
    exact (leFoldMax _ 0).2 _ (List.mem_map_of_mem (List.getElem_mem i.isLt))

end UdpBalancer.Wrr
