import UdpBalancer.Wrr
import UdpBalancer.F64

/-! `gcd_f64` and `WeightedRoundRobin::new` on any floats. On positive finite
weights they are the exact ones; a NaN keeps the recursion from its end. -/
namespace UdpBalancer

namespace F64

def truncate (x : ℚ) : ℤ := if 0 ≤ x then ⌊x⌋ else ⌈x⌉

def rem : F64 ℚ → F64 ℚ → F64 ℚ
  | .fin a,.fin b => if b = 0 then .nan else .fin (a-truncate (a/b)*b)
  | .fin a,.posInf => .fin a
  | .fin a,.negInf => .fin a
  | _,_ => .nan

-- `f64::max` prefers a number to a NaN
def max (a b : F64 ℚ) : F64 ℚ :=
  match a,b with
  | .nan,b => b
  | a,.nan => a
  | a,b => if gt b a then b else a

theorem maxFin (a b : ℚ) : max (.fin a) (.fin b) = .fin (Max.max a b) := by
  simp only [max,gtFin,decide_eq_true_eq,max_def_lt]
  split
  · rfl
  · rfl

end F64

namespace Wrr
open Backends

def gcdTurnF64 (p : F64 ℚ × F64 ℚ) : Loop.Turn (F64 ℚ × F64 ℚ) (F64 ℚ) :=
  if F64.gt (.fin epsilon) p.2 then .done p.1 else .more (p.2,F64.rem p.1 p.2)

structure WheelF64 where
  gcdWeight : F64 ℚ
  maxWeight : F64 ℚ
  deriving DecidableEq, Repr

-- the recursion has no bound of its own: `fuel` counts its calls
def newF64 (fuel : Nat) (weights : List (F64 ℚ)) : Option WheelF64 := do
  let gcd ← weights.foldlM (fun a b => Loop.run gcdTurnF64 fuel (a,b)) (.fin 0)
  some ⟨if F64.gt gcd (.fin 0) then gcd else .fin 1,weights.foldl F64.max (.fin 0)⟩

theorem remExact {a b : ℚ} (left : 0 ≤ a) (right : 0 < b) :
    F64.rem (.fin a) (.fin b) = .fin (rem a b) := by
  have quotient : 0 ≤ a/b := div_nonneg left right.le
  simp only [F64.rem,right.ne',if_false,F64.truncate,quotient,if_true,rem]

theorem gcdTurnExact (p : ℚ × ℚ) (inv : 0 ≤ p.1 ∧ 0 ≤ p.2) :
    gcdTurnF64 (.fin p.1,.fin p.2) =
      (gcdStep p).image (fun q => (.fin q.1,.fin q.2)) F64.fin := by
  unfold gcdTurnF64 gcdStep
  simp only [F64.gtFin,decide_eq_true_eq]
  split
  · rfl
  · rename_i large
    have unit : (0 : ℚ) < epsilon := by norm_num [epsilon]
    rw [remExact inv.1 (unit.trans_le (not_lt.mp large))]
    exact rfl

theorem gcdExact {a b g : ℚ} (left : 0 ≤ a) (right : 0 ≤ b) (ok : gcdF64 a b = some g) :
    Loop.Returns gcdTurnF64 (.fin a,.fin b) (.fin g) := by
  have image := Loop.runImage _ gcdTurnExact gcdKept
    (s := (a,b)) ⟨left,right⟩ (⌊(a+b)/epsilon⌋₊+2)
  refine ⟨_,image.trans ?_⟩
  have ran : Loop.run gcdStep (⌊(a+b)/epsilon⌋₊+2) (a,b) = some g := ok
  rw [ran]
  exact rfl

theorem foldMono {small large : Nat} (le : small ≤ large) {weights : List (F64 ℚ)} {a g : F64 ℚ}
    (ok : weights.foldlM (fun a b => Loop.run gcdTurnF64 small (a,b)) a = some g) :
    weights.foldlM (fun a b => Loop.run gcdTurnF64 large (a,b)) a = some g := by
  induction weights generalizing a with
  | nil => exact ok
  | cons x rest ih =>
    simp only [List.foldlM_cons,bind,Option.bind_eq_some_iff] at ok ⊢
    obtain ⟨b,first,later⟩ := ok
    exact ⟨b,Loop.runMono first le,ih later⟩

theorem foldExact {weights : List ℚ} (positive : ∀ x ∈ weights, 0 < x) {a g : ℚ} (left : 0 ≤ a)
    (ok : weights.foldlM gcdF64 a = some g) : ∃ fuel, (weights.map F64.fin).foldlM
      (fun a b => Loop.run gcdTurnF64 fuel (a,b)) (.fin a) = some (.fin g) := by
  induction weights generalizing a with
  | nil =>
    cases ok
    exact ⟨0,rfl⟩
  | cons x rest ih =>
    have right := (positive x List.mem_cons_self).le
    simp only [List.foldlM_cons,bind,Option.bind_eq_some_iff] at ok
    obtain ⟨b,first,later⟩ := ok
    obtain ⟨m,ran⟩ := gcdExact left right first
    obtain ⟨n,folded⟩ := ih (fun y mem => positive y (List.mem_cons_of_mem x mem))
      (gcdNonneg left right first) later
    refine ⟨Max.max m n,?_⟩
    simp only [List.map_cons,List.foldlM_cons,bind,Option.bind_eq_some_iff]
    exact ⟨.fin b,Loop.runMono ran (Nat.le_max_left m n),foldMono (Nat.le_max_right m n) folded⟩

theorem maxExact (weights : List ℚ) (a : ℚ) :
    (weights.map F64.fin).foldl F64.max (.fin a) = .fin (weights.foldl max a) := by
  induction weights generalizing a with
  | nil => rfl
  | cons x rest ih => rw [List.map_cons,List.foldl_cons,F64.maxFin,ih,List.foldl_cons]

theorem newEnds {weights : List ℚ} (positive : ∀ x ∈ weights, 0 < x) :
    ∃ fuel g, weights.foldlM gcdF64 0 = some g ∧ newF64 fuel (weights.map F64.fin) =
      some ⟨.fin (if 0 < g then g else 1),.fin (weights.foldl max 0)⟩ := by
  obtain ⟨g,fold,_⟩ := gcdFold positive (le_refl 0)
  obtain ⟨fuel,folded⟩ := foldExact positive (le_refl 0) fold
  refine ⟨fuel,g,fold,?_⟩
  simp only [newF64,folded,bind,Option.bind,maxExact,F64.gtFin,decide_eq_true_eq,Option.some.injEq,
    WheelF64.mk.injEq,and_true]
  split
  · rfl
  · rfl

theorem positiveWeights {weights : List (F64 ℚ)}
    (positive : ∀ w ∈ weights, ∃ q, w = .fin q ∧ 0 < q) :
    ∃ qs : List ℚ, weights = qs.map F64.fin ∧ ∀ x ∈ qs, 0 < x := by
  induction weights with
  | nil => exact ⟨[],rfl,fun x mem => absurd mem List.not_mem_nil⟩
  | cons w rest ih =>
    obtain ⟨q,rfl,above⟩ := positive w List.mem_cons_self
    obtain ⟨qs,rfl,others⟩ := ih fun x mem => positive x (List.mem_cons_of_mem _ mem)
    refine ⟨q::qs,rfl,fun x mem => ?_⟩
    rcases List.mem_cons.mp mem with rfl | tail
    · exact above
    · exact others x tail

theorem newExact (pool : Pool) : ∃ fuel w, new pool = some (w,⟨0,0⟩) ∧
    newF64 fuel ((pool.backends.map Backend.weight).map F64.fin) =
      some ⟨.fin w.gcdWeight,.fin w.maxWeight⟩ := by
  obtain ⟨fuel,g,fold,ends⟩ := newEnds (poolPositive pool)
  refine ⟨fuel,⟨if 0 < g then g else 1,(pool.backends.map Backend.weight).foldl max 0⟩,?_,ends⟩
  simp only [new,fold,bind,Option.bind]

theorem nanDiverges (a : F64 ℚ) : Loop.Diverges gcdTurnF64 (a,.nan) := by
  refine Loop.divergesWhile (fun p => p.2 = .nan) (fun p right => ?_) rfl
  have stays : F64.rem p.1 p.2 = .nan := by
    rw [right]
    cases p.1 with
    | _ => rfl
  refine ⟨(p.2,F64.rem p.1 p.2),?_,stays⟩
  simp [gcdTurnF64,right,F64.gt,F64.rank]

theorem newNan {weights : List (F64 ℚ)} (mem : F64.nan ∈ weights) (fuel : Nat) :
    newF64 fuel weights = none := by
  have fold : ∀ a, weights.foldlM (fun a b => Loop.run gcdTurnF64 fuel (a,b)) a = none := by
    induction weights with
    | nil => exact absurd mem List.not_mem_nil
    | cons x rest ih =>
      intro a
      rw [List.foldlM_cons]
      rcases List.mem_cons.mp mem with rfl | tail
      · rw [nanDiverges a fuel]
        exact rfl
      · cases Loop.run gcdTurnF64 fuel (a,x) with
        | none => rfl
        | some b => exact ih tail b
  simp only [newF64,fold,bind,Option.bind]

end Wrr
end UdpBalancer
