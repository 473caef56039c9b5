import Mathlib.Data.Int.CardIntervalMod

/-! Turns dealt round robin to `n` places and cut off after `total` of them: how
many fall to one place, and to a block of neighbouring places. Lists that repeat
their elements in blocks, as such places are laid out. -/
namespace UdpBalancer.TurnQuota

def turns (total n j : Nat) : Nat := Nat.count (fun t => t % n = j) total

theorem turnsExact (total : Nat) {n j : Nat} (inside : j < n) :
    turns total n j = total/n+if j < total % n then 1 else 0 := by
  have count := Nat.count_modEq_card total (Nat.zero_lt_of_lt inside) j
  simp only [Nat.ModEq,Nat.mod_eq_of_lt inside] at count
  exact count

theorem countRange (p : Nat → Prop) [DecidablePred p] (total : Nat) :
    (List.range total).countP (fun t => decide (p t)) = Nat.count p total := by
  induction total with
  | zero => rfl
  | succ total ih =>
    rw [List.range_succ,List.countP_append,ih,Nat.count_succ,List.countP_singleton]
    simp only [decide_eq_true_eq]

theorem countSplit {p q r : Nat → Prop} [DecidablePred p] [DecidablePred q] [DecidablePred r]
    (cover : ∀ t, r t ↔ p t ∨ q t) (apart : ∀ t, p t → ¬ q t) (total : Nat) :
    Nat.count r total = Nat.count p total+Nat.count q total := by
  induction total with
  | zero => rfl
  | succ total ih =>
    have here := cover total
    have disjoint := apart total
    simp only [Nat.count_succ,ih]
    split <;> split <;> split <;> first | omega | tauto

def quota (total n a r : Nat) : Nat := r*(total/n)+min r (total % n-a)

theorem blockTurns (total : Nat) {n a r : Nat} (fits : a+r ≤ n) :
    Nat.count (fun t => a ≤ t % n ∧ t % n < a+r) total = quota total n a r := by
  induction r with
  | zero =>
    rw [quota,Nat.zero_mul,Nat.zero_min]
    apply Nat.count_of_forall_not
    omega
  | succ r ih =>
    have next := turnsExact total (show a+r < n by omega)
    rw [countSplit (p := fun t => a ≤ t % n ∧ t % n < a+r) (q := fun t => t % n = a+r) (by omega)
      (by omega),ih (by omega),show Nat.count (fun t => t % n = a+r) total = _ from next]
    simp only [quota,Nat.succ_mul]
    split <;> omega

theorem quotaLower (total n a r : Nat) : r*(total/n) ≤ quota total n a r := Nat.le_add_right _ _

theorem quotaUpper (total : Nat) {n : Nat} (pos : 0 < n) (a r : Nat) :
    quota total n a r ≤ r*((total+n-1)/n) := by
  have split := Nat.div_add_mod total n
  cases Nat.eq_zero_or_pos (total % n) with
  | inl even =>
    rw [quota,even,Nat.zero_sub,Nat.min_zero,Nat.add_zero]
    exact Nat.mul_le_mul_left r (Nat.div_le_div_right (by omega))
  | inr odd =>
    have one : total/n+1 ≤ (total+n-1)/n := by
      rw [← Nat.add_div_right total pos]
      have := Nat.div_add_mod (total+n-1) n
      rw [Nat.le_div_iff_mul_le pos,Nat.add_div_right total pos,Nat.succ_mul,Nat.mul_comm]
      omega
    calc quota total n a r ≤ r*(total/n)+r := Nat.add_le_add_left (Nat.min_le_left _ _) _
      _ = r*(total/n+1) := (Nat.mul_succ r _).symm
      _ ≤ r*((total+n-1)/n) := Nat.mul_le_mul_left r one

/- Fewer places, and no more of them in front, never cost a block a turn. -/
theorem quotaMono (total : Nat) {n m a b : Nat} (pos : 0 < m) (fewer : m ≤ n) (front : b ≤ a)
    (r : Nat) : quota total n a r ≤ quota total m b r := by
  have rounds : total/n ≤ total/m := Nat.div_le_div_left fewer pos
  rcases Nat.eq_or_lt_of_le rounds with same | more
  · have left := Nat.div_add_mod total n
    have right := Nat.div_add_mod total m
    have shrink : m*(total/m) ≤ n*(total/m) := Nat.mul_le_mul_right _ fewer
    rw [same] at left
    simp only [quota,same]
    omega
  · calc quota total n a r ≤ r*(total/n)+r := Nat.add_le_add_left (Nat.min_le_left _ _) _
      _ = r*(total/n+1) := (Nat.mul_succ r _).symm
      _ ≤ r*(total/m) := Nat.mul_le_mul_left r more
      _ ≤ quota total m b r := quotaLower total m b r

theorem quotaPos (total : Nat) {n a r : Nat} (pos : 0 < r) (fits : a+r ≤ n) :
    0 < quota total n a r ↔ a < total := by
  unfold quota
  rcases Nat.lt_or_ge total n with short | long
  · rw [Nat.div_eq_of_lt short,Nat.mod_eq_of_lt short]
    omega
  · have round : 0 < r*(total/n) := Nat.mul_pos pos (Nat.div_pos long (by omega))
    omega

section
variable {α : Type u} {β : Type v} (reps : α → Nat) (f : α → β)

def blocks (xs : List α) : List β := xs.flatMap fun x => List.replicate (reps x) (f x)

def size (xs : List α) : Nat := (xs.map reps).sum

theorem blocksLength (xs : List α) : (blocks reps f xs).length = size reps xs := by
  simp only [blocks,size,List.length_flatMap,List.length_replicate]

theorem blocksAt {before later : List α} {x : α} (distinct : ∀ y ∈ before ++ later, f y ≠ f x)
    (k : Nat) : (blocks reps f (before ++ x::later))[k]? = some (f x) ↔
      size reps before ≤ k ∧ k < size reps before+reps x := by
  have split : blocks reps f (before ++ x::later) =
      blocks reps f before ++ (List.replicate (reps x) (f x) ++ blocks reps f later) := by
    simp only [blocks,List.flatMap_append,List.flatMap_cons]
  have outside : ∀ ys, (∀ y ∈ ys, y ∈ before ++ later) → f x ∉ blocks reps f ys := by
    intro ys inside mem
    obtain ⟨y,there,repeated⟩ := List.mem_flatMap.mp mem
    exact distinct y (inside y there) (List.mem_replicate.mp repeated).2.symm
  have front := outside before fun y => List.mem_append_left _
  have rear := outside later fun y => List.mem_append_right _
  rw [split]
  rcases Nat.lt_or_ge k (size reps before) with early | late
  · rw [List.getElem?_append_left (by rwa [blocksLength])]
    constructor
    · exact fun found => absurd (List.mem_of_getElem? found) front
    · omega
  · rw [List.getElem?_append_right (by rwa [blocksLength]),blocksLength]
    rcases Nat.lt_or_ge (k-size reps before) (reps x) with inside | after
    · rw [List.getElem?_append_left (by rwa [List.length_replicate]),
        List.getElem?_replicate,if_pos inside]
      simp only [true_iff]
      omega
    · rw [List.getElem?_append_right (by rwa [List.length_replicate])]
      constructor
      · exact fun found => absurd (List.mem_of_getElem? found) rear
      · omega

end
end UdpBalancer.TurnQuota
