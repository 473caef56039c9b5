import UdpBalancer.Wrr

/-! The tolerant Euclid recursion over arbitrary rational weights. A common
divisor need not exist there; what `new` keeps is still a usable step, no
smaller than the tolerance and no larger than any weight. -/
namespace UdpBalancer.Wrr
open Backends

/- A pair of the recursion that still ends at or below `bound`: its first entry
is there already, or its second will be first next. -/
def Below (bound : ℚ) (p : ℚ × ℚ) : Prop :=
  epsilon ≤ p.1 ∧ 0 ≤ p.2 ∧ (p.1 ≤ bound ∨ epsilon ≤ p.2 ∧ p.2 ≤ bound)

theorem remIsSelf {a b : ℚ} (left : 0 ≤ a) (lt : a < b) : rem a b = a := by
  have zero : ⌊a/b⌋ = 0 := Int.floor_eq_zero_iff.mpr
    ⟨div_nonneg left (left.trans lt.le),(div_lt_one (left.trans_lt lt)).mpr lt⟩
  simp only [rem,zero,Int.cast_zero,zero_mul,sub_zero]

theorem remSmallOrdered {a b : ℚ} (large : epsilon ≤ a) (small : rem a b < epsilon) : b ≤ a := by
  by_contra swapped
  rw [remIsSelf (epsilonPos.le.trans large) (not_le.mp swapped)] at small
  exact absurd large (not_le.mpr small)

theorem belowKept {bound : ℚ} (p q : ℚ × ℚ) (inv : Below bound p) (goes : gcdStep p = .more q) :
    Below bound q := by
  obtain ⟨a,b⟩ := p
  obtain ⟨first,_,met⟩ := inv
  unfold gcdStep at goes
  split at goes
  · contradiction
  · rename_i large
    have large : epsilon ≤ b := not_lt.mp large
    cases goes
    have positive : 0 < b := epsilonPos.trans_le large
    refine ⟨large,remNonneg positive,?_⟩
    rcases met with le | ⟨_,le⟩
    · rcases lt_or_ge (rem a b) epsilon with small | stays
      · exact .inl ((remSmallOrdered first small).trans le)
      · exact .inr ⟨stays,(remLeSelf (epsilonPos.le.trans first) positive).trans le⟩
    · exact .inl le

theorem gcdBelow (bound : ℚ) {a b g : ℚ} (start : Below bound (a,b)) (ok : gcdF64 a b = some g) :
    epsilon ≤ g ∧ g ≤ bound := by
  obtain ⟨last,inv,leaves⟩ := Loop.lastTurn _ belowKept start ok
  unfold gcdStep at leaves
  split at leaves
  · rename_i small
    cases leaves
    refine ⟨inv.1,inv.2.2.resolve_right ?_⟩
    intro ⟨large,_⟩
    exact absurd large (not_le.mpr small)
  · contradiction

theorem gcdUsable {a b : ℚ} (left : epsilon ≤ a) (right : epsilon ≤ b) :
    ∃ g, gcdF64 a b = some g ∧ epsilon ≤ g ∧ g ≤ a ∧ g ≤ b := by
  obtain ⟨g,ok⟩ := gcdDefined (epsilonPos.le.trans left) (epsilonPos.le.trans right)
  have first := gcdBelow a ⟨left,epsilonPos.le.trans right,.inl (le_refl a)⟩ ok
  have second := gcdBelow b ⟨left,epsilonPos.le.trans right,.inr ⟨right,le_refl b⟩⟩ ok
  exact ⟨g,ok,first.1,first.2,second.2⟩

theorem gcdFoldUsable {weights : List ℚ} (large : ∀ x ∈ weights, epsilon ≤ x) {a : ℚ}
    (left : epsilon ≤ a) : ∃ g, weights.foldlM gcdF64 a = some g ∧
      epsilon ≤ g ∧ g ≤ a ∧ ∀ x ∈ weights, g ≤ x := by
  induction weights generalizing a with
  | nil =>
    refine ⟨a,rfl,left,le_refl a,?_⟩
    intro x mem
    exact absurd mem List.not_mem_nil
  | cons x rest ih =>
    obtain ⟨b,ok,usable,low,head⟩ := gcdUsable left (large x List.mem_cons_self)
    obtain ⟨g,fold,least,step,others⟩ :=
      ih (fun y mem => large y (List.mem_cons_of_mem x mem)) usable
    refine ⟨g,by simp only [List.foldlM_cons,ok,bind,Option.bind,fold],least,step.trans low,?_⟩
    intro y mem
    rcases List.mem_cons.mp mem with rfl | tail
    · exact step.trans head
    · exact others y tail

theorem foldStart {x : ℚ} (large : epsilon ≤ x) (rest : List ℚ) :
    (x::rest).foldlM gcdF64 0 = rest.foldlM gcdF64 x := by
  simp only [List.foldlM_cons,gcdStart large,bind,Option.bind]

theorem foldCall {before rest : List ℚ} {x : ℚ}
    (large : ∀ y ∈ before++x::rest, epsilon ≤ y) :
    ∃ a g, before.foldlM gcdF64 0 = some a ∧ Loop.Returns gcdStep (a,x) g := by
  have here : epsilon ≤ x := large x (List.mem_append_right before List.mem_cons_self)
  cases before with
  | nil => exact ⟨0,x,rfl,_,gcdStart here⟩
  | cons y others =>
    obtain ⟨a,fold,left,_⟩ := gcdFoldUsable
      (fun z mem => large z (List.mem_append_left _ (List.mem_cons_of_mem y mem)))
      (large y (List.mem_append_left _ List.mem_cons_self))
    obtain ⟨g,ok,_⟩ := gcdUsable left here
    exact ⟨a,g,(foldStart (large y (List.mem_append_left _ List.mem_cons_self)) others).trans fold,
      _,ok⟩

def weights (pool : Pool) : List ℚ := pool.backends.map Backend.weight

def Coarse (pool : Pool) : Prop := ∀ x ∈ weights pool, epsilon ≤ x

theorem newUsable {pool : Pool} (nonempty : pool.backends ≠ []) (coarse : Coarse pool) :
    ∃ w, new pool = some (w,⟨0,0⟩) ∧ epsilon ≤ w.gcdWeight ∧
      ∀ x ∈ weights pool, w.gcdWeight ≤ x := by
  obtain ⟨x,rest,split⟩ := List.exists_cons_of_ne_nil
    (fun none => nonempty (List.map_eq_nil_iff.mp none) : weights pool ≠ [])
  unfold Coarse at coarse
  rw [split] at coarse ⊢
  have large : epsilon ≤ x := coarse x List.mem_cons_self
  obtain ⟨g,fold,least,head,others⟩ :=
    gcdFoldUsable (fun y mem => coarse y (List.mem_cons_of_mem x mem)) large
  have whole : (weights pool).foldlM gcdF64 0 = some g := by
    rw [split,foldStart large,fold]
  have kept : (if 0 < g then g else 1) = g := if_pos (epsilonPos.trans_le least)
  refine ⟨⟨g,(weights pool).foldl max 0⟩,?_,least,?_⟩
  · unfold weights at whole
    simp only [new,whole,bind,Option.bind,kept,weights]
  · intro y mem
    rcases List.mem_cons.mp mem with rfl | tail
    · exact head
    · exact others y tail

theorem stepUsable (pool : Pool) (nonempty : pool.backends ≠ []) (coarse : Coarse pool) :
    (∀ before x rest, weights pool = before++x::rest →
      ∃ a g, before.foldlM gcdF64 0 = some a ∧ Loop.Returns gcdStep (a,x) g) ∧
    ∃ w, new pool = some (w,⟨0,0⟩) ∧ epsilon ≤ w.gcdWeight ∧
      ∀ i : pool.Index, w.gcdWeight ≤ pool.weight i := by
  refine ⟨?_,?_⟩
  · intro before x rest split
    unfold Coarse at coarse
    rw [split] at coarse
    exact foldCall coarse
  · obtain ⟨w,built,least,below⟩ := newUsable nonempty coarse
    exact ⟨w,built,least,fun i => below _ (List.mem_map_of_mem (List.getElem_mem i.isLt))⟩

def thirdSeventh : Pool where
  backends := [⟨localhost 1,1/3⟩,⟨localhost 2,1/7⟩]
  positive := by
    intro b mem
    simp only [List.mem_cons,List.not_mem_nil,or_false] at mem
    rcases mem with rfl | rfl <;> norm_num
  addressable := by norm_num [usizeMax]

theorem thirdSeventhUsable : ∃ w, new thirdSeventh = some (w,⟨0,0⟩) ∧ epsilon ≤ w.gcdWeight ∧
    ∀ i : thirdSeventh.Index, w.gcdWeight ≤ thirdSeventh.weight i := by
  refine (stepUsable thirdSeventh (List.cons_ne_nil _ _) ?_).2
  intro x mem
  simp only [weights,thirdSeventh,List.map_cons,List.map_nil,List.mem_cons,List.not_mem_nil,
    or_false] at mem
  rcases mem with rfl | rfl <;> norm_num [epsilon]

end UdpBalancer.Wrr
