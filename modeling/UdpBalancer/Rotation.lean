import Mathlib.Data.Rat.Floor
import Mathlib.Tactic.Linarith
import Mathlib.Tactic.Ring

/-! A counter that wraps at `B` walks `n` positions round and round, a pass at a
time, and each pass lowers a level by `g` until it starts again from the top.
The wrap cuts one pass short: it visits the first `tail` positions only. -/
namespace UdpBalancer.Rotation

section positions
variable {B n : Nat}

def position (B n T : Nat) : Nat := T % B % n

def passes (B n : Nat) : Nat := (B-1)/n+1

def tail (B n : Nat) : Nat := (B-1) % n+1

def pass (B n T : Nat) : Nat := T/B*passes B n+T % B/n

@[simp] theorem positionZero : position B n 0 = 0 := by simp [position]

@[simp] theorem passZero : pass B n 0 = 0 := by simp [pass]

theorem succCases (positive : 0 < B) (T : Nat) :
    (T+1) % B = 0 ∧ T % B = B-1 ∧ (T+1)/B = T/B+1 ∨
      (T+1) % B = T % B+1 ∧ (T+1)/B = T/B := by
  have split := Nat.mod_add_div T B
  have lt := Nat.mod_lt T positive
  rcases Nat.lt_or_ge (T % B+1) B with inside | last
  · have unique := (Nat.div_mod_unique positive).mpr
      (⟨by omega,inside⟩ : T % B+1+B*(T/B) = T+1 ∧ T % B+1 < B)
    exact Or.inr ⟨unique.2,unique.1⟩
  · have unique := (Nat.div_mod_unique positive).mpr
      (⟨by rw [Nat.mul_add_one]; omega,positive⟩ : 0+B*(T/B+1) = T+1 ∧ 0 < B)
    exact Or.inl ⟨unique.2,by omega,unique.1⟩

theorem passSucc (positive : 0 < B) (room : 0 < n) (T : Nat) :
    pass B n (T+1) = if position B n (T+1) = 0 then pass B n T+1 else pass B n T := by
  unfold pass position
  rcases succCases positive T with ⟨zero,last,quotient⟩ | ⟨next,quotient⟩
  · simp only [zero,Nat.zero_mod,if_true,quotient,last,Nat.zero_div,passes]
    ring
  · rw [next,quotient]
    rcases succCases room (T % B) with ⟨zero,_,up⟩ | ⟨inner,same⟩
    · simp only [zero,if_true,up]
      ring
    · have apart : T % B % n+1 ≠ 0 := Nat.succ_ne_zero _
      simp only [inner,same,apart,if_false]

theorem passMono (positive : 0 < B) (room : 0 < n) {T U} (le : T ≤ U) :
    pass B n T ≤ pass B n U := by
  induction U, le using Nat.le_induction with
  | base => exact Nat.le_refl _
  | succ U _ ih =>
    rw [passSucc positive room]
    split
    · exact Nat.le_succ_of_le ih
    · exact ih

theorem positionLt (room : 0 < n) (T : Nat) : position B n T < n := Nat.mod_lt _ room

theorem passVisits (positive : 0 < B) {p i} (lt : i < n)
    (uncut : i < tail B n ∨ ¬ passes B n ∣ p+1) : ∃ T, position B n T = i ∧ pass B n T = p := by
  have room : 0 < n := Nat.lt_of_le_of_lt (Nat.zero_le i) lt
  have some : 0 < passes B n := Nat.succ_pos _
  have whole := Nat.div_add_mod (B-1) n
  have inside : p % passes B n*n+i < B := by
    rcases succCases some p with ⟨zero,last,_⟩ | ⟨next,_⟩
    · have cut := uncut.resolve_right fun h => h (Nat.dvd_of_mod_eq_zero zero)
      rw [last,passes,Nat.add_sub_cancel,Nat.mul_comm]
      unfold tail at cut
      omega
    · have below : (p % passes B n+1)*n ≤ (B-1)/n*n := by
        have lt := Nat.mod_lt (p+1) some
        rw [next] at lt
        exact Nat.mul_le_mul_right n (by unfold passes at lt ⊢; omega)
      rw [Nat.add_one_mul,Nat.mul_comm ((B-1)/n)] at below
      omega
  have low : (p/passes B n*B+(p % passes B n*n+i)) % B = p % passes B n*n+i :=
    Nat.mul_add_mod_of_lt inside
  have high : (p/passes B n*B+(p % passes B n*n+i))/B = p/passes B n := by
    rw [Nat.add_comm,Nat.add_mul_div_right _ _ positive,Nat.div_eq_of_lt inside,Nat.zero_add]
  have row : (p % passes B n*n+i)/n = p % passes B n := by
    rw [Nat.add_comm,Nat.add_mul_div_right _ _ room,Nat.div_eq_of_lt lt,Nat.zero_add]
  refine ⟨p/passes B n*B+(p % passes B n*n+i),?_,?_⟩
  · rw [position,low,Nat.mul_add_mod_of_lt lt]
  · rw [pass,high,low,row,Nat.div_add_mod']

theorem cutPosition (positive : 0 < B) {T} (cut : passes B n ∣ pass B n T+1) :
    position B n T < tail B n := by
  have lt := Nat.mod_lt T positive
  have divides : passes B n ∣ T % B/n+1 := by
    rw [pass,Nat.add_assoc] at cut
    exact (Nat.dvd_add_right (Nat.dvd_mul_left _ _)).mp cut
  have least := Nat.le_of_dvd (Nat.succ_pos _) divides
  have most : T % B/n ≤ (B-1)/n := Nat.div_le_div_right (by omega)
  have row : T % B/n = (B-1)/n := by unfold passes at least; omega
  have here := Nat.div_add_mod (T % B) n
  have final := Nat.div_add_mod (B-1) n
  rw [row] at here
  unfold position tail
  omega

end positions

section levels
variable {top g : ℚ}

def lower (top g level : ℚ) : ℚ := if level-g ≤ 0 then top else level-g

def steps (top g : ℚ) : Nat := ⌈top/g⌉₊

def level (top g : ℚ) (p : Nat) : ℚ := top-(p % steps top g : Nat)*g

def bottom (top g : ℚ) : ℚ := top-(steps top g-1 : Nat)*g

theorem stepsPos (high : 0 < top) (positive : 0 < g) : 0 < steps top g :=
  Nat.ceil_pos.mpr (div_pos high positive)

theorem levelZero (positive : 0 < g) : lower top g 0 = level top g 0 := by
  have drop : (0 : ℚ)-g ≤ 0 := by linarith
  simp only [lower,drop,if_true,level,Nat.zero_mod,Nat.cast_zero,zero_mul,sub_zero]

theorem levelSucc (high : 0 < top) (positive : 0 < g) (p : Nat) :
    lower top g (level top g p) = level top g (p+1) := by
  have some := stepsPos high positive
  unfold lower level
  rcases succCases some p with ⟨zero,last,_⟩ | ⟨next,_⟩
  · have upper : top/g ≤ steps top g := Nat.le_ceil _
    have spent : top ≤ steps top g*g := (div_le_iff₀ positive).mp upper
    have drop : top-(p % steps top g : Nat)*g-g ≤ 0 := by
      rw [last,Nat.cast_sub some]
      push_cast
      linarith
    rw [if_pos drop,zero]
    simp
  · have under : ((p % steps top g+1 : Nat) : ℚ) < top/g := by
      have lt := Nat.mod_lt (p+1) some
      rw [next] at lt
      exact Nat.lt_ceil.mp lt
    have left : ((p % steps top g+1 : Nat) : ℚ)*g < top := (lt_div_iff₀ positive).mp under
    have stays : ¬ top-(p % steps top g : Nat)*g-g ≤ 0 := by
      push_cast at left
      linarith
    rw [if_neg stays,next]
    push_cast
    ring

theorem levelPos (high : 0 < top) (positive : 0 < g) (p : Nat) : 0 < level top g p := by
  have lt : ((p % steps top g : Nat) : ℚ) < top/g :=
    Nat.lt_ceil.mp (Nat.mod_lt p (stepsPos high positive))
  have spent := (lt_div_iff₀ positive).mp lt
  unfold level
  linarith

theorem levelBottom {p} (last : p % steps top g = steps top g-1) : level top g p = bottom top g := by
  rw [level,last,bottom]

theorem levelAbove (high : 0 < top) (positive : 0 < g) {p}
    (early : p % steps top g ≠ steps top g-1) : bottom top g+g ≤ level top g p := by
  have some := stepsPos high positive
  have lt := Nat.mod_lt p some
  have room : ((p % steps top g : Nat) : ℚ)+1 ≤ (steps top g-1 : Nat) := by
    exact_mod_cast (show p % steps top g+1 ≤ steps top g-1 by omega)
  have scaled := mul_le_mul_of_nonneg_right room positive.le
  unfold bottom level
  linarith

end levels

/- Where a weight `w` at position `i` is met by the level of some pass. The
lowest level falls on the cut pass alone when the passes divide the levels. -/
section reach
variable {B n : Nat} {top g : ℚ}

def Reached (B n : Nat) (top g : ℚ) (i : Nat) (w : ℚ) : Prop :=
  bottom top g+g ≤ w ∨
    bottom top g ≤ w ∧ (i < tail B n ∨ ¬ passes B n ∣ steps top g)

theorem metReached (positive : 0 < B) (high : 0 < top) (descends : 0 < g) {T w}
    (met : level top g (pass B n T) ≤ w) : Reached B n top g (position B n T) w := by
  by_cases last : pass B n T % steps top g = steps top g-1
  · refine .inr ⟨levelBottom last ▸ met,?_⟩
    by_cases divides : passes B n ∣ steps top g
    · have some := stepsPos high descends
      have full : steps top g ∣ pass B n T+1 := by
        rcases succCases some (pass B n T) with ⟨zero,_,_⟩ | ⟨next,_⟩
        · exact Nat.dvd_of_mod_eq_zero zero
        · have lt := Nat.mod_lt (pass B n T+1) some
          omega
      exact .inl (cutPosition positive (divides.trans full))
    · exact .inr divides
  · exact .inl ((levelAbove high descends last).trans met)

theorem lateBottom (high : 0 < top) (descends : 0 < g) {i}
    (uncut : i < tail B n ∨ ¬ passes B n ∣ steps top g) (bound : Nat) :
    ∃ p, bound < p ∧ p % steps top g = steps top g-1 ∧
      (i < tail B n ∨ ¬ passes B n ∣ p+1) := by
  have some := stepsPos high descends
  have residue : ∀ m, (m*steps top g+(steps top g-1)) % steps top g = steps top g-1 :=
    fun m => Nat.mul_add_mod_of_lt (by omega)
  have late : ∀ m, bound < m → bound < m*steps top g+(steps top g-1) := fun m lt =>
    Nat.lt_of_lt_of_le lt ((Nat.le_mul_of_pos_right m some).trans (Nat.le_add_right _ _))
  have next : ∀ m, m*steps top g+(steps top g-1)+1 = (m+1)*steps top g := by
    intro m
    rw [Nat.add_one_mul]
    omega
  rcases uncut with early | apart
  · exact ⟨_,late (bound+1) (Nat.lt_succ_self _),residue _,.inl early⟩
  · by_cases first : passes B n ∣ (bound+2)*steps top g
    · refine ⟨_,late (bound+2) (by omega),residue _,.inr fun second => apart ?_⟩
      rw [next,Nat.add_one_mul] at second
      exact (Nat.dvd_add_right first).mp second
    · refine ⟨_,late (bound+1) (Nat.lt_succ_self _),residue _,.inr fun second => first ?_⟩
      rwa [next] at second

theorem lateAbove (wide : 2 ≤ passes B n) (high : 0 < top) (descends : 0 < g)
    (divides : passes B n ∣ steps top g) (bound : Nat) :
    ∃ p, bound < p ∧ level top g p = bottom top g+g ∧ ¬ passes B n ∣ p+1 := by
  have some := stepsPos high descends
  have two : 2 ≤ steps top g := wide.trans (Nat.le_of_dvd some divides)
  refine ⟨(bound+1)*steps top g+(steps top g-2),?_,?_,?_⟩
  · exact Nat.lt_of_lt_of_le (Nat.lt_succ_self bound)
      ((Nat.le_mul_of_pos_right _ some).trans (Nat.le_add_right _ _))
  · rw [level,bottom,Nat.mul_add_mod_of_lt (by omega),Nat.cast_sub two,Nat.cast_sub (by omega)]
    push_cast
    ring
  · intro cut
    have multiple : passes B n ∣ (bound+1)*steps top g+(steps top g-2)+1+1 := by
      rw [show (bound+1)*steps top g+(steps top g-2)+1+1 = (bound+2)*steps top g by
        rw [Nat.add_mul,Nat.add_mul]; omega]
      exact divides.trans (Nat.dvd_mul_left _ _)
    have one := (Nat.dvd_add_right cut).mp multiple
    have unit := Nat.le_of_dvd Nat.one_pos one
    omega

theorem reachedMet (positive : 0 < B) (wide : 2 ≤ passes B n) (high : 0 < top) (descends : 0 < g)
    {i w} (lt : i < n) (reached : Reached B n top g i w) (T : Nat) :
    ∃ U, T ≤ U ∧ position B n U = i ∧ level top g (pass B n U) ≤ w := by
  have room : 0 < n := Nat.lt_of_le_of_lt (Nat.zero_le i) lt
  obtain ⟨p,late,low,uncut⟩ : ∃ p, pass B n T < p ∧ level top g p ≤ w ∧
      (i < tail B n ∨ ¬ passes B n ∣ p+1) := by
    by_cases divides : passes B n ∣ steps top g
    · rcases reached with above | ⟨low,early⟩
      · obtain ⟨p,late,same,uncut⟩ := lateAbove wide high descends divides (pass B n T)
        exact ⟨p,late,same ▸ above,.inr uncut⟩
      · obtain ⟨p,late,last,uncut⟩ := lateBottom high descends early (pass B n T)
        exact ⟨p,late,levelBottom last ▸ low,uncut⟩
    · obtain ⟨p,late,last,uncut⟩ :=
        lateBottom (i := i) high descends (.inr divides) (pass B n T)
      have low : bottom top g ≤ w := by
        rcases reached with above | ⟨low,_⟩
        · linarith
        · exact low
      exact ⟨p,late,levelBottom last ▸ low,uncut⟩
  obtain ⟨U,place,turn⟩ := passVisits positive lt uncut
  refine ⟨U,?_,place,turn ▸ low⟩
  by_contra before
  have mono := passMono (n := n) positive room (Nat.le_of_not_le before)
  omega

end reach

end UdpBalancer.Rotation
