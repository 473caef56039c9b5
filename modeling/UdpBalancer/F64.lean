import Mathlib.Order.WithBot
import Mathlib.Data.Rat.Floor

/-! Floating-point values over a carrier `R` of finite ones: the rationals for
the machine's floats, the reals for exact arithmetic. Comparisons follow IEEE:
a NaN compares false with everything, and the two zeros are one value. -/
namespace UdpBalancer

inductive F64 (R : Type u) where
  | nan
  | negInf
  | fin (r : R)
  | posInf
  deriving DecidableEq, Repr

namespace F64
variable {R : Type u}

def rank : F64 R → Option (WithBot (WithTop R))
  | .nan => none
  | .negInf => some ⊥
  | .fin r => some ((r : WithTop R) : WithBot (WithTop R))
  | .posInf => some ((⊤ : WithTop R) : WithBot (WithTop R))

def neg [Neg R] : F64 R → F64 R
  | .nan => .nan
  | .negInf => .posInf
  | .fin r => .fin (-r)
  | .posInf => .negInf

variable [LinearOrder R]

def gt (a b : F64 R) : Bool :=
  match a.rank,b.rank with
  | some x,some y => decide (y < x)
  | _,_ => false

def le (a b : F64 R) : Bool :=
  match a.rank,b.rank with
  | some x,some y => decide (x ≤ y)
  | _,_ => false

theorem gtRank {a b : F64 R} :
    gt a b = true ↔ ∃ x y, a.rank = some x ∧ b.rank = some y ∧ y < x := by
  unfold gt
  cases hx : a.rank with
  | none => simp
  | some x =>
    cases hy : b.rank with
    | none => simp
    | some y => simp

theorem gtIrrefl (a : F64 R) : gt a a = false := by
  cases h : gt a a with
  | false => rfl
  | true =>
    obtain ⟨x,y,hx,hy,lt⟩ := gtRank.mp h
    cases Option.some.inj (hx.symm.trans hy)
    exact absurd lt (lt_irrefl x)

theorem gtTrans {a b c : F64 R} (left : gt a b = true) (right : gt b c = true) :
    gt a c = true := by
  obtain ⟨x,y,hx,hy,above⟩ := gtRank.mp left
  obtain ⟨y',z,hy',hz,below⟩ := gtRank.mp right
  cases Option.some.inj (hy.symm.trans hy')
  exact gtRank.mpr ⟨x,z,hx,hz,below.trans above⟩

theorem gtSplit {a b c : F64 R} (above : gt a c = true) (number : b ≠ .nan) :
    gt a b = true ∨ gt b c = true := by
  obtain ⟨x,z,hx,hz,lt⟩ := gtRank.mp above
  obtain ⟨y,hy⟩ : ∃ y, b.rank = some y := by
    cases b with
    | nan => exact absurd rfl number
    | negInf => exact ⟨_,rfl⟩
    | fin r => exact ⟨_,rfl⟩
    | posInf => exact ⟨_,rfl⟩
  rcases lt_or_ge y x with below | upper
  · exact .inl (gtRank.mpr ⟨x,y,hx,hy,below⟩)
  · exact .inr (gtRank.mpr ⟨y,z,hy,hz,lt.trans_le upper⟩)

theorem gtFin (x y : R) : gt (.fin x) (.fin y) = decide (y < x) := by
  simp only [gt,rank,WithBot.coe_lt_coe,WithTop.coe_lt_coe]

theorem leFin (x y : R) : le (.fin x) (.fin y) = decide (x ≤ y) := by
  simp only [le,rank,WithBot.coe_le_coe,WithTop.coe_le_coe]

theorem posInfGt (r : R) : gt .posInf (.fin r) = true := by
  simp only [gt,rank,decide_eq_true_eq]
  exact WithBot.coe_lt_coe.mpr (WithTop.coe_lt_top r)

theorem gtNumber {a b : F64 R} (above : gt a b = true) : a ≠ .nan := by
  intro same
  obtain ⟨x,_,hx,_⟩ := gtRank.mp above
  rw [same] at hx
  contradiction

end F64
end UdpBalancer
