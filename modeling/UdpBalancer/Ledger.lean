import Mathlib.Algebra.BigOperators.Group.Finset.Piecewise
import Mathlib.Algebra.BigOperators.Group.List.Basic
import Mathlib.Algebra.Ring.Nat

/-! Ledgers: a state to which entries are posted one after the other. A figure that each
entry raises by an amount of its own ends as the sum of the amounts, so that figures
whose amounts agree entry by entry agree in the end. -/
namespace UdpBalancer.Ledger

variable {σ ρ κ : Type} {post : σ → ρ → σ}

def Raises (post : σ → ρ → σ) (figure : σ → Nat) (amount : ρ → Nat) : Prop :=
  ∀ s r, figure (post s r) = figure s+amount r

theorem raisesTotal {figure : σ → Nat} {amount : ρ → Nat} (raises : Raises post figure amount)
    (entries : List ρ) (s : σ) :
    figure (entries.foldl post s) = figure s+(entries.map amount).sum := by
  induction entries generalizing s with
  | nil => exact rfl
  | cons r rest ih =>
    rw [List.foldl_cons,ih,raises,List.map_cons,List.sum_cons,Nat.add_assoc]

theorem raisesAdd {first second : σ → Nat} {left right : ρ → Nat} (one : Raises post first left)
    (two : Raises post second right) :
    Raises post (fun s => first s+second s) fun r => left r+right r := by
  intro s r
  have left := one s r
  have right := two s r
  simp only
  omega

theorem raisesSum {figures : κ → σ → Nat} {amounts : κ → ρ → Nat}
    (each : ∀ k, Raises post (figures k) (amounts k)) (keys : Finset κ) :
    Raises post (fun s => ∑ k ∈ keys, figures k s) fun r => ∑ k ∈ keys, amounts k r := by
  intro s r
  rw [← Finset.sum_add_distrib]
  exact Finset.sum_congr rfl fun k _ => each k s r

/- Two figures that start alike, with `leak` for what the second misses of the first. -/
theorem raisesAgree {first second : σ → Nat} {left right leak : ρ → Nat}
    (one : Raises post first left) (two : Raises post second right) {entries : List ρ}
    (agree : ∀ r ∈ entries, left r = right r+leak r) {s : σ} (start : first s = second s) :
    first (entries.foldl post s) =
      second (entries.foldl post s)+(entries.map leak).sum := by
  have sums : (entries.map left).sum = (entries.map right).sum+(entries.map leak).sum := by
    rw [List.map_congr_left agree,List.sum_map_add]
  rw [raisesTotal one,raisesTotal two,sums,start,Nat.add_assoc]

theorem countTotal {α : Type} (p : α → Bool) (xs : List α) :
    (xs.map fun x => if p x then 1 else 0).sum = xs.countP p := by
  induction xs with
  | nil => exact rfl
  | cons x rest ih => rw [List.map_cons,List.sum_cons,ih,List.countP_cons,Nat.add_comm]

theorem amountTotal {α : Type} (p : α → Bool) (f : α → Nat) (xs : List α) :
    (xs.map fun x => if p x then f x else 0).sum = ((xs.filter p).map f).sum := by
  induction xs with
  | nil => exact rfl
  | cons x rest ih =>
    rw [List.map_cons,List.sum_cons,ih,List.filter_cons]
    split
    · rw [List.map_cons,List.sum_cons]
    · rw [Nat.zero_add]

theorem sumOwner [DecidableEq κ] (owner : Option κ) (n : Nat) (keys : Finset κ) :
    ∑ k ∈ keys, (if owner = some k then n else 0) =
      if ∃ k ∈ keys, owner = some k then n else 0 := by
  cases owner with
  | none => simp
  | some k =>
    simp only [Option.some.injEq]
    rw [Finset.sum_ite_eq]
    simp

theorem sumElsewhere [Fintype κ] [DecidableEq κ] {f g : κ → Nat} {i : κ}
    (same : ∀ j, j ≠ i → f j = g j) : ∑ j, f j+g i = ∑ j, g j+f i := by
  have rest : ∑ j ∈ Finset.univ.erase i, f j = ∑ j ∈ Finset.univ.erase i, g j :=
    Finset.sum_congr rfl fun j mem => same j (Finset.ne_of_mem_erase mem)
  rw [← Finset.add_sum_erase _ f (Finset.mem_univ i),
    ← Finset.add_sum_erase _ g (Finset.mem_univ i),rest]
  omega

end UdpBalancer.Ledger
