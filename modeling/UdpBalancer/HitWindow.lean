import Mathlib.Algebra.Order.Interval.Finset.SuccPred
import Mathlib.Order.Interval.Finset.Nat
import Mathlib.Data.Nat.SuccPred
import UdpBalancer.Loop

/-! Consecutive searches over one axis: each starts behind the hit of the one
before. A window of as many searches as some interval has hits finds the hits
of that interval, wherever the window ends. -/
namespace UdpBalancer.HitWindow
open Finset

inductive Hits (hit : Nat → Prop) : Nat → List Nat → Nat → Prop where
  | nil (T) : Hits hit T [] T
  | cons {T k ks U} (first : Loop.FirstFrom hit T k) (rest : Hits hit (k+1) ks U) :
      Hits hit T (k::ks) U

variable {hit : Nat → Prop} [DecidablePred hit]

def hitsIn (hit : Nat → Prop) [DecidablePred hit] (T U : Nat) : Finset Nat :=
  (Ico T U).filter hit

theorem firstSplit {T k U} (first : Loop.FirstFrom hit T k) (le : k+1 ≤ U) :
    hitsIn hit T U = insert k (hitsIn hit (k+1) U) := by
  ext x
  simp only [hitsIn,mem_filter,mem_Ico,mem_insert]
  constructor
  · intro inside
    obtain ⟨⟨low,high⟩,found⟩ := inside
    rcases Nat.lt_trichotomy x k with before | same | after
    · exact absurd found (first.2.2 x low before)
    · exact .inl same
    · exact .inr ⟨⟨after,high⟩,found⟩
  · intro inside
    rcases inside with rfl | ⟨⟨low,high⟩,found⟩
    · exact ⟨⟨first.1,le⟩,first.2.1⟩
    · have from_start := first.1
      exact ⟨⟨by omega,high⟩,found⟩

omit [DecidablePred hit] in
theorem hitsLe {T ks U} (window : Hits hit T ks U) : T ≤ U := by
  induction window with
  | nil T => exact Nat.le_refl T
  | cons first _ ih => exact first.1.trans ((Nat.le_succ _).trans ih)

omit [DecidablePred hit] in
theorem hitsBelow {T ks U} (window : Hits hit T ks U) : ∀ k ∈ ks, k < U := by
  induction window with
  | nil T => exact fun k mem => absurd mem List.not_mem_nil
  | cons first rest ih =>
    intro x mem
    rcases List.mem_cons.mp mem with rfl | tail
    · exact hitsLe rest
    · exact ih x tail

theorem hitsCount (p : Nat → Prop) [DecidablePred p] {T ks U} (window : Hits hit T ks U) :
    ks.countP p = ((hitsIn hit T U).filter p).card := by
  induction window with
  | nil T => simp [hitsIn]
  | @cons T k ks U first rest ih =>
    have fresh : k ∉ (hitsIn hit (k+1) U).filter p := by simp [hitsIn]
    rw [firstSplit first (hitsLe rest),filter_insert,List.countP_cons,ih]
    by_cases chosen : p k
    · rw [if_pos chosen,card_insert_of_notMem fresh,if_pos (decide_eq_true chosen)]
    · rw [if_neg chosen,if_neg (by simpa using chosen),Nat.add_zero]

theorem hitsLength {T ks U} (window : Hits hit T ks U) : ks.length = (hitsIn hit T U).card := by
  have all := hitsCount (fun _ => True) window
  simpa using all

theorem sameHits {T U V} (same : (hitsIn hit T U).card = (hitsIn hit T V).card) :
    hitsIn hit T U = hitsIn hit T V := by
  have within : ∀ {a b}, a ≤ b → hitsIn hit T a ⊆ hitsIn hit T b := fun le =>
    filter_subset_filter _ (Ico_subset_Ico_right le)
  rcases Nat.le_total U V with le | le
  · exact eq_of_subset_of_card_le (within le) same.ge
  · exact (eq_of_subset_of_card_le (within le) same.le).symm

theorem windowCount (p : Nat → Prop) [DecidablePred p] {T ks U V} (window : Hits hit T ks U)
    (full : ks.length = (hitsIn hit T V).card) :
    ks.countP p = ((hitsIn hit T V).filter p).card := by
  rw [hitsCount p window,sameHits ((hitsLength window).symm.trans full)]

theorem windowExists {T V N} (enough : N ≤ (hitsIn hit T V).card) :
    ∃ ks U, Hits hit T ks U ∧ ks.length = N ∧ (T ≤ V → U ≤ V) := by
  induction N generalizing T with
  | zero => exact ⟨[],T,.nil T,rfl,id⟩
  | succ N ih =>
    obtain ⟨x,mem⟩ := card_pos.mp (Nat.lt_of_lt_of_le (Nat.succ_pos N) enough)
    simp only [hitsIn,mem_filter,mem_Ico] at mem
    obtain ⟨k,first,le⟩ := Loop.firstFromExists mem.1.1 mem.2
    have inside : k+1 ≤ V := Nat.lt_of_le_of_lt le mem.1.2
    have fresh : k ∉ hitsIn hit (k+1) V := by simp [hitsIn]
    rw [firstSplit first inside,card_insert_of_notMem fresh] at enough
    obtain ⟨ks,U,rest,length,within⟩ := ih (Nat.le_of_succ_le_succ enough)
    exact ⟨k::ks,U,.cons first rest,by rw [List.length_cons,length],fun _ => within inside⟩

omit [DecidablePred hit] in
theorem hitsAgree {other : Nat → Prop} {T ks U} (window : Hits hit T ks U)
    (agree : ∀ x, x < U → (hit x ↔ other x)) : Hits other T ks U := by
  induction window with
  | nil T => exact .nil T
  | cons first rest ih =>
    have inside := hitsLe rest
    refine .cons ⟨first.1,(agree _ (by omega)).mp first.2.1,fun j low high found => ?_⟩ (ih agree)
    exact first.2.2 j low high ((agree j (by omega)).mpr found)

/- Intervals side by side, and the shares of a predicate inside another one when both
have the same count in every interval of one length. -/
theorem hitsNext {T U} (le : T ≤ U) :
    (hitsIn hit T (U+1)).card = (hitsIn hit T U).card+if hit U then 1 else 0 := by
  have fresh : U ∉ hitsIn hit T U := by simp [hitsIn]
  rw [hitsIn,← insert_Ico_right_eq_Ico_add_one le,filter_insert]
  split
  · exact card_insert_of_notMem fresh
  · rfl

theorem hitsSplit {T U V} (first : T ≤ U) (second : U ≤ V) :
    (hitsIn hit T V).card = (hitsIn hit T U).card+(hitsIn hit U V).card := by
  induction V,second using Nat.le_induction with
  | base => simp [hitsIn]
  | succ V le ih => rw [hitsNext (first.trans le),hitsNext le,ih,Nat.add_assoc]

theorem hitsRepeat {N S} (each : ∀ T, (hitsIn hit T (T+N)).card = S) (k T : Nat) :
    (hitsIn hit T (T+k*N)).card = k*S := by
  induction k with
  | zero => simp [hitsIn]
  | succ k ih =>
    rw [Nat.succ_mul,← Nat.add_assoc,hitsSplit (Nat.le_add_right T (k*N)) (Nat.le_add_right _ N),
      ih,each,Nat.succ_mul]

theorem hitsShare {own : Nat → Prop} [DecidablePred own] (within : ∀ x, own x → hit x) {N S W}
    (mine : ∀ T, (hitsIn own T (T+N)).card = S) (all : ∀ T, (hitsIn hit T (T+N)).card = W)
    {T U s k} (ahead : T ≤ U) (enough : k*W ≤ s+(hitsIn hit T U).card) :
    k*S ≤ s+(hitsIn own T U).card := by
  have share := hitsRepeat mine k T
  have total := hitsRepeat all k T
  rcases Nat.le_total (T+k*N) U with inside | outside
  · have parts : (hitsIn own T U).card = _ := hitsSplit (Nat.le_add_right T (k*N)) inside
    omega
  · have parts : (hitsIn own T (T+k*N)).card = _ := hitsSplit ahead outside
    have others : (hitsIn hit T (T+k*N)).card = _ := hitsSplit ahead outside
    have fewer : (hitsIn own U (T+k*N)).card ≤ (hitsIn hit U (T+k*N)).card :=
      card_le_card (monotone_filter_right _ fun x _ => within x)
    omega

end UdpBalancer.HitWindow
