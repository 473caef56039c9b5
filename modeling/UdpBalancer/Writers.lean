import Mathlib.Algebra.BigOperators.Fin
import Mathlib.Algebra.Order.BigOperators.Group.Finset
import Mathlib.Data.List.FinRange
import UdpBalancer.Ledger
import UdpBalancer.Transition

/-! Writers at one ledger. Each takes up a piece of work and posts its entries one at a
time, while the others post theirs. At every moment a figure, with what is still to be
posted of it, is what all the work taken up comes to. -/
namespace UdpBalancer.Writers
open Ledger

/- `posted` is what the writer has posted of its work, `left` what it has not. -/
structure Desk (ρ : Type) where
  posted : List ρ
  left : List ρ
  deriving DecidableEq

structure Office (n : Nat) (σ ρ ω : Type) where
  start : σ
  post : σ → ρ → σ
  entries : ω → List ρ
  takes : Fin n → ω → Bool

structure World (n : Nat) (σ ρ ω : Type) where
  ledger : σ
  desks : Fin n → Desk ρ
  begun : List ω

inductive Label (n : Nat) (ω : Type) where
  | begin (k : Fin n) (work : ω)
  | post (k : Fin n)

variable {n : Nat} {σ ρ ω : Type}

def step (o : Office n σ ρ ω) (w : World n σ ρ ω) : Label n ω → Option (World n σ ρ ω)
  | .begin k work =>
    if o.takes k work && (w.desks k).left.isEmpty then
      some ⟨w.ledger,Function.update w.desks k ⟨[],o.entries work⟩,w.begun ++ [work]⟩
    else none
  | .post k => match (w.desks k).left with
    | [] => none
    | entry::rest =>
      some ⟨o.post w.ledger entry,
        Function.update w.desks k ⟨(w.desks k).posted ++ [entry],rest⟩,w.begun⟩

def World.new (o : Office n σ ρ ω) : World n σ ρ ω := ⟨o.start,fun _ => ⟨[],[]⟩,[]⟩

def system (o : Office n σ ρ ω) : Transition.System (World n σ ρ ω) (Label n ω) :=
  Transition.computed (fun w => w = .new o) (step o)

def pending (w : World n σ ρ ω) : List ρ :=
  (List.finRange n).flatMap fun k => (w.desks k).left

inductive Moved (o : Office n σ ρ ω) (w : World n σ ρ ω) : Label n ω → World n σ ρ ω → Prop where
  | begun {k work} (takes : o.takes k work = true) (free : (w.desks k).left = []) :
      Moved o w (.begin k work)
        ⟨w.ledger,Function.update w.desks k ⟨[],o.entries work⟩,w.begun ++ [work]⟩
  | posted {k entry rest} (next : (w.desks k).left = entry::rest) :
      Moved o w (.post k) ⟨o.post w.ledger entry,
        Function.update w.desks k ⟨(w.desks k).posted ++ [entry],rest⟩,w.begun⟩

variable {o : Office n σ ρ ω} {w u : World n σ ρ ω} {label : Label n ω}

theorem stepMoved (moved : step o w label = some u) : Moved o w label u := by
  cases label with
  | begin k work =>
    simp only [step] at moved
    split at moved
    · next takes =>
      obtain ⟨takes,free⟩ := Bool.and_eq_true_iff.mp takes
      cases Option.some.inj moved
      exact .begun takes (List.isEmpty_iff.mp free)
    · contradiction
  | post k =>
    simp only [step] at moved
    split at moved
    · contradiction
    · next next =>
      cases Option.some.inj moved
      exact .posted next

def total (amount : ρ → Nat) (entries : List ρ) : Nat := (entries.map amount).sum

theorem totalAppend (amount : ρ → Nat) (first second : List ρ) :
    total amount (first ++ second) = total amount first+total amount second := by
  rw [total,List.map_append,List.sum_append]
  exact rfl

theorem totalCons (amount : ρ → Nat) (entry : ρ) (rest : List ρ) :
    total amount (entry::rest) = amount entry+total amount rest := by
  rw [total,List.map_cons,List.sum_cons]
  exact rfl

theorem totalPending (amount : ρ → Nat) (w : World n σ ρ ω) :
    total amount (pending w) = ∑ k, total amount (w.desks k).left := by
  rw [Fin.sum_univ_def,pending]
  induction List.finRange n with
  | nil => exact rfl
  | cons k rest ih =>
    rw [List.flatMap_cons,totalAppend,List.map_cons,List.sum_cons,ih]

theorem sumDesk (f : Desk ρ → Nat) (desks : Fin n → Desk ρ) (k : Fin n) (after : Desk ρ) :
    ∑ j, f (Function.update desks k after j)+f (desks k) = ∑ j, f (desks j)+f after := by
  have moved := sumElsewhere (f := fun j => f (Function.update desks k after j))
    (g := fun j => f (desks j)) (i := k) fun j apart => by rw [Function.update_of_ne apart]
  simpa only [Function.update_self] using moved

section figures
variable {figure second : σ → Nat} {amount other : ρ → Nat}

theorem stepSplits (raises : Raises o.post figure amount) (moved : step o w label = some u) :
    figure u.ledger+total amount (pending u)+total amount (w.begun.flatMap o.entries) =
      figure w.ledger+total amount (pending w)+total amount (u.begun.flatMap o.entries) := by
  simp only [totalPending]
  cases stepMoved moved with
  | @begun k work takes free =>
    have sum := sumDesk (fun desk => total amount desk.left) w.desks k ⟨[],o.entries work⟩
    have none : total amount (w.desks k).left = 0 := by rw [free]; exact rfl
    simp only at sum ⊢
    rw [List.flatMap_append,totalAppend,List.flatMap_singleton]
    omega
  | @posted k entry rest next =>
    have sum := sumDesk (fun desk => total amount desk.left) w.desks k
      ⟨(w.desks k).posted ++ [entry],rest⟩
    have head : total amount (w.desks k).left = amount entry+total amount rest := by
      rw [next,totalCons]
    have rise := raises w.ledger entry
    simp only at sum ⊢
    omega

theorem figureSplits (raises : Raises o.post figure amount)
    (reach : Transition.Reachable (system o) w) :
    figure w.ledger+total amount (pending w) =
      figure o.start+total amount (w.begun.flatMap o.entries) := by
  refine Transition.invariant (fun w => figure w.ledger+total amount (pending w) =
    figure o.start+total amount (w.begun.flatMap o.entries)) ?_ ?_ reach
  · intro s begins
    have same : s = .new o := begins
    subst same
    have none : pending (World.new o) = [] := by
      rw [pending,World.new,List.flatMap_eq_nil_iff]
      exact fun _ _ => rfl
    rw [none]
    exact rfl
  · intro s label t split moved
    have changed := stepSplits raises moved
    omega

theorem pendingPosts (raises : Raises o.post figure amount)
    (reach : Transition.Reachable (system o) w) :
    figure ((pending w).foldl o.post w.ledger) =
      figure ((w.begun.flatMap o.entries).foldl o.post o.start) := by
  rw [raisesTotal raises,raisesTotal raises]
  exact figureSplits raises reach

end figures

def Kept (o : Office n σ ρ ω) (w : World n σ ρ ω) : Prop :=
  ∀ k, (w.desks k).posted ++ (w.desks k).left = [] ∨
    ∃ work, o.takes k work = true ∧ (w.desks k).posted ++ (w.desks k).left = o.entries work

theorem stepKept (kept : Kept o w) (moved : step o w label = some u) : Kept o u := by
  cases stepMoved moved with
  | @begun k work takes free =>
    intro j
    by_cases same : j = k
    · subst same
      simp only [Function.update_self]
      exact .inr ⟨work,takes,rfl⟩
    · simp only [Function.update_of_ne same]
      exact kept j
  | @posted k entry rest next =>
    intro j
    by_cases same : j = k
    · subst same
      have whole : (w.desks j).posted ++ [entry] ++ rest =
          (w.desks j).posted ++ (w.desks j).left := by
        rw [next,List.append_assoc]
        exact rfl
      simp only [Function.update_self,whole]
      exact kept j
    · simp only [Function.update_of_ne same]
      exact kept j

theorem reachableKept (reach : Transition.Reachable (system o) w) : Kept o w := by
  refine Transition.invariant (Kept o) ?_ (fun _ _ _ kept moved => stepKept kept moved) reach
  intro s begins k
  have same : s = .new o := begins
  exact .inl (same ▸ rfl)

def Covers (first second : ρ → Nat) : Nat → List ρ → Prop
  | _,[] => True
  | credit,entry::rest =>
    second entry ≤ credit+first entry ∧ Covers first second (credit+first entry-second entry) rest

theorem coversPrefix {first second : ρ → Nat} {credit : Nat} {posted left : List ρ}
    (covers : Covers first second credit (posted ++ left)) :
    total second posted ≤ credit+total first posted := by
  induction posted generalizing credit with
  | nil => exact Nat.zero_le _
  | cons entry rest ih =>
    obtain ⟨now,later⟩ := covers
    have bound := ih later
    rw [totalCons,totalCons]
    omega

theorem coversCredit {first second : ρ → Nat} {entries : List ρ} {credit : Nat}
    (enough : total second entries ≤ credit) : Covers first second credit entries := by
  induction entries generalizing credit with
  | nil => exact trivial
  | cons entry rest ih =>
    rw [totalCons] at enough
    exact ⟨by omega,ih (by omega)⟩

theorem coversLater {first second : ρ → Nat} {early late : List ρ} {credit : Nat}
    (before : ∀ entry ∈ early, second entry = 0)
    (enough : total second late ≤ credit+total first early) :
    Covers first second credit (early ++ late) := by
  induction early generalizing credit with
  | nil => exact coversCredit enough
  | cons entry rest ih =>
    have free := before entry List.mem_cons_self
    rw [totalCons] at enough
    exact ⟨by omega,ih (fun e mem => before e (List.mem_cons_of_mem _ mem)) (by omega)⟩

theorem totalFree {amount : ρ → Nat} {entries : List ρ}
    (free : ∀ entry ∈ entries, amount entry = 0) : total amount entries = 0 := by
  refine List.sum_eq_zero fun m mem => ?_
  obtain ⟨entry,inside,same⟩ := List.mem_map.mp mem
  exact same ▸ free entry inside

theorem coversStages {first second : ρ → Nat} {early late : List ρ}
    (before : ∀ entry ∈ early, second entry = 0) (after : ∀ entry ∈ late, first entry = 0)
    (enough : total second (early ++ late) ≤ total first (early ++ late)) :
    Covers first second 0 (early ++ late) := by
  rw [totalAppend,totalAppend,totalFree before,totalFree after] at enough
  exact coversLater before (by omega)

section covered
variable {first second : σ → Nat} {left right : ρ → Nat}

def Ahead (first second : σ → Nat) (left right : ρ → Nat) (w : World n σ ρ ω) : Prop :=
  second w.ledger+∑ k, total left (w.desks k).posted ≤
    first w.ledger+∑ k, total right (w.desks k).posted

theorem stepAhead (one : Raises o.post first left) (two : Raises o.post second right)
    (covers : ∀ work, Covers left right 0 (o.entries work)) (kept : Kept o w)
    (ahead : Ahead first second left right w) (moved : step o w label = some u) :
    Ahead first second left right u := by
  unfold Ahead at ahead ⊢
  cases stepMoved moved with
  | @begun k work takes free =>
    have lefts := sumDesk (fun desk => total left desk.posted) w.desks k ⟨[],o.entries work⟩
    have rights := sumDesk (fun desk => total right desk.posted) w.desks k ⟨[],o.entries work⟩
    have earned : total right (w.desks k).posted ≤ total left (w.desks k).posted := by
      rcases kept k with empty | ⟨before,_,whole⟩
      · rw [(List.append_eq_nil_iff.mp empty).1]
        exact Nat.le_refl _
      · have bound := coversPrefix (whole ▸ covers before)
        omega
    have zeroLeft : total left ([] : List ρ) = 0 := rfl
    have zeroRight : total right ([] : List ρ) = 0 := rfl
    simp only at lefts rights ⊢
    omega
  | @posted k entry rest next =>
    have lefts := sumDesk (fun desk => total left desk.posted) w.desks k
      ⟨(w.desks k).posted ++ [entry],rest⟩
    have rights := sumDesk (fun desk => total right desk.posted) w.desks k
      ⟨(w.desks k).posted ++ [entry],rest⟩
    have riseLeft := one w.ledger entry
    have riseRight := two w.ledger entry
    simp only [totalAppend,totalCons] at lefts rights ⊢
    have zeroLeft : total left ([] : List ρ) = 0 := rfl
    have zeroRight : total right ([] : List ρ) = 0 := rfl
    omega

/- Where the work itself never lets the second figure run ahead of the first, no
interleaving does. -/
theorem staysAhead (one : Raises o.post first left) (two : Raises o.post second right)
    (covers : ∀ work, Covers left right 0 (o.entries work))
    (start : second o.start ≤ first o.start) (reach : Transition.Reachable (system o) w) :
    second w.ledger ≤ first w.ledger := by
  have ahead : Kept o w ∧ Ahead first second left right w := by
    refine Transition.invariant (fun w => Kept o w ∧ Ahead first second left right w) ?_ ?_ reach
    · intro s begins
      have same : s = .new o := begins
      subst same
      refine ⟨fun _ => .inl rfl,?_⟩
      unfold Ahead
      have zeros : ∀ f : ρ → Nat, ∑ k, total f ((World.new o).desks k).posted = 0 :=
        fun f => Finset.sum_eq_zero fun _ _ => rfl
      rw [zeros,zeros]
      exact start
    · exact fun s label t inv moved =>
        ⟨stepKept inv.1 moved,stepAhead one two covers inv.1 inv.2 moved⟩
  obtain ⟨kept,ahead⟩ := ahead
  unfold Ahead at ahead
  have earned : ∑ k, total right (w.desks k).posted ≤ ∑ k, total left (w.desks k).posted := by
    refine Finset.sum_le_sum fun k _ => ?_
    rcases kept k with empty | ⟨before,_,whole⟩
    · rw [(List.append_eq_nil_iff.mp empty).1]
      exact Nat.le_refl _
    · have bound := coversPrefix (whole ▸ covers before)
      omega
  omega

end covered

def busy (p : Fin n → Bool) (w : World n σ ρ ω) : Nat :=
  (List.finRange n).countP fun k => p k && !(w.desks k).left.isEmpty

theorem pendingBusy {amount : ρ → Nat} {p : Fin n → Bool}
    (once : ∀ k work, o.takes k work = true → total amount (o.entries work) ≤ if p k then 1 else 0)
    (reach : Transition.Reachable (system o) w) : total amount (pending w) ≤ busy p w := by
  rw [totalPending,busy,← countTotal,← Fin.sum_univ_def]
  refine Finset.sum_le_sum fun k _ => ?_
  cases left : (w.desks k).left with
  | nil => exact Nat.zero_le _
  | cons entry rest =>
    rcases reachableKept reach k with empty | ⟨work,takes,whole⟩
    · rw [left] at empty
      exact absurd (List.append_eq_nil_iff.mp empty).2 (List.cons_ne_nil _ _)
    · have bound := once k work takes
      rw [← whole,totalAppend,left] at bound
      simp only [List.isEmpty_cons,Bool.not_false,Bool.and_true]
      omega

end UdpBalancer.Writers
