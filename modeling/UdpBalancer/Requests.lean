import Mathlib.Logic.Function.Basic

/-! Programs that ask their environment for one thing after another and end at the
first refusal. A plan lists the requests in the order in which they are made. -/
namespace UdpBalancer.Requests
variable {ρ ε δ α β : Type} {issue : ρ → Except ε Unit} {plan later : List ρ} {P : α → Prop}
  {Q : β → Prop}

inductive Follows (issue : ρ → Except ε Unit) (P : α → Prop) :
    List ρ → Except ε α → Prop where
  | done {a} (result : P a) : Follows issue P [] (.ok a)
  | granted {r rest x} (answer : issue r = .ok ()) (next : Follows issue P rest x) :
      Follows issue P (r::rest) x
  | refused {r rest e} (answer : issue r = .error e) : Follows issue P (r::rest) (.error e)

theorem followsFails {x : Except ε α} {e : ε} (follows : Follows issue P plan x)
    (failed : x = .error e) : ∃ before r after, plan = before ++ r::after ∧
      (∀ q ∈ before, issue q = .ok ()) ∧ issue r = .error e := by
  induction follows with
  | done result => contradiction
  | @granted r rest x answer next ih =>
    obtain ⟨before,s,after,rfl,passed,refused⟩ := ih failed
    exact ⟨r::before,s,after,rfl,List.forall_mem_cons.mpr ⟨answer,passed⟩,refused⟩
  | @refused r rest d answer =>
    cases failed
    exact ⟨[],r,rest,rfl,fun q mem => absurd mem List.not_mem_nil,answer⟩

/- Where more fuel takes no answer back, one amount is enough for a whole plan. -/
theorem enough (issue : Nat → ρ → Except ε Unit)
    (mono : ∀ {r small large}, small ≤ large → issue small r = .ok () → issue large r = .ok ())
    (each : ∀ r ∈ plan, ∃ n, issue n r = .ok ()) :
    ∃ least, ∀ n, least ≤ n → ∀ r ∈ plan, issue n r = .ok () := by
  induction plan with
  | nil => exact ⟨0,fun n _ r mem => absurd mem List.not_mem_nil⟩
  | cons q rest ih =>
    obtain ⟨⟨first,answer⟩,others⟩ := List.forall_mem_cons.mp each
    obtain ⟨later,answers⟩ := ih others
    refine ⟨max first later,fun n above => List.forall_mem_cons.mpr ⟨?_,?_⟩⟩
    · exact mono (Nat.le_trans (Nat.le_max_left first later) above) answer
    · exact answers n (Nat.le_trans (Nat.le_max_right first later) above)

theorem followsThen {x : Except ε α} {f : α → Except ε β} (first : Follows issue P plan x)
    (next : ∀ a, P a → Follows issue Q later (f a)) :
    Follows issue Q (plan ++ later) (x >>= f) := by
  induction first with
  | done result => exact next _ result
  | granted answer _ ih => exact .granted answer ih
  | refused answer => exact .refused answer

theorem followsWiden {x : Except ε α} {R : α → Prop} (follows : Follows issue P plan x)
    (weaker : ∀ a, P a → R a) : Follows issue R plan x := by
  induction follows with
  | done result => exact .done (weaker _ result)
  | granted answer _ ih => exact .granted answer ih
  | refused answer => exact .refused answer

theorem followsOne {r : ρ} {x : Except ε α} (asks : issue r = x.map fun _ => ()) :
    Follows issue (fun a => x = .ok a) [r] x := by
  cases x with
  | ok a => exact .granted asks (.done rfl)
  | error e => exact .refused asks

end UdpBalancer.Requests
