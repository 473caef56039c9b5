import Mathlib.Logic.Function.Basic

/-! Labelled transition systems: reachability, the invariant rule and the
restriction of a system to the steps that meet a condition. A statement about
"every run whose steps all meet the condition" is one about the restriction. -/
namespace UdpBalancer.Transition

structure System (σ : Type u) (ε : Type v) where
  init : σ → Prop
  step : σ → ε → σ → Prop

inductive Reachable {σ : Type u} {ε : Type v} (S : System σ ε) : σ → Prop where
  | init {s} : S.init s → Reachable S s
  | step {s e t} : Reachable S s → S.step s e t → Reachable S t

variable {σ : Type u} {ε : Type v} {S : System σ ε}

theorem invariant (inv : σ → Prop) (base : ∀ s, S.init s → inv s)
    (step : ∀ s e t, inv s → S.step s e t → inv t) {s} (reach : Reachable S s) : inv s := by
  induction reach with
  | init start => exact base _ start
  | step _ moved ih => exact step _ _ _ ih moved

def restrict (S : System σ ε) (allowed : σ → ε → Prop) : System σ ε where
  init := S.init
  step s e t := allowed s e ∧ S.step s e t

theorem restrictReachable {allowed : σ → ε → Prop} {s} (reach : Reachable (restrict S allowed) s) :
    Reachable S s := by
  induction reach with
  | init start => exact .init start
  | step _ moved ih => exact .step ih moved.2

inductive Run {σ : Type u} {ε : Type v} (S : System σ ε) (s : σ) : List ε → σ → Prop where
  | nil : Run S s [] s
  | step {labels t e u} : Run S s labels t → S.step t e u → Run S s (labels ++ [e]) u

theorem runAppend {s t u : σ} {early late : List ε} (first : Run S s early t)
    (second : Run S t late u) : Run S s (early ++ late) u := by
  induction second with
  | nil => exact (List.append_nil early).symm ▸ first
  | step _ moved ih =>
    rw [← List.append_assoc]
    exact .step ih moved

theorem runExtends {s t : σ} {labels : List ε} (reach : Reachable S s) (ran : Run S s labels t) :
    Reachable S t := by
  induction ran with
  | nil => exact reach
  | step _ moved ih => exact .step ih moved

theorem foldRun {next : σ → ε → Option σ} (sound : ∀ s e t, next s e = some t → S.step s e t)
    {s t : σ} {events : List ε} (ran : events.foldlM next s = some t) : Run S s events t := by
  induction events generalizing s with
  | nil =>
    cases Option.some.inj ran
    exact .nil
  | cons e rest ih =>
    obtain ⟨u,moved,later⟩ := Option.bind_eq_some_iff.mp ran
    exact runAppend (.step .nil (sound s e u moved)) (ih later)

/- A forward simulation carries reachable states over; a step may also be none of
the other system's. -/
theorem simulates {τ : Type w} {ζ : Type x} {T : System τ ζ} (related : σ → τ → Prop)
    (base : ∀ s, S.init s → ∃ t, T.init t ∧ related s t)
    (step : ∀ s e u t, related s t → S.step s e u →
      related u t ∨ ∃ label v, T.step t label v ∧ related u v) {s} (reach : Reachable S s) :
    ∃ t, Reachable T t ∧ related s t := by
  induction reach with
  | init start =>
    obtain ⟨t,begins,same⟩ := base _ start
    exact ⟨t,.init begins,same⟩
  | step _ moved ih =>
    obtain ⟨t,reached,same⟩ := ih
    rcases step _ _ _ _ same moved with kept | ⟨label,v,follows,same⟩
    · exact ⟨t,reached,kept⟩
    · exact ⟨v,.step reached follows,same⟩

def computed (init : σ → Prop) (step : σ → ε → Option σ) : System σ ε :=
  ⟨init,fun s e t => step s e = some t⟩

def checkedRun (step : σ → ε → Option σ) (allowed : σ → ε → Prop)
    [∀ s e, Decidable (allowed s e)] (s : σ) (events : List ε) : Option σ :=
  events.foldlM (fun s e => if allowed s e then step s e else none) s

theorem checkedReachable {init : σ → Prop} {step : σ → ε → Option σ} {allowed : σ → ε → Prop}
    [∀ s e, Decidable (allowed s e)] {s t : σ} {events : List ε}
    (reach : Reachable (restrict (computed init step) allowed) s)
    (ran : checkedRun step allowed s events = some t) :
    Reachable (restrict (computed init step) allowed) t := by
  induction events generalizing s with
  | nil => cases Option.some.inj ran; exact reach
  | cons e rest ih =>
    obtain ⟨u,moved,later⟩ := Option.bind_eq_some_iff.mp ran
    have moved : (if allowed s e then step s e else none) = some u := moved
    split at moved
    · rename_i ok
      exact ih (.step reach ⟨ok,moved⟩) later
    · contradiction

theorem runReachable {init : σ → Prop} {step : σ → ε → Option σ} {s t : σ} {events : List ε}
    (reach : Reachable (computed init step) s) (ran : events.foldlM step s = some t) :
    Reachable (computed init step) t := by
  induction events generalizing s with
  | nil => cases Option.some.inj ran; exact reach
  | cons e rest ih =>
    obtain ⟨u,moved,later⟩ := Option.bind_eq_some_iff.mp ran
    exact ih (.step reach moved) later

def Along (step : σ → ε → Option σ) (property : σ → Prop) (s : σ) : List ε → Prop
  | [] => property s
  | e::rest => property s ∧ ∀ t, step s e = some t → Along step property t rest

def Meets (step : σ → ε → Option σ) (condition : σ → ε → Prop) (s : σ) : List ε → Prop
  | [] => True
  | e::rest => ∀ t, step s e = some t → condition s e ∧ Meets step condition t rest

/- A condition that every single step needs and that is enough for it is the exact
condition for runs. -/
theorem exactRuns {step : σ → ε → Option σ} {property : σ → Prop} {condition : σ → ε → Prop}
    (exact : ∀ s e t, property s → step s e = some t → (property t ↔ condition s e))
    {s} (start : property s) (events : List ε) :
    Along step property s events ↔ Meets step condition s events := by
  induction events generalizing s with
  | nil => exact ⟨fun _ => trivial,fun _ => start⟩
  | cons e rest ih =>
    constructor
    · intro ⟨_,later⟩ t moved
      have along := later t moved
      have next : property t := by
        cases rest with
        | nil => exact along
        | cons _ _ => exact along.1
      exact ⟨(exact s e t start moved).mp next,(ih next).mp along⟩
    · intro meets
      refine ⟨start,fun t moved => ?_⟩
      obtain ⟨met,later⟩ := meets t moved
      exact (ih ((exact s e t start moved).mpr met)).mpr later

end UdpBalancer.Transition
