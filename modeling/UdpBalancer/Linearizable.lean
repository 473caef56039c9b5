import UdpBalancer.Transition

/-! Linearizability. An object takes its operations one at a time. A concurrent
system implements it when every history of its invocations, responses and outside
changes can be completed by one effect for each answered operation, between its
invocation and its response, so that the effects are a sequential run of the object. -/
namespace UdpBalancer.Linearizable
open Transition

variable {α ι ρ ω : Type}

/- An operation may have several outcomes, or none. -/
structure Object (α ι ρ ω : Type) where
  apply : α → ι → α → ρ → Prop
  change : α → ω → α → Prop

inductive Move (ι ρ ω : Type) where
  | invoke (t : Nat) (i : ι)
  | effect (t : Nat) (i : ι) (r : ρ)
  | respond (t : Nat) (r : ρ)
  | change (e : ω)

def Move.visible : Move ι ρ ω → Bool
  | .effect _ _ _ => false
  | _ => true

inductive Client (ι ρ : Type) where
  | idle
  | pending (i : ι)
  | answered (r : ρ)

def Alternates (t : Nat) : Client ι ρ → List (Move ι ρ ω) → Prop
  | _, [] => True
  | c, .invoke u i::rest =>
      if u = t then c = .idle ∧ Alternates t (.pending i) rest else Alternates t c rest
  | c, .effect u i r::rest =>
      if u = t then c = .pending i ∧ Alternates t (.answered r) rest else Alternates t c rest
  | c, .respond u r::rest =>
      if u = t then c = .answered r ∧ Alternates t .idle rest else Alternates t c rest
  | c, .change _::rest => Alternates t c rest

inductive Sequential (o : Object α ι ρ ω) : α → List (Move ι ρ ω) → α → Prop where
  | nil {a} : Sequential o a [] a
  | invoke {a t i moves b} : Sequential o a moves b → Sequential o a (.invoke t i::moves) b
  | effect {a t i v r moves b} : o.apply a i v r → Sequential o v moves b →
      Sequential o a (.effect t i r::moves) b
  | respond {a t r moves b} : Sequential o a moves b → Sequential o a (.respond t r::moves) b
  | change {a e v moves b} : o.change a e v → Sequential o v moves b →
      Sequential o a (.change e::moves) b

structure Linearizes (o : Object α ι ρ ω) (start : α) (history moves : List (Move ι ρ ω)) :
    Prop where
  completes : moves.filter Move.visible = history
  orders : ∀ t, Alternates t .idle moves
  legal : ∃ final, Sequential o start moves final

inductive Traces {σ ε : Type} (S : System σ ε) (watch : σ → ε → σ → List (Move ι ρ ω)) :
    σ → List (Move ι ρ ω) → σ → Prop where
  | nil {s} : Traces S watch s [] s
  | step {s history u e t} : Traces S watch s history u → S.step u e t →
      Traces S watch s (history ++ watch u e t) t

theorem tracesReachable {σ ε : Type} {S : System σ ε} {allowed : σ → ε → Prop}
    {watch : σ → ε → σ → List (Move ι ρ ω)} {s history t} (reach : Reachable S s)
    (traced : Traces (restrict S allowed) watch s history t) : Reachable S t := by
  induction traced with
  | nil => exact reach
  | step _ moved ih => exact .step ih moved.2

def played {σ ε : Type} (next : σ → ε → Option σ) (watch : σ → ε → σ → List (Move ι ρ ω)) (s : σ) :
    List ε → Option (List (Move ι ρ ω) × σ)
  | [] => some ([],s)
  | e::rest => (next s e).bind fun t =>
    (played next watch t rest).map fun (history,u) => (watch s e t ++ history,u)

theorem playedTraces {σ ε : Type} {S : System σ ε} {next : σ → ε → Option σ}
    {watch : σ → ε → σ → List (Move ι ρ ω)} (sound : ∀ s e t, next s e = some t → S.step s e t)
    {s t u : σ} {history later : List (Move ι ρ ω)} {events : List ε}
    (traced : Traces S watch s history t) (ran : played next watch t events = some (later,u)) :
    Traces S watch s (history ++ later) u := by
  induction events generalizing t history later with
  | nil =>
    cases Option.some.inj ran
    rw [List.append_nil]
    exact traced
  | cons e rest ih =>
    obtain ⟨v,moved,next⟩ := Option.bind_eq_some_iff.mp ran
    obtain ⟨⟨shown,last⟩,after,same⟩ := Option.map_eq_some_iff.mp next
    cases same
    rw [← List.append_assoc]
    exact ih (.step traced (sound t e v moved)) after

def Implements {σ ε : Type} (S : System σ ε) (watch : σ → ε → σ → List (Move ι ρ ω))
    (o : Object α ι ρ ω) (start : σ → α) : Prop :=
  ∀ s history t, S.init s → Traces S watch s history t →
    ∃ moves, Linearizes o (start s) history moves

structure Atomic (α ι ρ : Type) where
  value : α
  clients : Nat → Client ι ρ

def Atomic.goto (a : Atomic α ι ρ) (t : Nat) (c : Client ι ρ) : Atomic α ι ρ :=
  {a with clients := Function.update a.clients t c}

inductive Step (o : Object α ι ρ ω) : Atomic α ι ρ → Move ι ρ ω → Atomic α ι ρ → Prop where
  | invoke {a t} (i : ι) : a.clients t = .idle → Step o a (.invoke t i) (a.goto t (.pending i))
  | effect {a t i v r} : a.clients t = .pending i → o.apply a.value i v r →
      Step o a (.effect t i r) (Atomic.goto {a with value := v} t (.answered r))
  | respond {a t r} : a.clients t = .answered r → Step o a (.respond t r) (a.goto t .idle)
  | change {a e v} : o.change a.value e v → Step o a (.change e) {a with value := v}

inductive Steps (o : Object α ι ρ ω) : Atomic α ι ρ → List (Move ι ρ ω) → Atomic α ι ρ → Prop where
  | nil {a} : Steps o a [] a
  | cons {a m b moves c} : Step o a m b → Steps o b moves c → Steps o a (m::moves) c

variable {o : Object α ι ρ ω}

@[simp] theorem gotoValue (a : Atomic α ι ρ) (t : Nat) (c : Client ι ρ) :
    (a.goto t c).value = a.value := rfl

@[simp] theorem gotoClient (a : Atomic α ι ρ) (t : Nat) (c : Client ι ρ) :
    (a.goto t c).clients t = c := Function.update_self ..

theorem gotoOther (a : Atomic α ι ρ) {t u : Nat} (apart : u ≠ t) (c : Client ι ρ) :
    (a.goto t c).clients u = a.clients u := Function.update_of_ne apart ..

theorem gotoAgain (a : Atomic α ι ρ) (t : Nat) (c d : Client ι ρ) :
    (a.goto t c).goto t d = a.goto t d := by
  simp only [Atomic.goto,Function.update_idem]

theorem stepsOne {a b : Atomic α ι ρ} {m} (moved : Step o a m b) : Steps o a [m] b :=
  .cons moved .nil

theorem stepsAppend {a b c : Atomic α ι ρ} {early late} (first : Steps o a early b)
    (second : Steps o b late c) : Steps o a (early ++ late) c := by
  induction first with
  | nil => exact second
  | cons moved _ ih => exact .cons moved (ih second)

theorem stepsSequential {a b : Atomic α ι ρ} {moves} (ran : Steps o a moves b) :
    Sequential o a.value moves b.value := by
  induction ran with
  | nil => exact .nil
  | cons moved _ ih =>
    cases moved with
    | invoke i idle => exact .invoke ih
    | effect pending applied => exact .effect applied ih
    | respond answered => exact .respond ih
    | change changed => exact .change changed ih

theorem stepsAlternate {a b : Atomic α ι ρ} {moves} (ran : Steps o a moves b) (t : Nat) :
    Alternates t (a.clients t) moves := by
  induction ran with
  | nil => trivial
  | @cons a m b moves c moved _ ih =>
    cases moved with
    | @invoke u i idle =>
      by_cases same : u = t
      · subst same
        rw [gotoClient] at ih
        simpa only [Alternates,if_true] using ⟨idle,ih⟩
      · rw [gotoOther a (Ne.symm same)] at ih
        simpa only [Alternates,same,if_false] using ih
    | @effect u i v r pending applied =>
      by_cases same : u = t
      · subst same
        rw [gotoClient] at ih
        simpa only [Alternates,if_true] using ⟨pending,ih⟩
      · rw [gotoOther _ (Ne.symm same)] at ih
        simpa only [Alternates,same,if_false] using ih
    | @respond u r answered =>
      by_cases same : u = t
      · subst same
        rw [gotoClient] at ih
        simpa only [Alternates,if_true] using ⟨answered,ih⟩
      · rw [gotoOther a (Ne.symm same)] at ih
        simpa only [Alternates,same,if_false] using ih
    | change changed => exact ih

theorem stepsAnswer {a : Atomic α ι ρ} {t i v r} (pending : a.clients t = .pending i)
    (applied : o.apply a.value i v r) :
    Steps o a [.effect t i r,.respond t r] (Atomic.goto {a with value := v} t .idle) := by
  have closes : Step o (Atomic.goto {a with value := v} t (.answered r)) (.respond t r)
      ((Atomic.goto {a with value := v} t (.answered r)).goto t .idle) := .respond (gotoClient ..)
  rw [gotoAgain] at closes
  exact .cons (.effect pending applied) (stepsOne closes)

/- The simulation rule: each step of the system is some moves of the object, of
which exactly the visible ones are seen. -/
section simulation
variable {σ ε : Type} {S : System σ ε} {watch : σ → ε → σ → List (Move ι ρ ω)} {start : σ → α}
  {related : σ → Atomic α ι ρ → Prop}

theorem simulatedRun (step : ∀ s e t a, related s a → S.step s e t →
      ∃ moves b, Steps o a moves b ∧ moves.filter Move.visible = watch s e t ∧ related t b)
    {s a history t} (same : related s a) (traced : Traces S watch s history t) :
    ∃ moves b, Steps o a moves b ∧ moves.filter Move.visible = history ∧ related t b := by
  induction traced with
  | nil => exact ⟨[],a,.nil,rfl,same⟩
  | step _ moved ih =>
    obtain ⟨early,b,first,seen,between⟩ := ih
    obtain ⟨late,c,second,shown,after⟩ := step _ _ _ _ between moved
    refine ⟨early ++ late,c,stepsAppend first second,?_,after⟩
    rw [List.filter_append,seen,shown]

theorem simulated (base : ∀ s, S.init s → related s ⟨start s,fun _ => .idle⟩)
    (step : ∀ s e t a, related s a → S.step s e t →
      ∃ moves b, Steps o a moves b ∧ moves.filter Move.visible = watch s e t ∧ related t b) :
    Implements S watch o start := by
  intro s history t begins traced
  obtain ⟨moves,b,steps,seen,_⟩ := simulatedRun step (base s begins) traced
  exact ⟨moves,seen,stepsAlternate steps,b.value,stepsSequential steps⟩

end simulation

/- When no client waits any more, the responses are the results of the effects, up
to their order. -/
def Move.outcome : Move ι ρ ω → Option ρ
  | .effect _ _ r => some r
  | _ => none

def Move.response : Move ι ρ ω → Option ρ
  | .respond _ r => some r
  | _ => none

def outcomes (moves : List (Move ι ρ ω)) : List ρ := moves.filterMap Move.outcome

def responses (moves : List (Move ι ρ ω)) : List ρ := moves.filterMap Move.response

theorem responsesVisible (moves : List (Move ι ρ ω)) :
    responses (moves.filter Move.visible) = responses moves := by
  rw [responses,List.filterMap_filter]
  congr 1
  funext m
  cases m <;> rfl

structure Owed (clients : Nat → Client ι ρ) (owed : List (Nat × ρ)) : Prop where
  once : owed.Nodup
  each : ∀ t r, (t,r) ∈ owed ↔ clients t = .answered r

theorem owedOther {a : Atomic α ι ρ} {owed t c} (held : Owed a.clients owed)
    (before : ∀ r, a.clients t ≠ .answered r) (after : ∀ r, c ≠ .answered r) :
    Owed (a.goto t c).clients owed where
  once := held.once
  each := by
    intro u r
    by_cases same : u = t
    · subst same
      rw [gotoClient]
      exact iff_of_false (fun mem => before r ((held.each u r).mp mem)) (after r)
    · rw [gotoOther a same]
      exact held.each u r

theorem owedEffect {a : Atomic α ι ρ} {owed t r} (held : Owed a.clients owed)
    (before : ∀ r, a.clients t ≠ .answered r) :
    Owed (a.goto t (.answered r)).clients ((t,r)::owed) where
  once := List.nodup_cons.mpr ⟨fun mem => before r ((held.each t r).mp mem),held.once⟩
  each := by
    intro u q
    rw [List.mem_cons,Prod.mk.injEq]
    by_cases same : u = t
    · subst same
      rw [gotoClient,Client.answered.injEq]
      constructor
      · intro mem
        rcases mem with ⟨_,same⟩ | old
        · exact same.symm
        · exact absurd ((held.each u q).mp old) (before q)
      · intro same
        exact .inl ⟨rfl,same.symm⟩
    · rw [gotoOther a same,← held.each u q]
      exact or_iff_right fun here => same here.1

theorem owedRespond {a : Atomic α ι ρ} {early late t r}
    (held : Owed a.clients (early ++ (t,r)::late)) :
    Owed (a.goto t .idle).clients (early ++ late) where
  once := (List.perm_middle.nodup_iff.mp held.once).of_cons
  each := by
    intro u q
    have split : (u,q) ∈ early ++ (t,r)::late ↔ (u,q) = (t,r) ∨ (u,q) ∈ early ++ late := by
      simp only [List.mem_append,List.mem_cons]
      exact or_left_comm
    have each := held.each u q
    rw [split] at each
    by_cases same : u = t
    · subst same
      rw [gotoClient]
      refine iff_of_false (fun mem => ?_) nofun
      have answer := each.mp (.inr mem)
      rw [(held.each u r).mp (by simp)] at answer
      cases answer
      exact (List.nodup_cons.mp (List.perm_middle.nodup_iff.mp held.once)).1 mem
    · rw [gotoOther a same,← each]
      exact (or_iff_right fun here => same (congrArg Prod.fst here)).symm

theorem stepsOwed {a b : Atomic α ι ρ} {moves} (ran : Steps o a moves b) :
    ∀ owed, Owed a.clients owed → ∃ left, Owed b.clients left ∧
      (owed.map Prod.snd ++ outcomes moves).Perm (responses moves ++ left.map Prod.snd) := by
  induction ran with
  | nil => exact fun owed held => ⟨owed,held,by simp [outcomes,responses]⟩
  | cons moved _ ih =>
    intro owed held
    cases moved with
    | invoke i idle =>
      exact ih owed (owedOther held (by simp [idle]) nofun)
    | @effect t i v r pending applied =>
      obtain ⟨left,last,same⟩ := ih _ (owedEffect held (t := t) (r := r) (by simp [pending]))
      exact ⟨left,last,List.perm_middle.trans same⟩
    | @respond t r answered =>
      obtain ⟨early,late,rfl⟩ := List.append_of_mem ((held.each t r).mpr answered)
      obtain ⟨left,last,same⟩ := ih _ (owedRespond held)
      refine ⟨left,last,?_⟩
      rw [List.map_append,List.map_cons,List.append_assoc,List.cons_append]
      rw [List.map_append,List.append_assoc] at same
      exact List.perm_middle.trans (same.cons r)
    | change changed => exact ih owed held

theorem settledPerm {start : α} {moves} {b : Atomic α ι ρ}
    (ran : Steps o ⟨start,fun _ => .idle⟩ moves b) (settled : ∀ t, b.clients t = .idle) :
    (outcomes moves).Perm (responses moves) := by
  obtain ⟨left,last,same⟩ := stepsOwed ran [] ⟨List.nodup_nil,by simp⟩
  have none : left = [] := by
    refine List.eq_nil_iff_forall_not_mem.mpr fun (t,r) mem => ?_
    have answer := (last.each t r).mp mem
    rw [settled t] at answer
    contradiction
  subst none
  simpa using same

end UdpBalancer.Linearizable
