import Mathlib.Data.List.Basic

/-! A cache rebuilt only when a lookup meets an unusable value. The cache in
place is the one built for an earlier view, its snapshot; a change of the view
alone never rebuilds it. Views, keys and values are arbitrary. -/
namespace UdpBalancer.LazyCache

structure Build (V : Type u) (K : Type v) (X : Type w) where
  entry : V → K → Option X
  usable : V → X → Bool

@[ext]
structure State (V : Type u) where
  view : V
  snapshot : V

variable {V : Type u} {K : Type v} {X : Type w}

def rebuilt (s : State V) : State V := {s with snapshot := s.view}

def lookup (b : Build V K X) (s : State V) (k : K) : State V × Option X :=
  match b.entry s.snapshot k with
  | none => (s,none)
  | some x =>
    if b.usable s.view x then (s,some x) else
      match b.entry s.view k with
      | none => (rebuilt s,none)
      | some y => (rebuilt s,if b.usable s.view y then some y else none)

inductive Event (V : Type u) (K : Type v) where
  | change (view : V)
  | lookup (k : K)

def step (b : Build V K X) (s : State V) : Event V K → State V
  | .change view => {s with view := view}
  | .lookup k => (lookup b s k).1

def run (b : Build V K X) (s : State V) (events : List (Event V K)) : State V :=
  events.foldl (step b) s

def lookups (b : Build V K X) (s : State V) (keys : List K) : State V :=
  keys.foldl (fun state k => (lookup b state k).1) s

def Live (b : Build V K X) (v : V) : Prop := ∃ x, b.usable v x = true

/- A fresh cache names only usable values, and names one for every key as soon
as there is one. -/
structure Lawful (b : Build V K X) : Prop where
  fresh : ∀ {v k x}, b.entry v k = some x → b.usable v x = true
  total : ∀ {v} k, Live b v → ∃ x, b.entry v k = some x

def Stale (b : Build V K X) (s : State V) (k : K) : Prop :=
  ∃ x, b.entry s.snapshot k = some x ∧ b.usable s.view x = false

variable {b : Build V K X}

theorem entryDead (lawful : Lawful b) {v} (dead : ¬ Live b v) (k : K) : b.entry v k = none := by
  cases h : b.entry v k with
  | none => rfl
  | some x => exact absurd ⟨x,lawful.fresh h⟩ dead

theorem lookupKept {s k} (calm : ¬ Stale b s k) :
    lookup b s k = (s,b.entry s.snapshot k) := by
  unfold lookup
  cases h : b.entry s.snapshot k with
  | none => rfl
  | some x =>
    cases usable : b.usable s.view x with
    | false => exact absurd ⟨x,h,usable⟩ calm
    | true => simp only [usable,if_true]

theorem lookupStale (lawful : Lawful b) {s k} (stale : Stale b s k) :
    lookup b s k = (rebuilt s,b.entry s.view k) := by
  obtain ⟨x,h,unusable⟩ := stale
  simp only [lookup,h,unusable,Bool.false_eq_true,if_false]
  cases after : b.entry s.view k with
  | none => rfl
  | some y => simp only [lawful.fresh after,if_true]

theorem rebuiltCalm (lawful : Lawful b) (s : State V) (k : K) : ¬ Stale b (rebuilt s) k := by
  intro ⟨x,h,unusable⟩
  have usable : b.usable (rebuilt s).view x = true := lawful.fresh h
  rw [usable] at unusable
  contradiction

/- Availability. A lookup in a view without usable values empties the cache for
good; apart from that the cache keeps serving. -/
def Attended (b : Build V K X) : V → List (Event V K) → Prop
  | _,[] => True
  | _,.change view::rest => Attended b view rest
  | view,.lookup _::rest => Live b view ∧ Attended b view rest

theorem lookupLive (lawful : Lawful b) (s : State V) (k : K) :
    Live b (lookup b s k).1.snapshot ↔ Live b s.snapshot ∧ Live b s.view ∨
      Live b s.snapshot ∧ ¬ Stale b s k := by
  by_cases stale : Stale b s k
  · have live : Live b s.snapshot := by
      obtain ⟨x,h,_⟩ := stale
      exact ⟨x,lawful.fresh h⟩
    simp only [lookupStale lawful stale,rebuilt,stale,not_true_eq_false,and_false,or_false,live,true_and]
  · simp only [lookupKept stale,stale,not_false_eq_true,and_true]
    tauto

theorem deadLookupStale (lawful : Lawful b) {s : State V} (live : Live b s.snapshot) (dead : ¬ Live b s.view)
    (k : K) : Stale b s k := by
  obtain ⟨x,h⟩ := lawful.total k live
  refine ⟨x,h,?_⟩
  cases usable : b.usable s.view x with
  | false => rfl
  | true => exact absurd ⟨x,usable⟩ dead

theorem lookupView (lawful : Lawful b) (s : State V) (k : K) : (lookup b s k).1.view = s.view := by
  by_cases stale : Stale b s k
  · rw [lookupStale lawful stale]; rfl
  · rw [lookupKept stale]

theorem runLive (lawful : Lawful b) (s : State V) (events : List (Event V K)) :
    Live b (run b s events).snapshot ↔ Live b s.snapshot ∧ Attended b s.view events := by
  induction events generalizing s with
  | nil => simp [run,Attended]
  | cons event rest ih =>
    change Live b (run b (step b s event) rest).snapshot ↔ _
    rw [ih]
    cases event with
    | change view => rfl
    | lookup k =>
      simp only [step,Attended,lookupView lawful,lookupLive lawful]
      have forced : Live b s.snapshot → ¬ Live b s.view → Stale b s k :=
        fun live dead => deadLookupStale lawful live dead k
      tauto

theorem lookupServes (lawful : Lawful b) {s} (cached : Live b s.snapshot) (live : Live b s.view)
    (k : K) : ∃ x, (lookup b s k).2 = some x ∧ b.usable s.view x = true := by
  by_cases stale : Stale b s k
  · obtain ⟨x,h⟩ := lawful.total k live
    rw [lookupStale lawful stale]
    exact ⟨x,h,lawful.fresh h⟩
  · obtain ⟨x,h⟩ := lawful.total k cached
    rw [lookupKept stale]
    refine ⟨x,h,?_⟩
    cases usable : b.usable s.view x with
    | false => exact absurd ⟨x,h,usable⟩ stale
    | true => rfl

theorem lookupEmpty (lawful : Lawful b) {s} (empty : ¬ Live b s.snapshot) (k : K) :
    lookup b s k = (s,none) := by
  simp only [lookup,entryDead lawful empty k]

def Calm (b : Build V K X) : State V → List (Event V K) → Prop
  | _,[] => True
  | s,event::rest => (∀ k, event = .lookup k → ¬ Stale b s k) ∧ Calm b (step b s event) rest

theorem runCalm {s : State V} {events : List (Event V K)} (calm : Calm b s events) :
    (run b s events).snapshot = s.snapshot := by
  induction events generalizing s with
  | nil => rfl
  | cons event rest ih =>
    change (run b (step b s event) rest).snapshot = _
    rw [ih calm.2]
    cases event with
    | change view => rfl
    | lookup k => simp only [step,lookupKept (calm.1 k rfl)]

theorem runStale (lawful : Lawful b) {s : State V} {events : List (Event V K)}
    (disturbed : ¬ Calm b s events ∨ ∃ x, b.usable s.snapshot x = false) :
    ∃ x, b.usable (run b s events).snapshot x = false := by
  induction events generalizing s with
  | nil =>
    rcases disturbed with calm | lacking
    · exact absurd trivial calm
    · exact lacking
  | cons event rest ih =>
    apply ih
    by_cases stale : ∃ k, event = .lookup k ∧ Stale b s k
    · obtain ⟨k,rfl,stale⟩ := stale
      obtain ⟨x,held,unusable⟩ := stale
      refine .inr ⟨x,?_⟩
      simp only [step,lookupStale lawful ⟨x,held,unusable⟩,rebuilt,unusable]
    · have kept : (step b s event).snapshot = s.snapshot := by
        cases event with
        | change view => rfl
        | lookup k => simp only [step,lookupKept fun h => stale ⟨k,rfl,h⟩]
      rw [kept]
      refine disturbed.imp_left fun calm later => calm ⟨?_,later⟩
      intro k same h
      exact stale ⟨k,same,h⟩

theorem runChange (s : State V) (view : V) (rest : List (Event V K)) :
    run b s (.change view::rest) = run b ⟨view,s.snapshot⟩ rest := rfl

theorem runLookup (s : State V) (k : K) (rest : List (Event V K)) :
    run b s (.lookup k::rest) = run b (lookup b s k).1 rest := rfl

theorem runLookups (s : State V) (keys : List K) :
    run b s (keys.map .lookup) = lookups b s keys := by
  rw [run,List.foldl_map]
  rfl

/- Affinity. Between two lookups of one key in one view, other lookups matter
exactly when one of them is stale. -/
theorem lookupsState (lawful : Lawful b) (s : State V) (keys : List K) :
    lookups b s keys = s ∧ (∀ j ∈ keys, ¬ Stale b s j) ∨
      lookups b s keys = rebuilt s ∧ ∃ j ∈ keys, Stale b s j := by
  induction keys generalizing s with
  | nil => exact .inl ⟨rfl,by simp⟩
  | cons k rest ih =>
    change lookups b (lookup b s k).1 rest = s ∧ _ ∨ lookups b (lookup b s k).1 rest = _ ∧ _
    by_cases stale : Stale b s k
    · rw [lookupStale lawful stale]
      refine .inr ⟨?_,k,List.mem_cons_self,stale⟩
      rcases ih (rebuilt s) with ⟨same,_⟩ | ⟨_,j,_,again⟩
      · exact same
      · exact absurd again (rebuiltCalm lawful s j)
    · rw [lookupKept stale]
      rcases ih s with ⟨same,calm⟩ | ⟨same,j,mem,later⟩
      · refine .inl ⟨same,fun j mem => ?_⟩
        rcases List.mem_cons.mp mem with rfl | tail
        · exact stale
        · exact calm j tail
      · exact .inr ⟨same,j,List.mem_cons_of_mem k mem,later⟩

theorem lookupAgain (lawful : Lawful b) {s : State V} {k : K} {x : X} (keys : List K)
    (first : (lookup b s k).2 = some x) :
    (lookup b (lookups b (lookup b s k).1 keys) k).2 = some x ↔
      (∀ j ∈ keys, ¬ Stale b s j) ∨ b.entry s.view k = some x := by
  by_cases stale : Stale b s k
  · rw [lookupStale lawful stale] at first ⊢
    have settled : lookups b (rebuilt s) keys = rebuilt s := by
      rcases lookupsState lawful (rebuilt s) keys with ⟨same,_⟩ | ⟨_,j,_,again⟩
      · exact same
      · exact absurd again (rebuiltCalm lawful s j)
    rw [settled,lookupKept (rebuiltCalm lawful s k)]
    exact ⟨fun h => .inr h,fun _ => first⟩
  · rw [lookupKept stale] at first ⊢
    rcases lookupsState lawful s keys with ⟨same,calm⟩ | ⟨same,j,mem,later⟩
    · rw [same,lookupKept stale]
      exact ⟨fun _ => .inl calm,fun _ => first⟩
    · rw [same,lookupKept (rebuiltCalm lawful s k)]
      exact ⟨fun h => .inr h,fun h => h.resolve_left fun calm => calm j mem later⟩

end UdpBalancer.LazyCache
