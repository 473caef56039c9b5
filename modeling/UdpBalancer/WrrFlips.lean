import UdpBalancer.WrrFairness

/-! `WeightedRoundRobin::next` step by step: any number of calls share the counter,
the mutex and the alive flags, and a health check may flip a flag between any two
steps. A call reads every flag once before it asks for the mutex and once more in
each turn of its loop. -/
namespace UdpBalancer.WrrFlips
open Backends Wrr WrrScan

variable {pool : Pool} {w : Wheel}

/- Where a call stands. `found` are the indices its snapshot has found alive,
`rest` those it still has to look at. -/
inductive Pc (pool : Pool) where
  | idle
  | collecting (rest found : List pool.Index)
  | waiting (nonempty : 0 < pool.backends.length)
  | scanning (nonempty : 0 < pool.backends.length)
  | returned (r : Option pool.Index)

structure World (pool : Pool) where
  alive : Alive pool
  state : State
  lock : Option Nat
  calls : Nat → Pc pool

def decided : List pool.Index → Pc pool
  | [] => .returned none
  | [only] => .returned (some only)
  | first::_::_ => .waiting first.pos

def goto (x : World pool) (t : Nat) (pc : Pc pool) : World pool :=
  {x with calls := Function.update x.calls t pc}

/- One step of call `t`. A turn of the loop reads one flag, at its end, so that a
flip inside a turn is one before it. -/
def callStep (w : Wheel) (t : Nat) (x : World pool) : World pool :=
  match x.calls t with
  | .idle => x
  | .collecting [] found => goto x t (decided found)
  | .collecting (i::rest) found =>
      goto x t (.collecting rest (if x.alive i then found ++ [i] else found))
  | .waiting nonempty =>
      if x.lock = none then goto {x with lock := some t} t (.scanning nonempty) else x
  | .scanning nonempty =>
      match scanStep nonempty w x.alive x.state with
      | .more s => {x with state := s}
      | .done (s,r) => goto {x with state := s,lock := none} t (.returned r)
  | .returned _ => x

def start (pool : Pool) : Pc pool :=
  if pool.backends.isEmpty then .returned none else .collecting (List.finRange _) []

inductive Label (pool : Pool) where
  | flip (i : pool.Index) (flag : Bool)
  | begin (t : Nat)
  | step (t : Nat)

def Resting : Pc pool → Prop
  | .idle => True
  | .returned _ => True
  | _ => False

instance : DecidablePred (@Resting pool) := fun pc =>
  match pc with
  | .idle => .isTrue trivial
  | .returned _ => .isTrue trivial
  | .collecting _ _ => .isFalse id
  | .waiting _ => .isFalse id
  | .scanning _ => .isFalse id

inductive Step (w : Wheel) : World pool → Label pool → World pool → Prop where
  | flip {x} (i : pool.Index) (flag : Bool) :
      Step w x (.flip i flag) {x with alive := setAlive x.alive i flag}
  | begin {x} (t : Nat) (resting : Resting (x.calls t)) :
      Step w x (.begin t) (goto x t (start pool))
  | step {x} (t : Nat) : Step w x (.step t) (callStep w t x)

def system (pool : Pool) (w : Wheel) : Transition.System (World pool) (Label pool) where
  init x := x.state = ⟨0,0⟩ ∧ x.lock = none ∧ ∀ t, x.calls t = .idle
  step := Step w

def after (w : Wheel) (x : World pool) : Label pool → Option (World pool)
  | .flip i flag => some {x with alive := setAlive x.alive i flag}
  | .begin t => if Resting (x.calls t) then some (goto x t (start pool)) else none
  | .step t => some (callStep w t x)

theorem afterStep (w : Wheel) (x : World pool) (label : Label pool) (y : World pool)
    (moved : after w x label = some y) : (system pool w).step x label y := by
  cases label with
  | flip i flag => exact Option.some.inj moved ▸ .flip i flag
  | begin t =>
    obtain ⟨resting,same⟩ := Option.ite_none_right_eq_some.mp moved
    exact Option.some.inj same ▸ .begin t resting
  | step t => exact Option.some.inj moved ▸ .step t

def solo (w : Wheel) (t : Nat) (x : World pool) : Loop.Turn (World pool) (Option pool.Index) :=
  match x.calls t with
  | .returned r => .done r
  | _ => .more (callStep w t x)

def Finishes (w : Wheel) (t : Nat) (x : World pool) : Prop :=
  ∃ r, Loop.Returns (solo w t) x r

def Free (t : Nat) (x : World pool) : Prop :=
  x.lock = none ∨ ∃ nonempty, x.calls t = .scanning nonempty

def Scans (t : Nat) (x : World pool) : Prop :=
  match x.calls t with
  | .collecting rest found => 2 ≤ (found ++ rest.filter x.alive).length
  | .waiting _ => True
  | .scanning _ => True
  | _ => False

theorem scanKeepsLaw (fits : w.Fits pool) (nonempty : 0 < pool.backends.length)
    (alive : Alive pool) (T : Nat) :
    scanStep nonempty w alive (stateAt pool w T) = .more (stateAt pool w (T+1)) ∨
    scanStep nonempty w alive (stateAt pool w T) =
      .done (stateAt pool w (T+1),some (place nonempty T)) := by
  obtain ⟨found,missed⟩ := scanSearches fits nonempty alive T
  by_cases hit : Hit w alive T
  · exact .inr (found hit)
  · exact .inl (missed hit)

theorem callLaw (fits : w.Fits pool) (t : Nat) {x : World pool}
    (law : x.state = stateAt pool w x.state.current) :
    (callStep w t x).state = stateAt pool w (callStep w t x).state.current := by
  unfold callStep
  split
  · exact law
  · exact law
  · exact law
  · split
    · exact law
    · exact law
  · rename_i nonempty _
    rcases scanKeepsLaw fits nonempty x.alive x.state.current with more | done
    · rw [← law] at more
      simp only [more,stateCurrent]
    · rw [← law] at done
      simp only [done,goto,stateCurrent]
  · exact law

theorem flipsLaw (fits : w.Fits pool) {x : World pool}
    (reach : Transition.Reachable (system pool w) x) :
    x.state = stateAt pool w x.state.current := by
  refine Transition.invariant (fun x : World pool => x.state = stateAt pool w x.state.current)
    ?_ ?_ reach
  · intro x begins
    have zero : x.state = ⟨0,0⟩ := begins.1
    rw [zero]
    rfl
  · intro x label y law moved
    cases moved with
    | flip i flag => exact law
    | begin t resting => exact law
    | step t => exact callLaw fits t law

theorem soloDone {t : Nat} {x : World pool} {r} (pc : x.calls t = .returned r) :
    solo w t x = .done r := by
  simp only [solo,pc]

theorem gotoCall (x : World pool) (t : Nat) (pc : Pc pool) : (goto x t pc).calls t = pc :=
  Function.update_self ..

theorem callOther (x : World pool) {t u : Nat} (apart : u ≠ t) (pc : Pc pool) :
    (goto x t pc).calls u = x.calls u := Function.update_of_ne apart ..

theorem stepOther (x : World pool) {t u : Nat} (apart : u ≠ t) :
    (callStep w t x).calls u = x.calls u := by
  unfold callStep
  split
  · rfl
  · exact callOther x apart _
  · exact callOther x apart _
  · split
    · exact callOther _ apart _
    · rfl
  · split
    · rfl
    · exact callOther _ apart _
  · rfl

theorem stepAlive (x : World pool) (t : Nat) : (callStep w t x).alive = x.alive := by
  unfold callStep
  split
  · rfl
  · rfl
  · rfl
  · split <;> rfl
  · split <;> rfl
  · rfl

theorem gotoAgain (x : World pool) (t : Nat) (a b : Pc pool) : goto (goto x t a) t b = goto x t b := by
  simp only [goto,Function.update_idem]

theorem returnedReturns {t : Nat} {x : World pool} {q r} (pc : x.calls t = .returned q) :
    Loop.Returns (solo w t) x r ↔ r = q := by
  have here := Loop.returnsDone (soloDone (w := w) pc)
  exact ⟨fun other => Loop.returnsUnique other here,fun same => same ▸ here⟩

theorem scanGoes {t : Nat} {x : World pool} {nonempty} (pc : x.calls t = .scanning nonempty)
    {s} (more : scanStep nonempty w x.alive x.state = .more s) :
    solo w t x = .more {x with state := s} := by
  simp only [solo,callStep,pc,more]

theorem scanLeaves {t : Nat} {x : World pool} {nonempty} (pc : x.calls t = .scanning nonempty)
    {s q} (done : scanStep nonempty w x.alive x.state = .done (s,q)) {r} :
    Loop.Returns (solo w t) x r ↔ r = q := by
  have goes : solo w t x = .more (goto {x with state := s,lock := none} t (.returned q)) := by
    simp only [solo,callStep,pc,done]
  rw [Loop.returnsMore goes]
  exact returnedReturns (gotoCall ..)

theorem scanReturns {t : Nat} {x : World pool} {nonempty} (pc : x.calls t = .scanning nonempty)
    {r} : Loop.Returns (solo w t) x r ↔
      ∃ s, Loop.Returns (scanStep nonempty w x.alive) x.state (s,r) := by
  constructor
  · intro ⟨fuel,ok⟩
    induction fuel generalizing x with
    | zero => contradiction
    | succ fuel ih =>
      cases turn : scanStep nonempty w x.alive x.state with
      | done out =>
        have same := (scanLeaves pc turn).mp ⟨_,ok⟩
        exact ⟨out.1,same ▸ Loop.returnsDone turn⟩
      | more s =>
        rw [Loop.runMore (scanGoes pc turn)] at ok
        obtain ⟨last,returned⟩ := ih (x := {x with state := s}) pc ok
        exact ⟨last,(Loop.returnsMore turn).mpr returned⟩
  · intro ⟨last,fuel,ok⟩
    induction fuel generalizing x with
    | zero => contradiction
    | succ fuel ih =>
      cases turn : scanStep nonempty w x.alive x.state with
      | done out =>
        rw [Loop.runDone turn] at ok
        cases ok
        exact (scanLeaves pc turn).mpr rfl
      | more s =>
        rw [Loop.runMore turn] at ok
        exact (Loop.returnsMore (scanGoes pc turn)).mpr (ih (x := {x with state := s}) pc ok)

theorem waitingReturns {t : Nat} {x : World pool} (free : x.lock = none) {nonempty}
    (pc : x.calls t = .waiting nonempty) {r} : Loop.Returns (solo w t) x r ↔
      ∃ s, Loop.Returns (scanStep nonempty w x.alive) x.state (s,r) := by
  have goes : solo w t x = .more (goto {x with lock := some t} t (.scanning nonempty)) := by
    simp only [solo,callStep,pc,free,if_true]
  rw [Loop.returnsMore goes]
  exact scanReturns (x := goto {x with lock := some t} t (.scanning nonempty)) (gotoCall ..)

theorem collectReturns {t : Nat} {x : World pool} {rest found : List pool.Index}
    (pc : x.calls t = .collecting rest found) {r} : Loop.Returns (solo w t) x r ↔
      Loop.Returns (solo w t) (goto x t (decided (found ++ rest.filter x.alive))) r := by
  induction rest generalizing x found with
  | nil =>
    have goes : solo w t x = .more (goto x t (decided found)) := by
      simp only [solo,callStep,pc]
    rw [Loop.returnsMore goes,List.filter_nil,List.append_nil]
  | cons i rest ih =>
    have goes : solo w t x =
        .more (goto x t (.collecting rest (if x.alive i then found ++ [i] else found))) := by
      simp only [solo,callStep,pc]
    rw [Loop.returnsMore goes,ih (gotoCall ..),gotoAgain]
    cases up : x.alive i with
    | true => simp only [goto,if_true,List.filter_cons,up,List.append_assoc,List.singleton_append]
    | false => simp only [goto,Bool.false_eq_true,if_false,List.filter_cons,up]

theorem soloIsNext {t : Nat} {x : World pool} (pc : x.calls t = start pool)
    (free : x.lock = none) {r} : Loop.Returns (solo w t) x r ↔
      ∃ s, Wrr.Returns w x.alive x.state (s,r) := by
  have answered : ∀ q, (∀ fuel, next w x.alive fuel x.state = some (x.state,q)) →
      (r = q ↔ ∃ s, Wrr.Returns w x.alive x.state (s,r)) := by
    intro q always
    constructor
    · intro same
      exact ⟨x.state,0,same ▸ always 0⟩
    · intro returns
      obtain ⟨s,fuel,ok⟩ := returns
      cases ok.symm.trans (always fuel)
      rfl
  unfold start at pc
  split at pc
  · rename_i empty
    have none : ¬ 0 < pool.backends.length := by
      rw [List.isEmpty_iff.mp empty]
      exact Nat.lt_irrefl 0
    rw [returnedReturns pc]
    exact answered _ fun fuel => by simp only [next,none,dite_false]
  · rw [collectReturns pc,List.nil_append]
    cases h : aliveIndices x.alive with
    | nil =>
      rw [show (List.finRange _).filter x.alive = [] from h,
        returnedReturns (gotoCall x t (decided []))]
      exact answered _ fun fuel => nextNone h fuel x.state
    | cons first rest =>
      cases rest with
      | nil =>
        rw [show (List.finRange _).filter x.alive = [first] from h,
          returnedReturns (gotoCall x t (decided [first]))]
        exact answered _ fun fuel => nextOne h fuel x.state
      | cons second rest =>
        rw [show (List.finRange _).filter x.alive = first::second::rest from h,waitingReturns
          (x := goto x t (decided (first::second::rest))) free (gotoCall ..)]
        have many : 2 ≤ (aliveIndices x.alive).length := by
          rw [h]
          exact Nat.le_add_left 2 _
        simp only [Wrr.Returns,nextMany many first.pos]
        exact Iff.rfl

theorem scanServed (fits : w.Fits pool) (nonempty : 0 < pool.backends.length) {alive : Alive pool}
    {s : State} (law : s = stateAt pool w s.current) :
    (∃ out, Loop.Returns (scanStep nonempty w alive) s out) ↔ Served w alive := by
  rw [law]
  simp only [Loop.searchReturns (scanSearches fits nonempty alive)]
  constructor
  · intro answered
    obtain ⟨_,k,first,_⟩ := answered
    exact hitServed fits first.2.1
  · intro served
    obtain ⟨k,le,hit⟩ := servedHit fits served s.current
    obtain ⟨first,found,_⟩ := Loop.firstFromExists le hit
    exact ⟨_,first,found,rfl⟩

theorem finishesServed (fits : w.Fits pool) {t : Nat} {x : World pool}
    (law : x.state = stateAt pool w x.state.current) (nonempty : 0 < pool.backends.length)
    (loops : ∀ r, Loop.Returns (solo w t) x r ↔
      ∃ s, Loop.Returns (scanStep nonempty w x.alive) x.state (s,r)) :
    Finishes w t x ↔ Served w x.alive := by
  rw [← scanServed fits nonempty law]
  unfold Finishes
  simp only [loops]
  constructor
  · intro finishes
    obtain ⟨r,s,returned⟩ := finishes
    exact ⟨(s,r),returned⟩
  · intro answered
    obtain ⟨out,returned⟩ := answered
    exact ⟨out.2,out.1,returned⟩

theorem decidedFinishes (fits : w.Fits pool) {t : Nat} {x : World pool}
    (law : x.state = stateAt pool w x.state.current) (free : x.lock = none)
    (found : List pool.Index) :
    Finishes w t (goto x t (decided found)) ↔ ¬ 2 ≤ found.length ∨ Served w x.alive := by
  match found with
  | [] => exact iff_of_true ⟨_,(returnedReturns (gotoCall ..)).mpr rfl⟩ (.inl (by simp))
  | [only] => exact iff_of_true ⟨_,(returnedReturns (gotoCall ..)).mpr rfl⟩ (.inl (by simp))
  | first::second::rest =>
    have many : 2 ≤ (first::second::rest).length := Nat.le_add_left 2 _
    rw [or_iff_right (not_not.mpr many)]
    exact finishesServed (x := goto x t (.waiting first.pos)) fits law first.pos
      fun r => waitingReturns (x := goto x t (.waiting first.pos)) free (gotoCall ..)

theorem finishesExactly (fits : w.Fits pool) {t : Nat} {x : World pool}
    (law : x.state = stateAt pool w x.state.current) (free : Free t x)
    (called : x.calls t ≠ .idle) : Finishes w t x ↔ ¬ Scans t x ∨ Served w x.alive := by
  have unlocked : (∀ nonempty, x.calls t ≠ .scanning nonempty) → x.lock = none :=
    fun apart => free.resolve_right fun ⟨nonempty,pc⟩ => apart nonempty pc
  cases pc : x.calls t with
  | idle => exact absurd pc called
  | collecting rest found =>
    have unheld := unlocked fun nonempty scanning => by rw [pc] at scanning; contradiction
    have same : Finishes w t x ↔
        Finishes w t (goto x t (decided (found ++ rest.filter x.alive))) := by
      simp only [Finishes,collectReturns pc]
    rw [same,decidedFinishes fits law unheld]
    simp only [Scans,pc]
  | waiting nonempty =>
    have unheld := unlocked fun nonempty scanning => by rw [pc] at scanning; contradiction
    rw [finishesServed fits law nonempty fun r => waitingReturns unheld pc]
    simp only [Scans,pc,not_true,false_or]
  | scanning nonempty =>
    rw [finishesServed fits law nonempty fun r => scanReturns pc]
    simp only [Scans,pc,not_true,false_or]
  | returned r =>
    refine iff_of_true ⟨r,(returnedReturns pc).mpr rfl⟩ (.inl ?_)
    simp only [Scans,pc,not_false_eq_true]

/- On whole units of epsilon a level comes down to one share, so that an alive
backend goes unserved only with a single share and a place that every lowest pass
is cut short of. -/
theorem servedParts {shares : pool.Index → Nat} {top : Nat}
    (parts : WrrFairness.Parts w pool shares top) (alive : Alive pool) :
    Served w alive ↔ ∃ i, alive i = true ∧ (2 ≤ shares i ∨
      i.val < Rotation.tail counterPeriod pool.backends.length ∨
      ¬ Rotation.passes counterPeriod pool.backends.length ∣ top) := by
  have gcd := parts.fits.gcd
  have heavy : ∀ (k : Nat) i, k*w.gcdWeight ≤ pool.weight i ↔ k ≤ shares i := by
    intro k i
    rw [parts.share i,mul_le_mul_iff_left₀ gcd]
    exact Nat.cast_le
  have lowest : ∀ i : pool.Index, Rotation.bottom w.maxWeight w.gcdWeight = w.gcdWeight := by
    intro i
    have some := WrrFairness.topPos parts i
    rw [Rotation.bottom,WrrFairness.stepsTop parts,parts.most,Nat.cast_sub some]
    push_cast
    ring
  have share : ∀ i, 1 ≤ shares i := by
    intro i
    have positive := weightPositive pool i
    rw [parts.share i] at positive
    exact_mod_cast (pos_iff_pos_of_mul_pos positive).mpr gcd
  have each : ∀ i : pool.Index, Rotation.Reached counterPeriod pool.backends.length w.maxWeight
      w.gcdWeight i (pool.weight i) ↔ 2 ≤ shares i ∨
        i.val < Rotation.tail counterPeriod pool.backends.length ∨
        ¬ Rotation.passes counterPeriod pool.backends.length ∣ top := by
    intro i
    have one : w.gcdWeight ≤ pool.weight i := by
      have scaled := (heavy 1 i).mpr (share i)
      rwa [Nat.cast_one,one_mul] at scaled
    have two := heavy 2 i
    rw [Nat.cast_two,two_mul] at two
    unfold Rotation.Reached
    rw [lowest i,two,WrrFairness.stepsTop parts]
    simp only [one,true_and]
  unfold Served
  simp only [each]

theorem flipsExactly (pool : Pool) : ∃ w s, new pool = some (w,s) ∧
    ∀ x, Transition.Reachable (system pool w) x → ∀ t, x.calls t ≠ .idle → Free t x →
      (Finishes w t x ↔ ¬ Scans t x ∨ Served w x.alive) := by
  obtain ⟨w,ok,fits⟩ := newFits pool
  exact ⟨w,_,ok,fun x reach t called free =>
    finishesExactly fits (flipsLaw fits reach) free called⟩

section runs
variable {x : World pool} {t : Nat}

theorem collectReach {rest found : List pool.Index}
    (reach : Transition.Reachable (system pool w) (goto x t (.collecting rest found))) :
    Transition.Reachable (system pool w)
      (goto x t (decided (found ++ rest.filter x.alive))) := by
  induction rest generalizing found with
  | nil =>
    have next : callStep w t (goto x t (.collecting [] found)) = goto x t (decided found) := by
      simp only [callStep,gotoCall,gotoAgain]
    rw [List.filter_nil,List.append_nil,← next]
    exact .step reach (.step t)
  | cons i rest ih =>
    have next : callStep w t (goto x t (.collecting (i::rest) found)) =
        goto x t (.collecting rest (if x.alive i then found ++ [i] else found)) := by
      simp only [callStep,gotoCall,gotoAgain]
      rfl
    have reached : Transition.Reachable (system pool w) (goto x t (.collecting rest
        (if x.alive i then found ++ [i] else found))) := next ▸ .step reach (.step t)
    have later := ih reached
    cases up : x.alive i with
    | true =>
      simpa only [up,if_true,List.filter_cons,List.append_assoc,List.singleton_append] using later
    | false => simpa only [up,Bool.false_eq_true,if_false,List.filter_cons] using later

theorem acquireReach (free : x.lock = none) {nonempty}
    (reach : Transition.Reachable (system pool w) (goto x t (.waiting nonempty))) :
    Transition.Reachable (system pool w)
      (goto {x with lock := some t} t (.scanning nonempty)) := by
  have next : callStep w t (goto x t (.waiting nonempty)) =
      goto {x with lock := some t} t (.scanning nonempty) := by
    have unlocked : (goto x t (.waiting nonempty)).lock = none := free
    simp only [callStep,gotoCall,unlocked,if_true]
    exact gotoAgain {x with lock := some t} t _ _
  exact next ▸ .step reach (.step t)

theorem killReach (reach : Transition.Reachable (system pool w) x) (l : List pool.Index) :
    ∃ y, Transition.Reachable (system pool w) y ∧ y.calls = x.calls ∧ y.lock = x.lock ∧
      ∀ i ∈ l, y.alive i = false := by
  induction l with
  | nil => exact ⟨x,reach,rfl,rfl,fun i mem => absurd mem List.not_mem_nil⟩
  | cons i rest ih =>
    obtain ⟨y,reached,calls,lock,dead⟩ := ih
    refine ⟨_,.step reached (.flip i false),calls,lock,fun j mem => ?_⟩
    by_cases same : j = i
    · subst same
      exact Function.update_self ..
    · exact (Function.update_of_ne same _ _).trans (dead j (List.mem_of_ne_of_mem same mem))

end runs

def evenPair : Pool where
  backends := [⟨localhost 1,1⟩,⟨localhost 2,1⟩]
  positive := by simp
  addressable := by decide

theorem evenPairUnits : WrrFairness.Units evenPair fun _ => 10000 := by
  intro i
  change Fin 2 at i
  fin_cases i
  · change (1 : ℚ) = (10000 : Nat)*epsilon
    norm_num [epsilon]
  · change (1 : ℚ) = (10000 : Nat)*epsilon
    norm_num [epsilon]

def fresh (pool : Pool) : World pool := ⟨fun _ => true,⟨0,0⟩,none,fun _ => .idle⟩

theorem evenPairHangs : WrrFairness.Units evenPair (fun _ => 10000) ∧
    ∃ w s x, new evenPair = some (w,s) ∧
    Transition.Reachable (system evenPair w) x ∧ x.lock = some 0 ∧ Scans 0 x ∧
    ¬ SomeAlive x.alive ∧ ¬ Finishes w 0 x := by
  refine ⟨evenPairUnits,?_⟩
  obtain ⟨w,ok,fits⟩ := newFits evenPair
  have initial : Transition.Reachable (system evenPair w) (fresh evenPair) :=
    .init ⟨rfl,rfl,fun _ => rfl⟩
  have waits := collectReach (.step initial (.begin (x := fresh evenPair) 0 trivial))
  have scans := acquireReach (x := fresh evenPair) (t := 0) rfl waits
  obtain ⟨x,reached,calls,lock,dead⟩ := killReach scans (List.finRange _)
  obtain ⟨nonempty,pc⟩ : ∃ nonempty, x.calls 0 = .scanning nonempty :=
    ⟨Nat.two_pos,(congrFun calls 0).trans (gotoCall ..)⟩
  have none : ¬ SomeAlive x.alive := by
    intro ⟨i,up⟩
    rw [dead i (List.mem_finRange i)] at up
    contradiction
  refine ⟨w,_,x,ok,reached,lock,?_,none,fun finishes => ?_⟩
  · simp only [Scans,pc]
  · obtain ⟨i,up,_⟩ := (finishesServed fits (flipsLaw fits reached) nonempty fun r =>
      scanReturns pc).mp finishes
    exact none ⟨i,up⟩

end UdpBalancer.WrrFlips
