import Mathlib.Tactic.FinCases
import UdpBalancer.Wrr

/-! Every state that `next` leaves behind is a function of its counter alone,
and its loop is a search over counter values. From this follows exactly when a
call returns. -/
namespace UdpBalancer.WrrScan
open Backends Wrr Rotation

variable {pool : Pool} {w : Wheel}

def passAt (pool : Pool) (T : Nat) : Nat := pass counterPeriod pool.backends.length T

def levelAt (pool : Pool) (w : Wheel) (T : Nat) : ℚ :=
  level w.maxWeight w.gcdWeight (passAt pool T)

/- The state before the fetch of counter value `T`. -/
def stateAt (pool : Pool) (w : Wheel) : Nat → State
  | 0 => ⟨0,0⟩
  | T+1 => ⟨T+1,levelAt pool w T⟩

def place (nonempty : 0 < pool.backends.length) (T : Nat) : pool.Index :=
  ⟨position counterPeriod pool.backends.length T,positionLt nonempty T⟩

def Hit (w : Wheel) (alive : Alive pool) (T : Nat) : Prop :=
  ∃ i : pool.Index, i.val = position counterPeriod pool.backends.length T ∧ alive i = true ∧
    levelAt pool w T ≤ pool.weight i

@[simp] theorem stateCurrent (T : Nat) : (stateAt pool w T).current = T := by
  cases T <;> rfl

theorem periodPos : 0 < counterPeriod := Nat.succ_pos _

theorem maxPos (fits : w.Fits pool) (nonempty : 0 < pool.backends.length) : 0 < w.maxWeight :=
  (weightPositive pool ⟨0,nonempty⟩).trans_le (fits.max ⟨0,nonempty⟩)

theorem weightAt (fits : w.Fits pool) (nonempty : 0 < pool.backends.length) (T : Nat) :
    (if position counterPeriod pool.backends.length T = 0 then
      lower w.maxWeight w.gcdWeight (stateAt pool w T).currentWeight
    else (stateAt pool w T).currentWeight) = levelAt pool w T := by
  cases T with
  | zero =>
    rw [positionZero,if_pos rfl,levelAt,passAt,passZero]
    exact levelZero fits.gcd
  | succ T =>
    unfold levelAt passAt
    rw [passSucc periodPos nonempty]
    split
    · exact levelSucc (maxPos fits nonempty) fits.gcd _
    · rfl

theorem levelPos (fits : w.Fits pool) (nonempty : 0 < pool.backends.length) (T : Nat) :
    0 < levelAt pool w T :=
  Rotation.levelPos (maxPos fits nonempty) fits.gcd _

theorem scanSearches (fits : w.Fits pool) (nonempty : 0 < pool.backends.length)
    (alive : Alive pool) :
    Loop.Searches (scanStep nonempty w alive) (stateAt pool w) (Hit w alive)
      (fun T => (stateAt pool w (T+1),some (place nonempty T))) := by
  intro T
  have weight := weightAt fits nonempty T
  unfold lower at weight
  have positive : ¬ levelAt pool w T ≤ 0 := not_le.mpr (levelPos fits nonempty T)
  have hit : Hit w alive T ↔ alive (place nonempty T) = true ∧
      levelAt pool w T ≤ pool.weight (place nonempty T) := by
    constructor
    · intro found
      obtain ⟨i,here,up,low⟩ := found
      have same : i = place nonempty T := Fin.ext here
      exact same ▸ ⟨up,low⟩
    · intro found
      exact ⟨place nonempty T,rfl,found⟩
  have turn : scanStep nonempty w alive (stateAt pool w T) =
      if !alive (place nonempty T) then .more (stateAt pool w (T+1))
      else if levelAt pool w T ≤ pool.weight (place nonempty T) then
        .done (stateAt pool w (T+1),some (place nonempty T))
      else .more (stateAt pool w (T+1)) := by
    unfold scanStep
    simp only [stateCurrent]
    have here : T % counterPeriod % pool.backends.length =
      position counterPeriod pool.backends.length T := rfl
    simp only [here,weight,positive,and_false,if_false]
    rfl
  rw [hit,turn]
  constructor
  · intro found
    obtain ⟨up,low⟩ := found
    simp only [up,low,Bool.not_true,Bool.false_eq_true,if_false,if_true]
  · intro missed
    cases up : alive (place nonempty T) with
    | false => simp only [Bool.not_false,if_true]
    | true =>
      have high : ¬ levelAt pool w T ≤ pool.weight (place nonempty T) := fun low => missed ⟨up,low⟩
      simp only [Bool.not_true,Bool.false_eq_true,if_false,high]

theorem nextNone {alive : Alive pool} (dead : aliveIndices alive = []) (fuel : Nat) (s : State) :
    next w alive fuel s = some (s,none) := by
  unfold next
  split
  · simp only [dead]
  · rfl

theorem nextOne {alive : Alive pool} {only} (one : aliveIndices alive = [only]) (fuel : Nat)
    (s : State) : next w alive fuel s = some (s,some only) := by
  have nonempty : 0 < pool.backends.length := only.pos
  simp only [next,nonempty,dite_true,one]

theorem nextMany {alive : Alive pool} (many : 2 ≤ (aliveIndices alive).length)
    (nonempty : 0 < pool.backends.length) (fuel : Nat) (s : State) :
    next w alive fuel s = Loop.run (scanStep nonempty w alive) fuel s := by
  simp only [next,nonempty,dite_true]
  split
  · rename_i none
    simp [none] at many
  · rename_i one
    simp [one] at many
  · rfl

theorem returnsFirst (fits : w.Fits pool) (nonempty : 0 < pool.backends.length)
    {alive : Alive pool} (many : 2 ≤ (aliveIndices alive).length) (T : Nat)
    (out : State × Option pool.Index) : Returns w alive (stateAt pool w T) out ↔
      ∃ k, Loop.FirstFrom (Hit w alive) T k ∧
        out = (stateAt pool w (k+1),some (place nonempty k)) := by
  unfold Returns
  simp only [nextMany many nonempty]
  exact Loop.searchReturns (scanSearches fits nonempty alive)

theorem someIndex {alive : Alive pool} (many : 2 ≤ (aliveIndices alive).length) :
    0 < pool.backends.length := by
  obtain ⟨i,_⟩ := List.exists_mem_of_length_pos (Nat.lt_of_lt_of_le Nat.two_pos many)
  exact i.pos

theorem returnsKeepsLaw (fits : w.Fits pool) {alive : Alive pool} {s : State}
    (law : s = stateAt pool w s.current) {t r} (returned : Returns w alive s (t,r)) :
    t = stateAt pool w t.current := by
  obtain ⟨fuel,ok⟩ := returned
  match h : aliveIndices alive with
  | [] =>
    rw [nextNone h] at ok
    cases Option.some.inj ok
    exact law
  | [only] =>
    rw [nextOne h] at ok
    cases Option.some.inj ok
    exact law
  | a::b::rest =>
    have many : 2 ≤ (aliveIndices alive).length := by rw [h]; exact Nat.le_add_left 2 _
    rw [law] at ok
    obtain ⟨k,_,same⟩ := (returnsFirst fits (someIndex many) many _ _).mp ⟨fuel,ok⟩
    cases same
    rw [stateCurrent]

theorem reachableLaw (fits : w.Fits pool) {x : World pool}
    (reach : Transition.Reachable (system pool w) x) : x.state = stateAt pool w x.state.current := by
  refine Transition.invariant (fun x : World pool => x.state = stateAt pool w x.state.current)
    ?_ ?_ reach
  · intro x start
    have zero : x.state = ⟨0,0⟩ := start
    rw [zero]
    rfl
  · intro x label y law moved
    cases moved with
    | flip i flag => exact law
    | next returned => exact returnsKeepsLaw fits law returned

def Served (w : Wheel) (alive : Alive pool) : Prop := ∃ i : pool.Index, alive i = true ∧
  Reached counterPeriod pool.backends.length w.maxWeight w.gcdWeight i (pool.weight i)

theorem hitServed (fits : w.Fits pool) {alive : Alive pool} {T} (hit : Hit w alive T) :
    Served w alive := by
  obtain ⟨i,here,up,low⟩ := hit
  have met := metReached periodPos (maxPos fits i.pos) fits.gcd low
  exact ⟨i,up,here ▸ met⟩

theorem servedHit (fits : w.Fits pool) {alive : Alive pool} (served : Served w alive) (T : Nat) :
    ∃ k, T ≤ k ∧ Hit w alive k := by
  obtain ⟨i,up,reached⟩ := served
  have wide : 2 ≤ passes counterPeriod pool.backends.length := by
    have room : pool.backends.length ≤ counterPeriod-1 := Nat.le_of_lt pool.addressable
    exact Nat.succ_le_succ (Nat.div_pos room i.pos)
  obtain ⟨k,le,here,low⟩ :=
    reachedMet periodPos wide (maxPos fits i.pos) fits.gcd i.isLt reached T
  exact ⟨k,le,i,here.symm,up,low⟩

def Answers (w : Wheel) (alive : Alive pool) (s : State) : Prop :=
  ∃ t r, Returns w alive s (t,r) ∧ (SomeAlive alive ↔ ∃ i, r = some i ∧ alive i = true) ∧
    (¬ SomeAlive alive ↔ r = none)

theorem answersExactly (fits : w.Fits pool) {alive : Alive pool} {s : State}
    (law : s = stateAt pool w s.current) :
    Answers w alive s ↔ (aliveIndices alive).length ≤ 1 ∨ Served w alive := by
  match h : aliveIndices alive with
  | [] =>
    have dead := aliveIndicesNil.mp h
    simp only [List.length_nil,Nat.zero_le,true_or,iff_true]
    refine ⟨s,none,⟨0,nextNone h 0 s⟩,?_,by simp only [dead,not_false_eq_true]⟩
    simp only [dead,false_iff]
    exact fun found => by obtain ⟨i,same,_⟩ := found; contradiction
  | [only] =>
    have up : alive only = true := memAliveIndices.mp (h ▸ List.mem_singleton_self only)
    have live : SomeAlive alive := ⟨only,up⟩
    simp only [List.length_singleton,Nat.le_refl,true_or,iff_true]
    refine ⟨s,some only,⟨0,nextOne h 0 s⟩,?_,by simp [live]⟩
    exact iff_of_true live ⟨only,rfl,up⟩
  | a::b::rest =>
    have many : 2 ≤ (aliveIndices alive).length := by rw [h]; exact Nat.le_add_left 2 _
    have nonempty := someIndex many
    have few : ¬ (a::b::rest).length ≤ 1 := by
      rw [← h]
      omega
    rw [law,or_iff_right few]
    constructor
    · intro answers
      obtain ⟨t,r,returned,_⟩ := answers
      obtain ⟨k,first,_⟩ := (returnsFirst fits nonempty many _ _).mp returned
      exact hitServed fits first.2.1
    · intro served
      obtain ⟨k,le,hit⟩ := servedHit fits served s.current
      obtain ⟨first,found,_⟩ := Loop.firstFromExists le hit
      have returned := (returnsFirst fits nonempty many s.current _).mpr ⟨first,found,rfl⟩
      obtain ⟨i,here,up,_⟩ := found.2.1
      have same : place nonempty first = i := (Fin.ext here).symm
      have live : SomeAlive alive := ⟨i,up⟩
      exact ⟨_,_,returned,iff_of_true live ⟨i,congrArg some same,up⟩,by simp [live]⟩

/- A call answers, in every reachable state and for all flags, exactly when at
most one backend is alive or some alive backend is heavy enough. -/
theorem terminatesExactly (pool : Pool) : ∃ w s, new pool = some (w,s) ∧
    ∀ x, Transition.Reachable (system pool w) x → ∀ alive : Alive pool,
      (Answers w alive x.state ↔ (aliveIndices alive).length ≤ 1 ∨ Served w alive) := by
  obtain ⟨w,ok,fits⟩ := newFits pool
  exact ⟨w,_,ok,fun x reach alive => answersExactly fits (reachableLaw fits reach)⟩

def stragglers : Pool where
  backends := [⟨localhost 5001,1⟩,⟨localhost 5002,1/32768⟩,⟨localhost 5003,1/32768⟩]
  positive := by simp
  addressable := by decide

def firstDead : Alive stragglers := fun i => decide (i.val ≠ 0)

theorem stragglersWheel : new stragglers = some (⟨1,1⟩,⟨0,0⟩) := by
  have small : (1/32768 : ℚ) < epsilon := by norm_num [epsilon]
  have large : epsilon ≤ (1 : ℚ) := by norm_num [epsilon]
  simp only [new,stragglers,List.map_cons,List.map_nil,List.foldlM_cons,List.foldlM_nil,
    gcdStart large,gcdSmall small,bind,Option.bind,pure,List.foldl_cons,List.foldl_nil]
  norm_num

theorem othersLight (i : stragglers.Index) (up : firstDead i = true) :
    stragglers.weight i = 1/32768 := by
  change Fin 3 at i
  fin_cases i
  · contradiction
  · rfl
  · rfl

theorem stragglersHang : ∃ w s, new stragglers = some (w,s) ∧ SomeAlive firstDead ∧
    ∀ fuel, next w firstDead fuel s = none := by
  refine ⟨_,_,stragglersWheel,⟨⟨1,by decide⟩,rfl⟩,?_⟩
  have fits : Wheel.Fits ⟨1,1⟩ stragglers := by
    obtain ⟨w,ok,fits⟩ := newFits stragglers
    cases Option.some.inj (ok.symm.trans stragglersWheel)
    exact fits
  have nonempty : 0 < stragglers.backends.length := by decide
  have never : ∀ k, 0 ≤ k → ¬ Hit ⟨1,1⟩ firstDead k := by
    intro k _ hit
    obtain ⟨i,_,up,low⟩ := hit
    have level : levelAt stragglers ⟨1,1⟩ k = 1 := by
      simp [levelAt,level,steps,Nat.mod_one]
    rw [level,othersLight i up] at low
    norm_num at low
  have diverges := Loop.searchDiverges (scanSearches fits nonempty firstDead) never
  intro fuel
  rw [nextMany (by decide) nonempty]
  exact diverges fuel

end UdpBalancer.WrrScan
