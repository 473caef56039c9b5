import UdpBalancer.HealthChecks
import UdpBalancer.WrrChurn

/-! The weighted round robin with its health checks, from the start of the process: who
calls `next` reads the flags that the checks store. A backend whose probes have all been
answered well is served its share, whatever becomes of the others. -/
namespace UdpBalancer.WrrHealth
open Backends WrrFlips WrrFairness WrrCalls
open HealthChecks (Checks Event Inv Took)
open Linearizable (Move Traces responses)

variable {pool : Pool} {κ : Type} [DecidableEq κ]

structure World (pool : Pool) (κ : Type) where
  calls : WrrFlips.World pool
  health : HealthChecks.World κ pool.Index

inductive Label (κ : Type) where
  | begin (t : Nat)
  | step (t : Nat)
  | check (event : Event κ)

/- There is one flag for each backend: what a check stores is what the calls read. -/
inductive Step (c : Checks κ pool.Index) (w : Wrr.Wheel) :
    World pool κ → Label κ → World pool κ → Prop where
  | begin {x} (t : Nat) (resting : Resting (x.calls.calls t)) :
      Step c w x (.begin t) {x with calls := goto x.calls t (start pool)}
  | step {x} (t : Nat) : Step c w x (.step t) {x with calls := callStep w t x.calls}
  | check {x : World pool κ} {event health} (moved : c.step x.health event = some health) :
      Step c w x (.check event) ⟨{x.calls with alive := health.board.alive},health⟩

def fresh : WrrFlips.World pool := ⟨fun _ => true,⟨0,0⟩,none,fun _ => .idle⟩

def begins : World pool κ := ⟨fresh,HealthChecks.start⟩

def system (c : Checks κ pool.Index) (w : Wrr.Wheel) :
    Transition.System (World pool κ) (Label κ) where
  init x := x = begins
  step := Step c w

def watch (x : World pool κ) (label : Label κ) (y : World pool κ) : Shown pool :=
  match label with
  | .begin t => WrrCalls.watch x.calls (.begin t) y.calls
  | .step t => WrrCalls.watch x.calls (.step t) y.calls
  | .check _ => []

variable {c : Checks κ pool.Index} {w : Wrr.Wheel}

structure Seen (c : Checks κ pool.Index) (w : Wrr.Wheel) (history flips : Shown pool)
    (y : World pool κ) : Prop where
  traced : Traces (WrrFlips.system pool w) WrrCalls.watch fresh flips y.calls
  same : responses flips = responses history
  flags : y.calls.alive = y.health.board.alive
  answered : ∀ i b, Move.change (i,b) ∈ flips →
    ∃ k a, c.flag k = i ∧ a ∈ y.health.answers k ∧ a.isOk = b
  sound : ∀ k, HealthChecks.Sound (y.health.answers k) (y.health.tasks k)

omit [DecidableEq κ] in
theorem seenCall {history flips : Shown pool} {y : World pool κ} (seen : Seen c w history flips y)
    {label : WrrFlips.Label pool} {calls : WrrFlips.World pool}
    (moved : (WrrFlips.system pool w).step y.calls label calls) (flags : calls.alive = y.calls.alive)
    (quiet : ∀ e, Move.change e ∉ WrrCalls.watch y.calls label calls) :
    Seen c w (history ++ WrrCalls.watch y.calls label calls)
      (flips ++ WrrCalls.watch y.calls label calls) {y with calls := calls} where
  traced := .step seen.traced moved
  same := by
    have same := seen.same
    unfold responses at same ⊢
    rw [List.filterMap_append,List.filterMap_append,same]
  flags := flags.trans seen.flags
  answered := by
    intro i b mem
    rcases List.mem_append.mp mem with before | now
    · exact seen.answered i b before
    · exact absurd now (quiet _)
  sound := seen.sound

theorem answerQuiet (t : Nat) (pc : Pc pool) (e : pool.Index × Bool) :
    Move.change e ∉ answer t pc := by
  cases pc with
  | returned r => exact fun mem => by cases List.mem_singleton.mp mem
  | _ => exact List.not_mem_nil

theorem seenCheck {history flips : Shown pool} {y : World pool κ} (seen : Seen c w history flips y)
    {health : HealthChecks.World κ pool.Index} (took : Took c y.health health)
    (sound : ∀ k, HealthChecks.Sound (health.answers k) (health.tasks k)) :
    ∃ later, Seen c w history later ⟨{y.calls with alive := health.board.alive},health⟩ := by
  have kept : ∀ i b, Move.change (i,b) ∈ flips →
      ∃ k a, c.flag k = i ∧ a ∈ health.answers k ∧ a.isOk = b := by
    intro i b mem
    obtain ⟨k,a,own,got,same⟩ := seen.answered i b mem
    exact ⟨k,a,own,HealthChecks.tookAnswers took k got,same⟩
  rcases HealthChecks.tookFlags seen.sound took with still | ⟨j,a,got,stored⟩
  · have calls : ({y.calls with alive := health.board.alive} : WrrFlips.World pool) = y.calls := by
      rw [still,← seen.flags]
    refine ⟨flips,?_,seen.same,rfl,kept,sound⟩
    rw [calls]
    exact seen.traced
  · refine ⟨flips ++ [.change (c.flag j,a.isOk)],?_,?_,rfl,?_,sound⟩
    · have flip := WrrFlips.Step.flip (w := w) (x := y.calls) (c.flag j) a.isOk
      rw [stored,← seen.flags]
      exact .step seen.traced flip
    · rw [← seen.same,responses,List.filterMap_append]
      exact List.append_nil _
    · intro i b mem
      rcases List.mem_append.mp mem with before | now
      · exact kept i b before
      · cases List.mem_singleton.mp now
        exact ⟨j,a,rfl,HealthChecks.tookAnswers took j got,rfl⟩

theorem runSeen [Fintype κ] {history : Shown pool} {y : World pool κ}
    (traced : Traces (system c w) watch begins history y) :
    (∃ flips, Seen c w history flips y) ∧ Inv c y.health := by
  induction traced with
  | nil =>
    refine ⟨⟨[],.nil,rfl,rfl,?_,fun _ => rfl⟩,HealthChecks.startInv c⟩
    exact fun _ _ mem => absurd mem List.not_mem_nil
  | @step history y label z traced moved ih =>
    obtain ⟨⟨flips,seen⟩,inv⟩ := ih
    cases moved with
    | begin t resting =>
      refine ⟨⟨_,seenCall seen (.begin t resting) rfl fun e mem => ?_⟩,inv⟩
      rcases List.mem_cons.mp mem with first | later
      · contradiction
      · exact answerQuiet _ _ e later
    | step t =>
      refine ⟨⟨_,seenCall seen (.step t) (stepAlive ..) fun e mem => ?_⟩,inv⟩
      simp only [WrrCalls.watch] at mem
      split at mem
      · contradiction
      · contradiction
      · exact answerQuiet _ _ e mem
    | check moved =>
      have took := HealthChecks.stepTook moved
      have next := HealthChecks.tookInv inv took
      obtain ⟨later,after⟩ := seenCheck seen took next.sound
      refine ⟨⟨later,?_⟩,next⟩
      rw [watch,List.append_nil]
      exact after

theorem healthyServed (pool : Pool) (m : pool.Index → Nat) (units : Units pool m) :
    ∃ w s, Wrr.new pool = some (w,s) ∧
      ∀ {κ : Type} [Fintype κ] [DecidableEq κ] (c : Checks κ pool.Index) history y,
        Traces (system c w) watch begins history y → y.calls.state.current ≤ 2^64 →
        ∀ i, (∀ k, c.flag k = i → ∀ a ∈ y.health.answers k, a = .ok ()) →
        none ∉ responses history ∧
        ∀ q : Nat, q*∑ j, pool.weight j/w.gcdWeight ≤ (responses history).length →
          q*(pool.weight i/w.gcdWeight) ≤ (responses history).count (some i) := by
  obtain ⟨w,shares,top,ok,parts⟩ := newParts units
  refine ⟨w,_,ok,fun c history y traced unwrapped i healthy => ?_⟩
  obtain ⟨⟨flips,seen⟩,_⟩ := runSeen traced
  have steady : Move.change (i,false) ∉ flips := by
    intro mem
    obtain ⟨k,a,own,got,failed⟩ := seen.answered i false mem
    rw [healthy k own a got] at failed
    contradiction
  have reach : Transition.Reachable (WrrFlips.system pool w) fresh :=
    .init ⟨rfl,rfl,fun _ => rfl⟩
  rw [← seen.same]
  exact WrrChurn.churnShare parts reach (fun _ => trivial) rfl seen.traced steady unwrapped

def after (c : Checks κ pool.Index) (w : Wrr.Wheel) (x : World pool κ) :
    Label κ → Option (World pool κ)
  | .begin t =>
    if Resting (x.calls.calls t) then some {x with calls := goto x.calls t (start pool)} else none
  | .step t => some {x with calls := callStep w t x.calls}
  | .check event => (c.step x.health event).map fun health =>
    ⟨{x.calls with alive := health.board.alive},health⟩

theorem afterStep (c : Checks κ pool.Index) (w : Wrr.Wheel) (x : World pool κ) (label : Label κ)
    (y : World pool κ) (moved : after c w x label = some y) : (system c w).step x label y := by
  cases label with
  | begin t =>
    obtain ⟨resting,same⟩ := Option.ite_none_right_eq_some.mp moved
    exact Option.some.inj same ▸ .begin t resting
  | step t => exact Option.some.inj moved ▸ .step t
  | check event =>
    obtain ⟨health,took,rfl⟩ := Option.map_eq_some_iff.mp moved
    exact .check took

def probes : Checks heavyFirst.Index heavyFirst.Index :=
  ⟨fun i => HealthChecks.probe i.val,id,fun _ _ same => same⟩

def spawned (i : heavyFirst.Index) : Label heavyFirst.Index := .check (.run i)

def probed (i : heavyFirst.Index) (reply : Except String HealthChecks.Response) :
    List (Label heavyFirst.Index) :=
  [.check (.tick i),.check (.probed i reply)] ++ List.replicate 5 (.check (.run i))

def well : Except String HealthChecks.Response := .ok ⟨204,"204 No Content"⟩

def badly : Except String HealthChecks.Response := .error "connection refused"

def storm : List (Label heavyFirst.Index) :=
  [heavy,second,third].map spawned ++
    .begin 0::List.replicate 6 (.step 0) ++ [.begin 1,.step 1,.step 1,.begin 0] ++
    probed second badly ++ List.replicate 9 (.step 1) ++ probed heavy well ++
    probed third badly ++ List.replicate 4 (.step 0) ++ probed second well ++
    probed third well ++ .begin 1::List.replicate 9 (.step 1)

theorem stormRun : ((Linearizable.played (after probes ⟨1,2⟩) watch begins storm).map fun (history,y) =>
    ((responses history).length,decide (y.calls.state.current ≤ 2^64),
      (y.health.answers heavy).map Except.isOk,
      (y.health.answers second).map Except.isOk)) = some (4,true,[true],[false,true]) := by
  decide +kernel

theorem heavyHealthy : ∃ w s history y, Wrr.new heavyFirst = some (w,s) ∧
    Traces (system probes w) watch begins history y ∧
    (y.health.answers second).map Except.isOk = [false,true] ∧
    (responses history).length = 4 ∧ 2 ≤ (responses history).count (some heavy) := by
  obtain ⟨w,s,ok,serves⟩ := healthyServed heavyFirst heavyUnits heavyFirstUnits
  cases Option.some.inj (ok.symm.trans heavyFirstWheel)
  obtain ⟨⟨history,y⟩,ran,seen⟩ := Option.map_eq_some_iff.mp stormRun
  simp only [Prod.mk.injEq,decide_eq_true_eq] at seen
  obtain ⟨four,unwrapped,good,mixed⟩ := seen
  have traced := Linearizable.playedTraces (afterStep probes ⟨1,2⟩) .nil ran
  have well : ∀ k, probes.flag k = heavy → ∀ a ∈ y.health.answers k, a = .ok () := by
    intro k own a mem
    have same : k = heavy := own
    subst same
    have answered : a.isOk ∈ [true] := good ▸ List.mem_map_of_mem mem
    cases a with
    | ok _ => exact rfl
    | error e => exact absurd (List.mem_singleton.mp answered) Bool.false_ne_true
  obtain ⟨_,share⟩ := serves probes _ _ traced unwrapped heavy well
  have due := share 1
  rw [List.nil_append,WrrChurn.heavyTotal,four] at due
  have due : (1 : ℚ)*(2/1) ≤ (responses history).count (some heavy) := due (by norm_num)
  rw [one_mul,div_one] at due
  exact ⟨_,_,history,y,ok,traced,mixed,four,by exact_mod_cast due⟩

end UdpBalancer.WrrHealth
