import UdpBalancer.WrrCalls

/-! Fairness of `WeightedRoundRobin` under concurrent callers. However the calls
interleave, once all of them are answered the answers are those of one window of
sequential calls, and every alive backend has got its share of them. -/
namespace UdpBalancer.WrrSharedLoad
open Backends WrrFlips WrrCalls WrrFairness WrrScan
open Linearizable (Move Sequential Steps Traces outcomes responses)

variable {pool : Pool} {w : Wrr.Wheel}

theorem sequentialWindow {a b : Wrr.World pool} {moves} (ran : Sequential (object w) a moves b)
    (steady : ∀ e, Move.change e ∉ moves) :
    Window w a.alive a.state (outcomes moves) b.state := by
  induction ran with
  | nil => exact .nil _
  | invoke _ ih => exact ih fun e mem => steady e (List.mem_cons_of_mem _ mem)
  | respond _ ih => exact ih fun e mem => steady e (List.mem_cons_of_mem _ mem)
  | effect applied _ ih =>
    have later := ih fun e mem => steady e (List.mem_cons_of_mem _ mem)
    cases applied with
    | next returned => exact .cons returned later
  | change _ _ _ => exact absurd List.mem_cons_self (steady _)

theorem windowSplit {alive : Alive pool} {early late s t}
    (window : Window w alive s (early ++ late) t) :
    ∃ u, Window w alive s early u ∧ Window w alive u late t := by
  induction early generalizing s with
  | nil => exact ⟨s,.nil s,window⟩
  | cons r rest ih =>
    cases window with
    | cons returned later =>
      obtain ⟨u,first,second⟩ := ih later
      exact ⟨u,.cons returned first,second⟩

theorem windowsShares {shares : pool.Index → Nat} {top : Nat} (parts : Parts w pool shares top)
    {alive : Alive pool} (many : 2 ≤ (aliveIndices alive).length) {q T : Nat} {rs t}
    (window : Window w alive (stateAt pool w T) rs t)
    (full : rs.length = q*∑ i with alive i = true, shares i)
    (unwrapped : t.current ≤ Wrr.counterPeriod) :
    none ∉ rs ∧ ∀ i, rs.count (some i) = if alive i = true then q*shares i else 0 := by
  induction q generalizing T rs with
  | zero =>
    rw [Nat.zero_mul] at full
    simp [List.length_eq_zero_iff.mp full]
  | succ q ih =>
    have nonempty := someIndex many
    rw [Nat.succ_mul] at full
    rw [← List.take_append_drop (∑ i with alive i = true, shares i) rs] at window
    obtain ⟨u,first,second⟩ := windowSplit window
    obtain ⟨_,U,_,_,rfl⟩ := windowHits parts.fits nonempty many first rfl
    obtain ⟨_,V,hits,_,rfl⟩ := windowHits parts.fits nonempty many second rfl
    have before := (HitWindow.hitsLe hits).trans (stateCurrent V ▸ unwrapped)
    have lengthFirst : (rs.take (∑ i with alive i = true, shares i)).length =
        ∑ i with alive i = true, shares i := by
      rw [List.length_take]
      omega
    have lengthSecond : (rs.drop (∑ i with alive i = true, shares i)).length =
        q*∑ i with alive i = true, shares i := by
      rw [List.length_drop]
      omega
    obtain ⟨servedFirst,countFirst⟩ := windowShares parts many first lengthFirst
      ((stateCurrent U).le.trans before)
    obtain ⟨servedSecond,countSecond⟩ := ih second lengthSecond
    rw [← List.take_append_drop (∑ i with alive i = true, shares i) rs]
    refine ⟨?_,fun i => ?_⟩
    · rw [List.mem_append]
      exact fun mem => mem.elim servedFirst servedSecond
    · rw [List.count_append,countFirst i,countSecond i,Nat.succ_mul]
      split
      · exact Nat.add_comm _ _
      · rfl

theorem windowOnly {alive : Alive pool} {only} (one : aliveIndices alive = [only]) {s rs t}
    (window : Window w alive s rs t) :
    none ∉ rs ∧ ∀ i, rs.count (some i) = if alive i = true then rs.length else 0 := by
  obtain ⟨_,same⟩ := windowOne one window
  rw [same]
  refine ⟨by simp [List.mem_replicate],fun i => ?_⟩
  have alone : alive i = true ↔ i = only := by
    rw [← memAliveIndices,one,List.mem_singleton]
  rw [List.count_replicate,List.length_replicate]
  by_cases here : i = only
  · rw [if_pos (beq_iff_eq.mpr (congrArg some here.symm)),if_pos (alone.mpr here)]
  · rw [if_neg fun same => here (Option.some.inj (beq_iff_eq.mp same)).symm,
      if_neg fun up => here (alone.mp up)]

def Held (x : World pool) : Prop := ∀ t, x.lock = some t → ∃ nonempty, x.calls t = .scanning nonempty

theorem heldElsewhere {x : World pool} {t pc} (held : Held x) (apart : x.lock ≠ some t) :
    Held (goto x t pc) := by
  intro u lock
  have lock : x.lock = some u := lock
  have other : u ≠ t := fun same => apart (same ▸ lock)
  rw [callOther x other]
  exact held u lock

theorem holderStep {x : World pool} (held : Held x) (t : Nat) : Held (callStep w t x) := by
  have outside : (∀ nonempty, x.calls t ≠ .scanning nonempty) → x.lock ≠ some t := by
    intro apart lock
    obtain ⟨nonempty,pc⟩ := held t lock
    exact apart nonempty pc
  cases pc : x.calls t with
  | idle => simpa only [callStep,pc] using held
  | returned r => simpa only [callStep,pc] using held
  | collecting rest found =>
    cases rest with
    | nil => simpa only [callStep,pc] using heldElsewhere held (outside (by simp [pc]))
    | cons i rest => simpa only [callStep,pc] using heldElsewhere held (outside (by simp [pc]))
  | waiting nonempty =>
    by_cases unlocked : x.lock = none
    · simp only [callStep,pc,unlocked,if_true]
      intro u lock
      cases Option.some.inj lock
      exact ⟨nonempty,gotoCall ..⟩
    · simpa only [callStep,pc,unlocked,if_false] using held
  | scanning nonempty =>
    cases turn : Wrr.scanStep nonempty w x.alive x.state with
    | more s =>
      simp only [callStep,pc,turn]
      exact held
    | done out =>
      simp only [callStep,pc,turn]
      intro u lock
      contradiction

theorem reachableHeld {x : World pool} (reach : Transition.Reachable (system pool w) x) :
    Held x := by
  refine Transition.invariant Held ?_ ?_ reach
  · intro x begins t lock
    rw [show x.lock = none from begins.2.1] at lock
    contradiction
  · intro x label y held moved
    cases moved with
    | flip i flag => exact held
    | begin t resting =>
      refine heldElsewhere held fun lock => ?_
      obtain ⟨nonempty,pc⟩ := held t lock
      rw [pc] at resting
      exact resting.elim
    | step t => exact holderStep held t

/- What the callers got between two moments without a call under way. -/
theorem answersWindow {x y : World pool} {history}
    (reach : Transition.Reachable (system pool w) x) (quiet : ∀ t, Resting (x.calls t))
    (traced : Traces (Transition.restrict (system pool w) Between) watch x history y)
    (settled : ∀ t, Resting (y.calls t)) (steady : ∀ e, Move.change e ∉ history) :
    ∃ rs, Window w x.alive x.state rs y.state ∧ rs.Perm (responses history) := by
  obtain ⟨moves,b,ran,seen,same⟩ :=
    Linearizable.simulatedRun stepRelated (restingRelated x quiet) traced
  have unchanged : ∀ e, Move.change e ∉ moves := by
    intro e mem
    refine steady e ?_
    rw [← seen]
    exact List.mem_filter.mpr ⟨mem,rfl⟩
  have unlocked : y.lock = none := by
    cases lock : y.lock with
    | none => rfl
    | some t =>
      obtain ⟨nonempty,pc⟩ := reachableHeld (Linearizable.tracesReachable reach traced) t lock
      have resting := settled t
      rw [pc] at resting
      exact resting.elim
  have window := sequentialWindow (Linearizable.stepsSequential ran) unchanged
  rw [same.free unlocked] at window
  have perm := Linearizable.settledPerm ran fun t => (standsResting (settled t)).mp (same.calls t)
  rw [← Linearizable.responsesVisible,seen] at perm
  exact ⟨_,window,perm⟩

theorem loadShared (pool : Pool) (m : pool.Index → Nat) (units : Units pool m) :
    ∃ w s, Wrr.new pool = some (w,s) ∧
      ∀ x, Transition.Reachable (system pool w) x → (∀ t, Resting (x.calls t)) →
        SomeAlive x.alive → ∀ history y q,
        Traces (Transition.restrict (system pool w) Between) watch x history y →
        (∀ t, Resting (y.calls t)) → (∀ e, Move.change e ∉ history) → y.state.current ≤ 2^64 →
        ((responses history).length : ℚ) =
          (q : Nat)*∑ i with x.alive i = true, pool.weight i/w.gcdWeight →
        none ∉ responses history ∧ ∀ i, ((responses history).count (some i) : ℚ) =
          if x.alive i = true then q*(pool.weight i/w.gcdWeight) else 0 := by
  obtain ⟨w,shares,top,ok,parts⟩ := newParts units
  refine ⟨w,_,ok,fun x reach quiet live history y q traced settled steady unwrapped full => ?_⟩
  obtain ⟨rs,window,perm⟩ := answersWindow reach quiet traced settled steady
  have quotient : ∀ i, pool.weight i/w.gcdWeight = shares i := by
    intro i
    rw [parts.share,mul_div_cancel_right₀ _ parts.fits.gcd.ne']
  simp only [quotient,← perm.mem_iff,← perm.count_eq] at full ⊢
  rw [← perm.length_eq] at full
  have full : rs.length = q*∑ i with x.alive i = true, shares i := by exact_mod_cast full
  have counts : none ∉ rs ∧ ∀ i, rs.count (some i) = if x.alive i = true then q*shares i else 0 := by
    cases alive : aliveIndices x.alive with
    | nil => exact absurd live (aliveIndicesNil.mp alive)
    | cons first rest =>
      cases rest with
      | nil =>
        obtain ⟨served,each⟩ := windowOnly alive window
        have alone : ∀ i, x.alive i = true ↔ i = first := by
          intro i
          rw [← memAliveIndices,alive,List.mem_singleton]
        have sum : ∑ i with x.alive i = true, shares i = shares first := by
          simp only [alone,Finset.filter_eq',Finset.mem_univ,if_true,Finset.sum_singleton]
        refine ⟨served,fun i => ?_⟩
        rw [each i,full,sum]
        split
        · rename_i up
          rw [(alone i).mp up]
        · rfl
      | cons second rest =>
        have many : 2 ≤ (aliveIndices x.alive).length := by
          rw [alive]
          exact Nat.le_add_left 2 _
        rw [flipsLaw parts.fits reach] at window
        exact windowsShares parts many window full unwrapped
  refine ⟨counts.1,fun i => ?_⟩
  rw [counts.2 i]
  split
  · push_cast
    rfl
  · rfl

def paced (w : Wrr.Wheel) (x : World pool) (ts : List Nat) : World pool :=
  ts.foldl (fun x t => callStep w t x) x

def shownBy (w : Wrr.Wheel) (x : World pool) : List Nat → Shown pool
  | [] => []
  | t::rest => watch x (.step t) (callStep w t x) ++ shownBy w (callStep w t x) rest

theorem pacedTraces {x y : World pool} {history} (ts : List Nat)
    (traced : Traces (Transition.restrict (system pool w) Between) watch x history y) :
    Traces (Transition.restrict (system pool w) Between) watch x (history ++ shownBy w y ts)
      (paced w y ts) := by
  induction ts generalizing y history with
  | nil => rw [shownBy,List.append_nil]; exact traced
  | cons t rest ih =>
    rw [shownBy,← List.append_assoc]
    exact ih (.step traced ⟨trivial,.step t⟩)

theorem pacedOther {x : World pool} {ts : List Nat} {u} (apart : u ∉ ts) :
    (paced w x ts).calls u = x.calls u := by
  induction ts generalizing x with
  | nil => rfl
  | cons t rest ih =>
    have here : u ≠ t := fun same => apart (same ▸ List.mem_cons_self)
    exact (ih fun mem => apart (List.mem_cons_of_mem t mem)).trans (stepOther x here)

def isFlip : Move Unit (Option heavyFirst.Index) (heavyFirst.Index × Bool) → Bool
  | .change _ => true
  | _ => false

def quietStart : World heavyFirst := ⟨lastDead,⟨0,0⟩,none,fun _ => .idle⟩

def threeBegun : World heavyFirst :=
  goto (goto (goto quietStart 0 (start heavyFirst)) 1 (start heavyFirst)) 2 (start heavyFirst)

def turns : List Nat := [0,1,2,0,1,2,0,1,2,0,1,2,0,1,0,1,2,1,1,1,2,2]

def begun : Shown heavyFirst := [.invoke 0 (),.invoke 1 (),.invoke 2 ()]

theorem threeTraces : Traces (Transition.restrict (system heavyFirst ⟨1,2⟩) Between) watch
    quietStart begun threeBegun := by
  have enters : ∀ (x : World heavyFirst) t, Resting (x.calls t) →
      (Transition.restrict (system heavyFirst ⟨1,2⟩) Between).step x (.begin t)
        (goto x t (start heavyFirst)) := fun x t resting => ⟨trivial,.begin t resting⟩
  have first : Traces (Transition.restrict (system heavyFirst ⟨1,2⟩) Between) watch quietStart
      [.invoke 0 ()] (goto quietStart 0 (start heavyFirst)) := .step .nil (enters quietStart 0 trivial)
  have second := first.step (enters _ 1 trivial)
  exact second.step (enters _ 2 trivial)

theorem threeQuiet (t : Nat) : Resting ((paced ⟨1,2⟩ threeBegun turns).calls t) := by
  by_cases inside : t ∈ turns
  · have each : ∀ t ∈ turns, Resting ((paced ⟨1,2⟩ threeBegun turns).calls t) := by
      decide +kernel
    exact each t inside
  · rw [pacedOther inside]
    have apart : t ≠ 0 ∧ t ≠ 1 ∧ t ≠ 2 := by
      refine ⟨?_,?_,?_⟩ <;>
      · intro same
        subst same
        exact inside (by decide)
    rw [threeBegun,callOther _ apart.2.2,callOther _ apart.2.1,callOther _ apart.1]
    trivial

theorem heavyFirstTogether : ∃ w s x later y, Wrr.new heavyFirst = some (w,s) ∧
    Transition.Reachable (system heavyFirst w) x ∧
    Traces (Transition.restrict (system heavyFirst w) Between) watch x (begun ++ later) y ∧
    (responses (begun ++ later)).count (some ⟨0,by decide⟩) = 2 ∧
    (responses (begun ++ later)).count (some ⟨1,by decide⟩) = 1 := by
  obtain ⟨w,s,ok,fair⟩ := loadShared heavyFirst heavyUnits heavyFirstUnits
  cases Option.some.inj (ok.symm.trans heavyFirstWheel)
  have reach : Transition.Reachable (system heavyFirst ⟨1,2⟩) quietStart :=
    .init ⟨rfl,rfl,fun _ => rfl⟩
  have traced := pacedTraces turns threeTraces
  have total : ∑ i with lastDead i = true, heavyFirst.weight i/1 = 3 := by
    rw [Finset.sum_filter]
    apply (Fin.sum_univ_three _).trans
    change (2/1 : ℚ)+1/1+0 = 3
    norm_num
  have answered : (responses (begun ++ shownBy ⟨1,2⟩ threeBegun turns)).length = 3 := by
    decide +kernel
  have steady : ∀ e, Move.change e ∉ begun ++ shownBy ⟨1,2⟩ threeBegun turns := by
    intro e mem
    have calls : ∀ m ∈ begun ++ shownBy ⟨1,2⟩ threeBegun turns, isFlip m = false := by
      decide +kernel
    exact Bool.noConfusion (calls _ mem)
  have unwrapped : (paced ⟨1,2⟩ threeBegun turns).state.current ≤ 2^64 := by decide +kernel
  have full : ((responses (begun ++ shownBy ⟨1,2⟩ threeBegun turns)).length : ℚ) =
      (1 : Nat)*∑ i with lastDead i = true, heavyFirst.weight i/1 := by
    rw [answered,total]
    norm_num
  obtain ⟨_,shares⟩ := fair quietStart reach (fun _ => trivial) ⟨⟨0,by decide⟩,by decide⟩ _ _ 1
    traced threeQuiet steady unwrapped full
  have first : ((responses (begun ++ shownBy ⟨1,2⟩ threeBegun turns)).count
      (some ⟨0,by decide⟩) : ℚ) = (1 : Nat)*(2/1) := shares ⟨0,by decide⟩
  have second : ((responses (begun ++ shownBy ⟨1,2⟩ threeBegun turns)).count
      (some ⟨1,by decide⟩) : ℚ) = (1 : Nat)*(1/1) := shares ⟨1,by decide⟩
  rw [Nat.cast_one,one_mul,div_one] at first second
  exact ⟨_,_,quietStart,_,_,ok,reach,traced,by exact_mod_cast first,by exact_mod_cast second⟩

end UdpBalancer.WrrSharedLoad
