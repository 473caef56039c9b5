import UdpBalancer.Moments
import UdpBalancer.WrrFlips

/-! What a call of `WeightedRoundRobin::next` may answer while flags change at any
moment, inside the call as well. It answers a backend that it has seen alive, and it
does not answer none as long as one backend stays alive throughout the call. -/
namespace UdpBalancer.WrrMoments
open Backends WrrFlips WrrScan WrrFairness

variable {pool : Pool} {w : Wrr.Wheel}

def change : Label pool → Option (pool.Index × Bool)
  | .flip i flag => some (i,flag)
  | _ => none

def changes (labels : List (Label pool)) : List (pool.Index × Bool) := labels.filterMap change

def Justified (alive : Alive pool) (stores : List (pool.Index × Bool)) : Pc pool → Prop
  | .idle => False
  | .collecting rest found => (∀ i, Moments.Steady alive stores i → i ∈ found ∨ i ∈ rest) ∧
      ∀ i ∈ found, Moments.Seen alive stores i
  | .waiting _ | .scanning _ => True
  | .returned r => (r = none → ∀ i, ¬ Moments.Steady alive stores i) ∧
      ∀ i, r = some i → Moments.Seen alive stores i

variable {alive : Alive pool} {stores : List (pool.Index × Bool)}

theorem steadyEarlier {more i} (steady : Moments.Steady alive (stores ++ more) i) :
    Moments.Steady alive stores i :=
  ⟨steady.1,fun mem => steady.2 (List.mem_append_left _ mem)⟩

theorem seenLater {i} (seen : Moments.Seen alive stores i) (more : List (pool.Index × Bool)) :
    Moments.Seen alive (stores ++ more) i :=
  seen.imp_right (List.mem_append_left _)

theorem justifiedLater {pc} (justified : Justified alive stores pc)
    (more : List (pool.Index × Bool)) : Justified alive (stores ++ more) pc := by
  cases pc with
  | idle => exact justified
  | collecting rest found =>
    exact ⟨fun i steady => justified.1 i (steadyEarlier steady),
      fun i mem => seenLater (justified.2 i mem) more⟩
  | waiting nonempty => trivial
  | scanning nonempty => trivial
  | returned r =>
    exact ⟨fun none i steady => justified.1 none i (steadyEarlier steady),
      fun i same => seenLater (justified.2 i same) more⟩

theorem startJustified (alive : Alive pool) : Justified alive [] (start pool) := by
  unfold start
  split
  · rename_i empty
    have none : pool.backends.length = 0 := by rw [List.isEmpty_iff.mp empty]; rfl
    exact ⟨fun _ i => absurd i.pos (by omega),nofun⟩
  · exact ⟨fun i _ => .inr (List.mem_finRange i),fun i mem => absurd mem List.not_mem_nil⟩

theorem decidedJustified {found} (justified : Justified alive stores (.collecting [] found)) :
    Justified alive stores (decided found) := by
  obtain ⟨kept,seen⟩ := justified
  cases found with
  | nil =>
    exact ⟨fun _ i steady => (kept i steady).elim List.not_mem_nil List.not_mem_nil,nofun⟩
  | cons first rest =>
    cases rest with
    | nil =>
      refine ⟨nofun,fun i same => ?_⟩
      cases Option.some.inj same
      exact seen first List.mem_cons_self
    | cons second rest => trivial

theorem loadJustified {now : Alive pool} {i rest found}
    (between : Moments.Between alive stores i (now i))
    (justified : Justified alive stores (.collecting (i::rest) found)) :
    Justified alive stores (.collecting rest (if now i then found ++ [i] else found)) := by
  obtain ⟨kept,seen⟩ := justified
  cases up : now i with
  | true =>
    rw [if_pos rfl]
    refine ⟨fun j steady => ?_,fun j mem => ?_⟩
    · rcases kept j steady with held | later
      · exact .inl (List.mem_append_left _ held)
      · rcases List.mem_cons.mp later with rfl | after
        · exact .inl (List.mem_append_right _ List.mem_cons_self)
        · exact .inr after
    · rcases List.mem_append.mp mem with held | last
      · exact seen j held
      · rw [List.mem_singleton.mp last]
        exact between.2 up
  | false =>
    rw [if_neg Bool.false_ne_true]
    refine ⟨fun j steady => ?_,seen⟩
    refine (kept j steady).imp_right fun later => ?_
    rcases List.mem_cons.mp later with rfl | after
    · rw [between.1 steady] at up
      contradiction
    · exact after

theorem scanJustified (fits : w.Fits pool) {nonempty} {now : Alive pool} {s t r}
    (law : s = stateAt pool w s.current) (between : ∀ i, Moments.Between alive stores i (now i))
    (done : Wrr.scanStep nonempty w now s = .done (t,r)) :
    Justified alive stores (.returned r) := by
  obtain ⟨found,missed⟩ := scanSearches fits nonempty now s.current
  rw [← law] at found missed
  by_cases hit : Hit w now s.current
  · have same := done.symm.trans (found hit)
    cases same
    refine ⟨nofun,fun i chosen => ?_⟩
    cases Option.some.inj chosen
    obtain ⟨j,here,up,_⟩ := hit
    have same : j = place nonempty s.current := Fin.ext here
    exact (between _).2 (same ▸ up)
  · rw [missed hit] at done
    contradiction

theorem callJustified (fits : w.Fits pool) {x : World pool} {t : Nat}
    (law : x.state = stateAt pool w x.state.current)
    (between : ∀ i, Moments.Between alive stores i (x.alive i))
    (justified : Justified alive stores (x.calls t)) :
    Justified alive stores ((callStep w t x).calls t) := by
  cases pc : x.calls t with
  | idle =>
    rw [pc] at justified
    exact justified.elim
  | returned r =>
    rw [pc] at justified
    simpa only [callStep,pc] using justified
  | collecting rest found =>
    rw [pc] at justified
    cases rest with
    | nil =>
      simp only [callStep,pc,gotoCall]
      exact decidedJustified justified
    | cons i rest =>
      simp only [callStep,pc,gotoCall]
      exact loadJustified (between i) justified
  | waiting nonempty =>
    by_cases unlocked : x.lock = none
    · simp only [callStep,pc,unlocked,if_true,gotoCall]
      trivial
    · simp only [callStep,pc,unlocked,if_false]
      trivial
  | scanning nonempty =>
    cases turn : Wrr.scanStep nonempty w x.alive x.state with
    | more s =>
      simp only [callStep,pc,turn]
      trivial
    | done out =>
      simp only [callStep,pc,turn,gotoCall]
      exact scanJustified fits law between turn

theorem runJustified (fits : w.Fits pool) {x y : World pool} {t labels}
    (reach : Transition.Reachable (system pool w) x) (resting : Resting (x.calls t))
    (ran : Transition.Run (system pool w) (goto x t (start pool)) labels y)
    (alone : .begin t ∉ labels) :
    (∀ i, Moments.Between x.alive (changes labels) i (y.alive i)) ∧
      Justified x.alive (changes labels) (y.calls t) := by
  have begun : Transition.Reachable (system pool w) (goto x t (start pool)) :=
    .step reach (.begin t resting)
  induction ran with
  | nil => exact ⟨Moments.betweenNil,by rw [gotoCall]; exact startJustified x.alive⟩
  | @step labels y label z ran moved ih =>
    obtain ⟨between,justified⟩ := ih fun mem => alone (List.mem_append_left _ mem)
    have law := flipsLaw fits (Transition.runExtends begun ran)
    rw [changes,List.filterMap_append]
    cases moved with
    | flip i flag =>
      exact ⟨Moments.betweenStore between i flag,justifiedLater justified _⟩
    | begin u other =>
      have apart : t ≠ u := by
        intro same
        subst same
        exact alone (List.mem_append_right _ List.mem_cons_self)
      refine ⟨fun i => Moments.betweenLater (between i) _,?_⟩
      rw [callOther y apart]
      exact justifiedLater justified _
    | step u =>
      simp only [List.filterMap_cons,change,List.filterMap_nil,List.append_nil]
      rw [stepAlive]
      refine ⟨between,?_⟩
      by_cases same : t = u
      · subst same
        exact callJustified fits law between justified
      · rw [stepOther y same]
        exact justified

theorem answersJustified (pool : Pool) : ∃ w s, Wrr.new pool = some (w,s) ∧
    ∀ x, Transition.Reachable (system pool w) x → ∀ t, Resting (x.calls t) → ∀ labels y,
      Transition.Run (system pool w) (goto x t (start pool)) labels y → .begin t ∉ labels →
      ∀ r, y.calls t = .returned r →
        (r = none → ∀ i, ¬ Moments.Steady x.alive (changes labels) i) ∧
        ∀ i, r = some i → Moments.Seen x.alive (changes labels) i := by
  obtain ⟨w,ok,fits⟩ := Wrr.newFits pool
  refine ⟨w,_,ok,fun x reach t resting labels y ran alone r answered => ?_⟩
  have justified := (runJustified fits reach resting ran alone).2
  rw [answered] at justified
  exact justified

/- The first backend comes up after a call has looked at it and is what its loop answers.
Another call finds none alive, although at every moment one is. -/
def upAt (alive : Alive heavyFirst) : World heavyFirst := ⟨alive,⟨0,0⟩,none,fun _ => .idle⟩

def firstDown : World heavyFirst := upAt fun i => decide (i ≠ heavy)

def onlyThird : World heavyFirst := upAt fun i => decide (i = third)

def rises : List (Label heavyFirst) :=
  List.replicate 5 (.step 0) ++ [.flip heavy true,.step 0]

def crosses : List (Label heavyFirst) :=
  [.step 0,.flip heavy true,.step 0,.flip third false,.step 0,.step 0]

def answered {pool : Pool} : Pc pool → Option (Option pool.Index)
  | .returned r => some r
  | _ => none

theorem answeredReturned {pc : Pc pool} {r} (seen : answered pc = some r) : pc = .returned r := by
  cases pc with
  | returned q => exact congrArg Pc.returned (Option.some.inj seen)
  | _ => contradiction

theorem heavyAnswers : ∃ w s y z, Wrr.new heavyFirst = some (w,s) ∧
    Transition.Run (system heavyFirst w)
      (goto firstDown 0 (start heavyFirst)) rises y ∧
    y.calls 0 = .returned (some heavy) ∧ Moments.Seen firstDown.alive (changes rises) heavy ∧
    Transition.Run (system heavyFirst w)
      (goto onlyThird 0 (start heavyFirst)) crosses z ∧
    z.calls 0 = .returned none ∧ ∀ i, ¬ Moments.Steady onlyThird.alive (changes crosses) i := by
  obtain ⟨w,s,ok,justified⟩ := answersJustified heavyFirst
  cases Option.some.inj (ok.symm.trans heavyFirstWheel)
  have rising : (rises.foldlM (after ⟨1,2⟩) (goto firstDown 0 (start heavyFirst))).map
      (fun y => answered (y.calls 0)) = some (some (some heavy)) := by decide +kernel
  have crossing : (crosses.foldlM (after ⟨1,2⟩)
      (goto onlyThird 0 (start heavyFirst))).map (fun z => answered (z.calls 0)) =
        some (some none) := by decide +kernel
  obtain ⟨y,ran,some⟩ := Option.map_eq_some_iff.mp rising
  obtain ⟨z,crossed,none⟩ := Option.map_eq_some_iff.mp crossing
  have up := Transition.foldRun (S := system heavyFirst ⟨1,2⟩) (afterStep ⟨1,2⟩) ran
  have lost := Transition.foldRun (S := system heavyFirst ⟨1,2⟩) (afterStep ⟨1,2⟩) crossed
  have one := justified firstDown (.init ⟨rfl,rfl,fun _ => rfl⟩) 0 trivial rises y up (by simp [rises])
    _ (answeredReturned some)
  have two := justified onlyThird (.init ⟨rfl,rfl,fun _ => rfl⟩) 0 trivial crosses z lost
    (by simp [crosses]) _ (answeredReturned none)
  exact ⟨_,_,y,z,ok,up,answeredReturned some,one.2 heavy rfl,lost,answeredReturned none,two.1 rfl⟩

end UdpBalancer.WrrMoments
