import UdpBalancer.Ledger
import UdpBalancer.SeriesLabels
import UdpBalancer.Transition

/-! `HealthChecker::run_check` statement by statement, for any number of checks at once.
In the middle of a tick the series disagree with each other; while no tick is under way
they read as if every tick had been taken whole. -/
namespace UdpBalancer.HealthChecks
open Forwarding (Label incBy incByHere incByOther)
open HealthCheck (setGauge shows)

structure Response where
  status : Nat
  text : String

abbrev Answer := Except String Unit

def performCheck : Except String Response → Answer
  | .ok response =>
    if 200 ≤ response.status ∧ response.status < 500 then .ok ()
    else .error ("HTTP " ++ response.text)
  | .error e => .error e

structure Checks (κ φ : Type) where
  check : κ → HealthCheck
  flag : κ → φ
  apart : Function.Injective flag

structure Board (φ : Type) where
  backendAlive : Label → Option Nat
  healthCheckTotal : Label → Nat
  healthCheckFailed : Label → Nat
  alive : φ → Bool

inductive Line where
  | healthy
  | unhealthy (error : String)
  deriving DecidableEq, Repr

def Line.text (backendAddr : String) : Line → String
  | .healthy => "Backend " ++ backendAddr ++ " is now healthy"
  | .unhealthy error => "Backend " ++ backendAddr ++ " is now unhealthy: " ++ error

def Line.isHealthy : Line → Bool
  | .healthy => true
  | .unhealthy _ => false

def line : Answer → Line
  | .ok _ => .healthy
  | .error e => .unhealthy e

/- Before the gauge is set, at the `select!`, in `perform_check`, and before each of the
statements of a tick. -/
inductive Pc where
  | spawned
  | selecting (wasAlive : Bool)
  | probing (wasAlive : Bool)
  | counting (wasAlive : Bool) (answer : Answer)
  | comparing (wasAlive : Bool) (answer : Answer)
  | failing (answer : Answer)
  | storing (answer : Answer)
  | publishing (answer : Answer)
  | stopped

/- `answers` is what `perform_check` has returned to a check so far. -/
structure World (κ φ : Type) where
  board : Board φ
  log : List (κ × Line)
  answers : κ → List Answer
  tasks : κ → Pc

inductive Event (κ : Type) where
  | run (k : κ)
  | tick (k : κ)
  | probed (k : κ) (reply : Except String Response)
  | stop (k : κ)

variable {κ φ : Type} [DecidableEq κ]

def World.goto (w : World κ φ) (k : κ) (pc : Pc) : World κ φ :=
  {w with tasks := Function.update w.tasks k pc}

def World.hear (w : World κ φ) (k : κ) (answer : Answer) : World κ φ :=
  {w with answers := Function.update w.answers k (w.answers k ++ [answer])}

namespace Board

def published (b : Board φ) (check : HealthCheck) (isAlive : Bool) : Board φ :=
  {b with backendAlive := setGauge b.backendAlive check.label (if isAlive then 1 else 0)}

def counted (b : Board φ) (check : HealthCheck) : Board φ :=
  {b with healthCheckTotal := incBy b.healthCheckTotal check.label 1}

def missed (b : Board φ) (check : HealthCheck) (isAlive : Bool) : Board φ :=
  if isAlive then b else {b with healthCheckFailed := incBy b.healthCheckFailed check.label 1}

def stored [DecidableEq φ] (b : Board φ) (i : φ) (isAlive : Bool) : Board φ :=
  {b with alive := Function.update b.alive i isAlive}

end Board

namespace Checks
variable [DecidableEq φ] (c : Checks κ φ)

def execute (w : World κ φ) (k : κ) : Pc → Option (World κ φ)
  | .spawned =>
    some ({w with board := w.board.published (c.check k) true}.goto k (.selecting true))
  | .counting wasAlive answer =>
    some ({w with board := w.board.counted (c.check k)}.goto k (.comparing wasAlive answer))
  | .comparing wasAlive answer =>
    let lines := if answer.isOk = wasAlive then [] else [(k,line answer)]
    some ({w with log := w.log ++ lines}.goto k (.failing answer))
  | .failing answer =>
    some ({w with board := w.board.missed (c.check k) answer.isOk}.goto k (.storing answer))
  | .storing answer =>
    some ({w with board := w.board.stored (c.flag k) answer.isOk}.goto k (.publishing answer))
  | .publishing answer =>
    some ({w with board := w.board.published (c.check k) answer.isOk}.goto k
      (.selecting answer.isOk))
  | _ => none

def step (w : World κ φ) : Event κ → Option (World κ φ)
  | .run k => c.execute w k (w.tasks k)
  | .tick k => match w.tasks k with
    | .selecting wasAlive => some (w.goto k (.probing wasAlive))
    | _ => none
  | .probed k reply => match w.tasks k with
    | .probing wasAlive =>
      some ((w.hear k (performCheck reply)).goto k (.counting wasAlive (performCheck reply)))
    | _ => none
  | .stop k => match w.tasks k with
    | .selecting _ => some (w.goto k .stopped)
    | _ => none

end Checks

def blank : Board φ := ⟨fun _ => none,fun _ => 0,fun _ => 0,fun _ => true⟩

def start : World κ φ := ⟨blank,[],fun _ => [],fun _ => .spawned⟩

def Checks.system [DecidableEq φ] (c : Checks κ φ) : Transition.System (World κ φ) (Event κ) :=
  Transition.computed (fun w => w = start) c.step

inductive Took [DecidableEq φ] (c : Checks κ φ) (w : World κ φ) : World κ φ → Prop where
  | begun {k} (here : w.tasks k = .spawned) : Took c w
      ({w with board := w.board.published (c.check k) true}.goto k (.selecting true))
  | ticked {k wasAlive} (here : w.tasks k = .selecting wasAlive) :
      Took c w (w.goto k (.probing wasAlive))
  | heard {k wasAlive answer} (here : w.tasks k = .probing wasAlive) :
      Took c w ((w.hear k answer).goto k (.counting wasAlive answer))
  | counted {k wasAlive answer} (here : w.tasks k = .counting wasAlive answer) : Took c w
      ({w with board := w.board.counted (c.check k)}.goto k (.comparing wasAlive answer))
  | compared {k wasAlive answer} (here : w.tasks k = .comparing wasAlive answer) : Took c w
      ({w with log := w.log ++ if answer.isOk = wasAlive then [] else [(k,line answer)]}.goto k
        (.failing answer))
  | missed {k answer} (here : w.tasks k = .failing answer) : Took c w
      ({w with board := w.board.missed (c.check k) answer.isOk}.goto k (.storing answer))
  | stored {k answer} (here : w.tasks k = .storing answer) : Took c w
      ({w with board := w.board.stored (c.flag k) answer.isOk}.goto k (.publishing answer))
  | published {k answer} (here : w.tasks k = .publishing answer) : Took c w
      ({w with board := w.board.published (c.check k) answer.isOk}.goto k
        (.selecting answer.isOk))
  | stopped {k wasAlive} (here : w.tasks k = .selecting wasAlive) : Took c w (w.goto k .stopped)

variable {c : Checks κ φ} {w u : World κ φ}

theorem stepTook [DecidableEq φ] {event} (moved : c.step w event = some u) : Took c w u := by
  cases event with
  | run k =>
    have moved : c.execute w k (w.tasks k) = some u := moved
    generalize here : w.tasks k = pc at moved
    unfold Checks.execute at moved
    split at moved
    · cases Option.some.inj moved
      exact .begun here
    · cases Option.some.inj moved
      exact .counted here
    · cases Option.some.inj moved
      exact .compared here
    · cases Option.some.inj moved
      exact .missed here
    · cases Option.some.inj moved
      exact .stored here
    · cases Option.some.inj moved
      exact .published here
    · contradiction
  | tick k =>
    simp only [Checks.step] at moved
    split at moved
    · next here =>
      cases Option.some.inj moved
      exact .ticked here
    · contradiction
  | probed k reply =>
    simp only [Checks.step] at moved
    split at moved
    · next here =>
      cases Option.some.inj moved
      exact .heard here
    · contradiction
  | stop k =>
    simp only [Checks.step] at moved
    split at moved
    · next here =>
      cases Option.some.inj moved
      exact .stopped here
    · contradiction

/- Which answers a check has taken past its statement `n`. -/
namespace Pc

def reached : Pc → Nat
  | .counting _ _ => 1
  | .comparing _ _ => 2
  | .failing _ => 3
  | .storing _ => 4
  | .publishing _ => 5
  | _ => 0

def pending (n : Nat) (pc : Pc) : Bool := decide (0 < pc.reached ∧ pc.reached ≤ n)

def isSpawned : Pc → Bool
  | .spawned => true
  | _ => false

end Pc

def World.past (w : World κ φ) (n : Nat) (k : κ) : List Answer :=
  if (w.tasks k).pending n then (w.answers k).dropLast else w.answers k

def failed (answer : Answer) : Bool := !answer.isOk

def lastly (before : Bool) (answers : List Answer) : Bool :=
  (answers.getLast?.map Except.isOk).getD before

def changes (answers : List Answer) : List Line :=
  (answers.zip (true::answers.map Except.isOk)).filterMap fun (answer,before) =>
    if answer.isOk = before then none else some (line answer)

theorem lastlyAppend (before : Bool) (answers : List Answer) (a : Answer) :
    lastly before (answers ++ [a]) = a.isOk := by
  simp [lastly]

theorem lastlyCons (before : Bool) (a : Answer) (answers : List Answer) :
    lastly before (a::answers) = lastly a.isOk answers := by
  rw [lastly,lastly,List.getLast?_cons]
  cases answers.getLast? <;> rfl

theorem zipAppend (before : Bool) (answers : List Answer) (a : Answer) :
    (answers ++ [a]).zip (before::(answers ++ [a]).map Except.isOk) =
      answers.zip (before::answers.map Except.isOk) ++ [(a,lastly before answers)] := by
  induction answers generalizing before with
  | nil => exact rfl
  | cons b rest ih =>
    rw [List.cons_append,List.map_cons,List.zip_cons_cons,ih b.isOk,lastlyCons]
    exact rfl

theorem changesAppend (answers : List Answer) (a : Answer) : changes (answers ++ [a]) =
    changes answers ++ if a.isOk = lastly true answers then [] else [line a] := by
  rw [changes,zipAppend,List.filterMap_append,changes]
  split
  · next same => simp [same]
  · next other => simp [other]

theorem lineHealthy (a : Answer) : (line a).isHealthy = a.isOk := by
  cases a <;> rfl

theorem changesAlternate (answers : List Answer) :
    lastly true answers = decide ((changes answers).length%2 = 0) ∧
    ∀ i found, (changes answers)[i]? = some found → found.isHealthy = decide (i%2 = 1) := by
  induction answers using List.reverseRecOn with
  | nil => exact ⟨rfl,by simp [changes]⟩
  | append_singleton answers a ih =>
    obtain ⟨last,each⟩ := ih
    rw [lastlyAppend,changesAppend]
    split
    · next same =>
      rw [List.append_nil]
      exact ⟨same.trans last,each⟩
    · next other =>
      have flips : a.isOk = !lastly true answers := Bool.eq_not.mpr other
      rw [last] at flips
      refine ⟨?_,fun i found here => ?_⟩
      · rw [flips,List.length_append,List.length_singleton]
        grind
      · rw [List.getElem?_append] at here
        split at here
        · exact each i found here
        · obtain ⟨last,same⟩ : i-(changes answers).length = 0 ∧ line a = found := by
            rw [List.getElem?_singleton] at here
            split at here
            · next zero => exact ⟨zero,Option.some.inj here⟩
            · contradiction
          rw [← same,lineHealthy,flips]
          grind

theorem pastKept {k : κ} {pc : Pc} {n : Nat} (same : pc.pending n = (w.tasks k).pending n) :
    (w.goto k pc).past n = w.past n := by
  funext j
  unfold World.past World.goto
  by_cases here : j = k
  · subst here
    simp only [Function.update_self,same]
  · simp only [Function.update_of_ne here]

theorem pastElsewhere {k : κ} {pc : Pc} {n m : Nat} (here : (w.tasks k).reached = m+1)
    (next : pc.reached = m+2) (other : n ≠ m+1) : (w.goto k pc).past n = w.past n := by
  refine pastKept ?_
  rw [Pc.pending,Pc.pending,here,next]
  exact decide_eq_decide.mpr (by omega)

theorem pastGrown {k : κ} (n : Nat) (pc : Pc) {before : List Answer} {a : Answer}
    (whole : w.answers k = before ++ [a]) (behind : (w.tasks k).pending n = true)
    (past : pc.pending n = false) :
    (w.goto k pc).past n = Function.update (w.past n) k (w.past n k ++ [a]) := by
  funext j
  unfold World.past World.goto
  by_cases here : j = k
  · subst here
    simp only [Function.update_self,past,behind,whole,List.dropLast_concat]
    exact rfl
  · simp only [Function.update_of_ne here]

theorem pastHeard {k : κ} {pc : Pc} {n : Nat} {a : Answer} (behind : pc.pending n = true)
    (past : (w.tasks k).pending n = false) : ((w.hear k a).goto k pc).past n = w.past n := by
  funext j
  unfold World.past World.goto World.hear
  by_cases here : j = k
  · subst here
    simp only [Function.update_self,past,behind,List.dropLast_concat]
    exact rfl
  · simp only [Function.update_of_ne here]

structure Counts [Fintype κ] (c : Checks κ φ) (b : Board φ) (counted missed stored : κ → List Answer) :
    Prop where
  total : ∀ label, b.healthCheckTotal label =
    ∑ k, if (c.check k).label = label then (counted k).length else 0
  failed : ∀ label, b.healthCheckFailed label =
    ∑ k, if (c.check k).label = label then (missed k).countP failed else 0
  alive : ∀ k, b.alive (c.flag k) = lastly true (stored k)
  others : ∀ i, (∀ k, c.flag k ≠ i) → b.alive i = true

section counts
variable [Fintype κ] {b : Board φ} {counted missed stored : κ → List Answer}

theorem sumGrown (figure : List Answer → Nat) {answers : κ → List Answer} (k : κ) (a : Answer)
    {n : Nat} (grows : figure (answers k ++ [a]) = figure (answers k)+n) (label : Label) :
    (∑ j, if (c.check j).label = label then
        figure (Function.update answers k (answers k ++ [a]) j) else 0) =
      (∑ j, if (c.check j).label = label then figure (answers j) else 0)+
        if (c.check k).label = label then n else 0 := by
  have same : ∀ j, j ≠ k →
      (if (c.check j).label = label then
        figure (Function.update answers k (answers k ++ [a]) j) else 0) =
      if (c.check j).label = label then figure (answers j) else 0 := by
    intro j apart
    rw [Function.update_of_ne apart]
  have total := Ledger.sumElsewhere same
  rw [Function.update_self,grows] at total
  split
  · next own =>
    rw [if_pos own,if_pos own] at total
    omega
  · next other =>
    rw [if_neg other,if_neg other] at total
    exact total

theorem incByAt (series : Label → Nat) (label other : Label) (n : Nat) :
    incBy series label n other = series other+if label = other then n else 0 := by
  by_cases same : label = other
  · subst same
    rw [incByHere,if_pos rfl]
  · rw [incByOther _ (Ne.symm same),if_neg same,Nat.add_zero]

theorem countsTotal (counts : Counts c b counted missed stored) (k : κ) (a : Answer) :
    Counts c (b.counted (c.check k)) (Function.update counted k (counted k ++ [a])) missed
      stored where
  total := by
    intro label
    rw [sumGrown List.length k a List.length_append,← counts.total label]
    exact incByAt ..
  failed := counts.failed
  alive := counts.alive
  others := counts.others

theorem countsFailed (counts : Counts c b counted missed stored) (k : κ) (a : Answer) :
    Counts c (b.missed (c.check k) a.isOk) counted (Function.update missed k (missed k ++ [a]))
      stored := by
  have fails : ∀ label, (b.missed (c.check k) a.isOk).healthCheckFailed label =
      ∑ j, if (c.check j).label = label then
        (Function.update missed k (missed k ++ [a]) j).countP failed else 0 := by
    intro label
    have grows : (missed k ++ [a]).countP failed = (missed k).countP failed+[a].countP failed :=
      List.countP_append
    rw [sumGrown (List.countP failed) k a grows,← counts.failed label]
    cases a with
    | ok _ =>
      change b.healthCheckFailed label = _+if _ then 0 else 0
      rw [ite_self,Nat.add_zero]
    | error e => exact incByAt ..
  cases a with
  | ok _ => exact ⟨counts.total,fails,counts.alive,counts.others⟩
  | error e => exact ⟨counts.total,fails,counts.alive,counts.others⟩

theorem countsStored [DecidableEq φ] (counts : Counts c b counted missed stored) (k : κ) (a : Answer) :
    Counts c (b.stored (c.flag k) a.isOk) counted missed
      (Function.update stored k (stored k ++ [a])) where
  total := counts.total
  failed := counts.failed
  alive := by
    intro j
    by_cases same : j = k
    · subst same
      rw [Function.update_self,lastlyAppend]
      exact Function.update_self ..
    · rw [Function.update_of_ne same]
      exact (Function.update_of_ne (fun flags => same (c.apart flags)) ..).trans (counts.alive j)
  others := by
    intro i foreign
    exact (Function.update_of_ne (foreign k).symm ..).trans (counts.others i foreign)

omit [DecidableEq κ] in
theorem countsPublished (counts : Counts c b counted missed stored) (check : HealthCheck)
    (isAlive : Bool) : Counts c (b.published check isAlive) counted missed stored :=
  ⟨counts.total,counts.failed,counts.alive,counts.others⟩

omit [DecidableEq κ] in
theorem countsBlank : Counts c (blank : Board φ) (fun _ => []) (fun _ => []) fun _ => [] where
  total := by simp [blank]
  failed := by simp [blank]
  alive := fun _ => rfl
  others := fun _ _ => rfl

end counts

def Sound (answers : List Answer) : Pc → Prop
  | .spawned => answers = []
  | .selecting wasAlive | .probing wasAlive => lastly true answers = wasAlive
  | .counting wasAlive a | .comparing wasAlive a =>
    ∃ before, answers = before ++ [a] ∧ lastly true before = wasAlive
  | .failing a | .storing a | .publishing a => ∃ before, answers = before ++ [a]
  | .stopped => True

def World.shown (w : World κ φ) (k : κ) : Option Nat :=
  if (w.tasks k).isSpawned then none else shows (lastly true (w.past 5 k))

def Alone (c : Checks κ φ) (k : κ) : Prop :=
  ∀ j, (c.check j).label = (c.check k).label → j = k

def linesOf (k : κ) (log : List (κ × Line)) : List Line :=
  (log.filter fun entry => entry.1 = k).map Prod.snd

structure Inv [Fintype κ] (c : Checks κ φ) (w : World κ φ) : Prop where
  counts : Counts c w.board (w.past 1) (w.past 3) (w.past 4)
  gauge : ∀ k, Alone c k → w.board.backendAlive (c.check k).label = w.shown k
  log : ∀ k, linesOf k w.log = changes (w.past 2 k)
  sound : ∀ k, Sound (w.answers k) (w.tasks k)

theorem soundGoto (sound : ∀ k, Sound (w.answers k) (w.tasks k)) {k : κ} {pc : Pc}
    (here : Sound (w.answers k) pc) (j : κ) :
    Sound ((w.goto k pc).answers j) ((w.goto k pc).tasks j) := by
  unfold World.goto
  by_cases same : j = k
  · subst same
    simp only [Function.update_self]
    exact here
  · simp only [Function.update_of_ne same]
    exact sound j

theorem soundHear (sound : ∀ k, Sound (w.answers k) (w.tasks k)) {k : κ} {wasAlive : Bool}
    (here : w.tasks k = .probing wasAlive) (a : Answer) (j : κ) :
    Sound (((w.hear k a).goto k (.counting wasAlive a)).answers j)
      (((w.hear k a).goto k (.counting wasAlive a)).tasks j) := by
  unfold World.goto World.hear
  by_cases same : j = k
  · subst same
    simp only [Function.update_self]
    have last := sound j
    rw [here] at last
    exact ⟨_,rfl,last⟩
  · simp only [Function.update_of_ne same]
    exact sound j

omit [DecidableEq κ] in
theorem soundAt (sound : ∀ k, Sound (w.answers k) (w.tasks k)) {k : κ} {pc : Pc}
    (here : w.tasks k = pc) : Sound (w.answers k) pc :=
  here ▸ sound k

theorem tookFlags [DecidableEq φ] (sound : ∀ k, Sound (w.answers k) (w.tasks k))
    (took : Took c w u) : u.board.alive = w.board.alive ∨ ∃ k a, a ∈ w.answers k ∧
      u.board.alive = Function.update w.board.alive (c.flag k) a.isOk := by
  cases took with
  | @stored k a here =>
    obtain ⟨before,whole⟩ := soundAt sound here
    exact .inr ⟨k,a,whole ▸ List.mem_append_right _ List.mem_cons_self,rfl⟩
  | @missed k a here => cases a <;> exact .inl rfl
  | _ => exact .inl rfl

theorem tookAnswers [DecidableEq φ] (took : Took c w u) (k : κ) {a : Answer}
    (mem : a ∈ w.answers k) : a ∈ u.answers k := by
  cases took with
  | @heard j wasAlive answer here =>
    change a ∈ Function.update w.answers j (w.answers j ++ [answer]) k
    by_cases same : k = j
    · subst same
      rw [Function.update_self]
      exact List.mem_append_left _ mem
    · rwa [Function.update_of_ne same]
  | _ => exact mem

omit [DecidableEq κ] in
theorem shownKept (past : u.past 5 = w.past 5)
    (spawned : ∀ k, (u.tasks k).isSpawned = (w.tasks k).isSpawned) : u.shown = w.shown := by
  funext k
  rw [World.shown,World.shown,past,spawned]

theorem spawnedGoto {k : κ} {pc : Pc} (spawned : pc.isSpawned = (w.tasks k).isSpawned) (j : κ) :
    ((w.goto k pc).tasks j).isSpawned = (w.tasks j).isSpawned := by
  unfold World.goto
  by_cases same : j = k
  · subst same
    simp only [Function.update_self,spawned]
  · simp only [Function.update_of_ne same]

theorem gaugePublished (gauge : ∀ k, Alone c k → w.board.backendAlive (c.check k).label = w.shown k)
    {k : κ} {isAlive : Bool} (shown : u.shown = Function.update w.shown k (shows isAlive)) (j : κ)
    (alone : Alone c j) :
    (w.board.published (c.check k) isAlive).backendAlive (c.check j).label = u.shown j := by
  rw [shown]
  by_cases same : j = k
  · subst same
    rw [Function.update_self]
    exact Function.update_self ..
  · rw [Function.update_of_ne same,← gauge j alone]
    refine Function.update_of_ne (fun labels => same ?_) ..
    exact (alone k labels.symm).symm

theorem shownGoto {k : κ} {pc : Pc} (running : pc.isSpawned = false) {isAlive : Bool}
    (last : lastly true ((w.goto k pc).past 5 k) = isAlive) :
    (w.goto k pc).shown = Function.update w.shown k (shows isAlive) := by
  funext j
  by_cases same : j = k
  · subst same
    have here : (w.goto j pc).tasks j = pc := Function.update_self ..
    rw [Function.update_self,World.shown,here,running,last]
    exact rfl
  · have other : (w.goto k pc).tasks j = w.tasks j := Function.update_of_ne same ..
    rw [Function.update_of_ne same,World.shown,World.shown,World.past,World.past,other]
    exact rfl

section runs
variable [Fintype κ]

theorem invRan {k : κ} {pc : Pc} {b : Board φ} {log : List (κ × Line)} (inv : Inv c w)
    (counts : Counts c b ((w.goto k pc).past 1) ((w.goto k pc).past 3) ((w.goto k pc).past 4))
    (gauge : ∀ j, Alone c j → b.backendAlive (c.check j).label = (w.goto k pc).shown j)
    (lines : ∀ j, linesOf j log = changes ((w.goto k pc).past 2 j))
    (sound : Sound (w.answers k) pc) : Inv c ({w with board := b,log := log}.goto k pc) :=
  ⟨counts,gauge,lines,soundGoto inv.sound sound⟩

theorem gaugeKept (inv : Inv c w) {k : κ} {pc : Pc} {b : Board φ}
    (series : b.backendAlive = w.board.backendAlive) (past : (w.goto k pc).past 5 = w.past 5)
    (spawned : pc.isSpawned = (w.tasks k).isSpawned) (j : κ) (alone : Alone c j) :
    b.backendAlive (c.check j).label = (w.goto k pc).shown j := by
  rw [shownKept past (spawnedGoto spawned),series]
  exact inv.gauge j alone

theorem quietInv (inv : Inv c w) {k : κ} {pc : Pc} (idle : (w.tasks k).reached = 0)
    (next : pc.reached = 0) (spawned : pc.isSpawned = (w.tasks k).isSpawned)
    (sound : Sound (w.answers k) pc) : Inv c (w.goto k pc) := by
  have kept : ∀ n, (w.goto k pc).past n = w.past n := by
    intro n
    refine pastKept ?_
    rw [Pc.pending,Pc.pending,idle,next]
  refine invRan inv ?_ (gaugeKept inv rfl (kept 5) spawned) ?_ sound
  · rw [kept,kept,kept]
    exact inv.counts
  · rw [kept]
    exact inv.log

theorem beganInv (inv : Inv c w) {k : κ} (here : w.tasks k = .spawned) :
    Inv c ({w with board := w.board.published (c.check k) true}.goto k (.selecting true)) := by
  have kept : ∀ n, (w.goto k (.selecting true)).past n = w.past n := fun n =>
    pastKept (by rw [here]; exact rfl)
  have none : w.answers k = [] := soundAt inv.sound here
  have last : lastly true ((w.goto k (.selecting true)).past 5 k) = true := by
    rw [kept,World.past,none,List.dropLast_nil,ite_self]
    exact rfl
  refine invRan inv ?_ (gaugePublished inv.gauge (shownGoto rfl last)) ?_ ?_
  · rw [kept,kept,kept]
    exact countsPublished inv.counts ..
  · rw [kept]
    exact inv.log
  · rw [none]
    exact rfl

theorem heardInv (inv : Inv c w) {k : κ} {wasAlive : Bool} (here : w.tasks k = .probing wasAlive)
    (a : Answer) : Inv c ((w.hear k a).goto k (.counting wasAlive a)) := by
  have kept : ∀ n, 1 ≤ n →
      ((w.hear k a).goto k (.counting wasAlive a)).past n = w.past n := by
    intro n positive
    refine pastHeard (decide_eq_true ⟨Nat.one_pos,positive⟩) ?_
    rw [here]
    exact decide_eq_false (by simp [Pc.reached])
  have spawned : ∀ j, (((w.hear k a).goto k (.counting wasAlive a)).tasks j).isSpawned =
      (w.tasks j).isSpawned := spawnedGoto (w := w.hear k a) (congrArg Pc.isSpawned here).symm
  refine ⟨?_,?_,?_,soundHear inv.sound here a⟩
  · rw [kept 1 (by omega),kept 3 (by omega),kept 4 (by omega)]
    exact inv.counts
  · rw [shownKept (kept 5 (by omega)) spawned]
    exact inv.gauge
  · rw [kept 2 (by omega)]
    exact inv.log

theorem countedInv (inv : Inv c w) {k : κ} {wasAlive : Bool} {a : Answer}
    (here : w.tasks k = .counting wasAlive a) :
    Inv c ({w with board := w.board.counted (c.check k)}.goto k (.comparing wasAlive a)) := by
  obtain ⟨before,whole,last⟩ := soundAt inv.sound here
  have kept : ∀ n, n ≠ 1 → (w.goto k (.comparing wasAlive a)).past n = w.past n := fun n =>
    pastElsewhere (congrArg Pc.reached here) rfl
  have grown := pastGrown 1 (.comparing wasAlive a) whole (by rw [here]; exact rfl) rfl
  refine invRan inv ?_ (gaugeKept inv rfl (kept 5 (by decide)) (by rw [here]; exact rfl)) ?_
    ⟨before,whole,last⟩
  · rw [grown,kept 3 (by decide),kept 4 (by decide)]
    exact countsTotal inv.counts k a
  · rw [kept 2 (by decide)]
    exact inv.log

omit [Fintype κ] in
theorem linesAppend (k j : κ) (log : List (κ × Line)) (lines : List Line) :
    linesOf j (log ++ lines.map fun found => (k,found)) =
      linesOf j log ++ if j = k then lines else [] := by
  rw [linesOf,List.filter_append,List.map_append,List.filter_map,List.map_map]
  by_cases same : j = k
  · subst same
    simp [linesOf,Function.comp_def]
  · simp [linesOf,Function.comp_def,same,Ne.symm same]

theorem comparedInv (inv : Inv c w) {k : κ} {wasAlive : Bool} {a : Answer}
    (here : w.tasks k = .comparing wasAlive a) :
    Inv c ({w with log := w.log ++ if a.isOk = wasAlive then [] else [(k,line a)]}.goto k
      (.failing a)) := by
  obtain ⟨before,whole,last⟩ := soundAt inv.sound here
  have kept : ∀ n, n ≠ 2 → (w.goto k (.failing a)).past n = w.past n := fun n =>
    pastElsewhere (congrArg Pc.reached here) rfl
  have grown := pastGrown 2 (.failing a) whole (by rw [here]; exact rfl) rfl
  have behind : w.past 2 k = before := by
    rw [World.past,here,whole,List.dropLast_concat]
    exact rfl
  have written : (if a.isOk = wasAlive then [] else [(k,line a)]) =
      (if a.isOk = lastly true before then [] else [line a]).map fun found => (k,found) := by
    rw [last]
    split <;> exact rfl
  refine invRan inv ?_ (gaugeKept inv rfl (kept 5 (by decide)) (by rw [here]; exact rfl))
    (fun j => ?_) ⟨before,whole⟩
  · rw [kept 1 (by decide),kept 3 (by decide),kept 4 (by decide)]
    exact inv.counts
  · rw [grown,written,linesAppend,inv.log]
    by_cases same : j = k
    · subst same
      rw [if_pos rfl,Function.update_self,changesAppend,behind]
    · rw [if_neg same,Function.update_of_ne same,List.append_nil]

theorem missedInv (inv : Inv c w) {k : κ} {a : Answer} (here : w.tasks k = .failing a) :
    Inv c ({w with board := w.board.missed (c.check k) a.isOk}.goto k (.storing a)) := by
  obtain ⟨before,whole⟩ := soundAt inv.sound here
  have kept : ∀ n, n ≠ 3 → (w.goto k (.storing a)).past n = w.past n := fun n =>
    pastElsewhere (congrArg Pc.reached here) rfl
  have grown := pastGrown 3 (.storing a) whole (by rw [here]; exact rfl) rfl
  have series : (w.board.missed (c.check k) a.isOk).backendAlive = w.board.backendAlive := by
    cases a <;> exact rfl
  refine invRan inv ?_ (gaugeKept inv series (kept 5 (by decide)) (by rw [here]; exact rfl)) ?_
    ⟨before,whole⟩
  · rw [grown,kept 1 (by decide),kept 4 (by decide)]
    exact countsFailed inv.counts k a
  · rw [kept 2 (by decide)]
    exact inv.log

theorem storedInv [DecidableEq φ] (inv : Inv c w) {k : κ} {a : Answer}
    (here : w.tasks k = .storing a) :
    Inv c ({w with board := w.board.stored (c.flag k) a.isOk}.goto k (.publishing a)) := by
  obtain ⟨before,whole⟩ := soundAt inv.sound here
  have kept : ∀ n, n ≠ 4 → (w.goto k (.publishing a)).past n = w.past n := fun n =>
    pastElsewhere (congrArg Pc.reached here) rfl
  have grown := pastGrown 4 (.publishing a) whole (by rw [here]; exact rfl) rfl
  refine invRan inv ?_ (gaugeKept inv rfl (kept 5 (by decide)) (by rw [here]; exact rfl)) ?_
    ⟨before,whole⟩
  · rw [grown,kept 1 (by decide),kept 3 (by decide)]
    exact countsStored inv.counts k a
  · rw [kept 2 (by decide)]
    exact inv.log

theorem publishedInv (inv : Inv c w) {k : κ} {a : Answer} (here : w.tasks k = .publishing a) :
    Inv c ({w with board := w.board.published (c.check k) a.isOk}.goto k (.selecting a.isOk)) := by
  obtain ⟨before,whole⟩ := soundAt inv.sound here
  have kept : ∀ n, n < 5 → (w.goto k (.selecting a.isOk)).past n = w.past n := by
    intro n less
    refine pastKept ?_
    rw [here,Pc.pending,Pc.pending]
    exact decide_eq_decide.mpr (by simp [Pc.reached]; omega)
  have last : lastly true ((w.goto k (.selecting a.isOk)).past 5 k) = a.isOk := by
    have moved : (w.goto k (.selecting a.isOk)).tasks k = .selecting a.isOk :=
      Function.update_self ..
    rw [World.past,moved]
    exact (congrArg (lastly true) whole).trans (lastlyAppend ..)
  refine invRan inv ?_ (gaugePublished inv.gauge (shownGoto rfl last)) ?_ ?_
  · rw [kept 1 (by decide),kept 3 (by decide),kept 4 (by decide)]
    exact countsPublished inv.counts ..
  · rw [kept 2 (by decide)]
    exact inv.log
  · rw [whole]
    exact lastlyAppend ..

theorem tookInv [DecidableEq φ] (inv : Inv c w) (took : Took c w u) : Inv c u := by
  cases took with
  | begun here => exact beganInv inv here
  | ticked here =>
    have last := soundAt inv.sound here
    exact quietInv inv (by rw [here]; exact rfl) rfl (by rw [here]; exact rfl) last
  | heard here => exact heardInv inv here _
  | counted here => exact countedInv inv here
  | compared here => exact comparedInv inv here
  | missed here => exact missedInv inv here
  | stored here => exact storedInv inv here
  | published here => exact publishedInv inv here
  | stopped here => exact quietInv inv (by rw [here]; exact rfl) rfl (by rw [here]; exact rfl) trivial

theorem startInv (c : Checks κ φ) : Inv c start where
  counts := countsBlank
  gauge := fun _ _ => rfl
  log := fun _ => rfl
  sound := fun _ => rfl

theorem reachableInv [DecidableEq φ] (reach : Transition.Reachable c.system w) : Inv c w := by
  refine Transition.invariant (Inv c) ?_ (fun _ _ _ inv moved => tookInv inv (stepTook moved)) reach
  intro s begins
  have same : s = start := begins
  exact same ▸ startInv c

end runs

/- What each check says of its backend at every moment, with the answers that have come
so far: the counters, the log and the flag, and the gauge where no other check shares
its label. -/
structure Tells [Fintype κ] (c : Checks κ φ) (w : World κ φ) : Prop where
  counts : Counts c w.board (w.past 1) (w.past 3) (w.past 4)
  gauge : ∀ k, Alone c k → w.board.backendAlive (c.check k).label =
    if (w.tasks k).isSpawned then none else shows (lastly true (w.past 5 k))
  log : ∀ k, linesOf k w.log = changes (w.past 2 k)
  alternates : ∀ k i found, (linesOf k w.log)[i]? = some found → found.isHealthy = decide (i%2 = 1)

theorem checksTell [Fintype κ] [DecidableEq φ] (reach : Transition.Reachable c.system w) :
    Tells c w := by
  have inv := reachableInv reach
  refine ⟨inv.counts,inv.gauge,inv.log,fun k => ?_⟩
  rw [inv.log]
  exact (changesAlternate _).2

inductive Entry (κ : Type) where
  | started (k : κ)
  | ticked (k : κ) (answer : Answer)

def Entry.check : Entry κ → κ
  | .started k => k
  | .ticked k _ => k

def Entry.answer : Entry κ → Option Answer
  | .started _ => none
  | .ticked _ answer => some answer

def Board.series (b : Board φ) (i : φ) : HealthCheck.Series :=
  ⟨b.backendAlive,b.healthCheckTotal,b.healthCheckFailed,b.alive i⟩

def post [DecidableEq φ] (c : Checks κ φ) (b : Board φ) : Entry κ → Board φ
  | .started k => b.published (c.check k) true
  | .ticked k answer =>
    let s := (c.check k).tick (b.series (c.flag k)) answer.isOk
    ⟨s.backendAlive,s.healthCheckTotal,s.healthCheckFailed,
      Function.update b.alive (c.flag k) s.alive⟩

def replay [DecidableEq φ] (c : Checks κ φ) (entries : List (Entry κ)) : Board φ :=
  entries.foldl (post c) blank

def ownEntries (k : κ) (entries : List (Entry κ)) : List (Entry κ) :=
  entries.filter fun entry => entry.check = k

def World.history (w : World κ φ) (k : κ) : List (Entry κ) :=
  if (w.tasks k).isSpawned then [] else .started k::(w.past 5 k).map (.ticked k)

theorem ownAppend (k : κ) (entries : List (Entry κ)) (entry : Entry κ) :
    ownEntries k (entries ++ [entry]) =
      ownEntries k entries ++ if entry.check = k then [entry] else [] := by
  rw [ownEntries,List.filter_append]
  by_cases same : entry.check = k
  · simp [ownEntries,same]
  · simp [ownEntries,same]

section atomic
variable [DecidableEq φ]

omit [DecidableEq κ] in
theorem replayAppend (c : Checks κ φ) (entries : List (Entry κ)) (entry : Entry κ) :
    replay c (entries ++ [entry]) = post c (replay c entries) entry :=
  List.foldl_append

omit [DecidableEq κ] in
theorem postTicked (c : Checks κ φ) (b : Board φ) (k : κ) (a : Answer) :
    post c b (.ticked k a) = (((b.counted (c.check k)).missed (c.check k) a.isOk).stored
      (c.flag k) a.isOk).published (c.check k) a.isOk := by
  cases a <;> rfl

structure Replays (c : Checks κ φ) (w : World κ φ) (entries : List (Entry κ)) : Prop where
  gauge : w.board.backendAlive = (replay c entries).backendAlive
  own : ∀ k, ownEntries k entries = w.history k

theorem replaysKept {entries : List (Entry κ)} (replays : Replays c w entries)
    (gauge : u.board.backendAlive = w.board.backendAlive) (past : u.past 5 = w.past 5)
    (spawned : ∀ k, (u.tasks k).isSpawned = (w.tasks k).isSpawned) : Replays c u entries := by
  refine ⟨gauge.trans replays.gauge,fun k => ?_⟩
  rw [replays.own,World.history,World.history,past,spawned]

theorem replaysGrown {entries : List (Entry κ)} (entry : Entry κ) (replays : Replays c w entries)
    (gauge : u.board.backendAlive = (post c (replay c entries) entry).backendAlive)
    (history : u.history = Function.update w.history entry.check
      (w.history entry.check ++ [entry])) : Replays c u (entries ++ [entry]) := by
  refine ⟨by rw [replayAppend]; exact gauge,fun k => ?_⟩
  rw [ownAppend,replays.own,history]
  by_cases same : entry.check = k
  · subst same
    rw [if_pos rfl,Function.update_self]
  · rw [if_neg same,Function.update_of_ne (Ne.symm same),List.append_nil]

omit [DecidableEq φ] in
theorem historyGoto {k : κ} {pc : Pc} {xs : List (Entry κ)}
    (here : (w.goto k pc).history k = w.history k ++ xs) :
    (w.goto k pc).history = Function.update w.history k (w.history k ++ xs) := by
  funext j
  by_cases same : j = k
  · subst same
    rw [Function.update_self,here]
  · have other : (w.goto k pc).tasks j = w.tasks j := Function.update_of_ne same ..
    rw [Function.update_of_ne same,World.history,World.history,World.past,World.past,other]
    exact rfl

theorem tookReplays [Fintype κ] (inv : Inv c w) (took : Took c w u) {entries : List (Entry κ)}
    (replays : Replays c w entries) : ∃ later, Replays c u later := by
  cases took with
  | @begun k here =>
    have none : w.answers k = [] := soundAt inv.sound here
    have history : (w.goto k (.selecting true)).history k = w.history k ++ [.started k] := by
      have moved : (w.goto k (.selecting true)).tasks k = .selecting true := Function.update_self ..
      rw [World.history,World.history,World.past,moved,here]
      exact congrArg (Entry.started k::List.map (Entry.ticked k) ·) none
    refine ⟨_,replaysGrown (.started k) replays ?_ (historyGoto history)⟩
    exact congrArg (setGauge · (c.check k).label 1) replays.gauge
  | @published k a here =>
    obtain ⟨before,whole⟩ := soundAt inv.sound here
    have grown := pastGrown 5 (.selecting a.isOk) whole (by rw [here]; exact rfl) rfl
    have history : (w.goto k (.selecting a.isOk)).history k = w.history k ++ [.ticked k a] := by
      have moved : (w.goto k (.selecting a.isOk)).tasks k = .selecting a.isOk :=
        Function.update_self ..
      rw [World.history,World.history,grown,moved,here,Function.update_self,List.map_append]
      exact rfl
    refine ⟨_,replaysGrown (.ticked k a) replays ?_ (historyGoto history)⟩
    rw [postTicked]
    cases a with
    | ok _ => exact congrArg (setGauge · (c.check k).label 1) replays.gauge
    | error e => exact congrArg (setGauge · (c.check k).label 0) replays.gauge
  | @heard k wasAlive a here =>
    refine ⟨_,replaysKept replays rfl (pastHeard rfl (by rw [here]; exact rfl)) ?_⟩
    exact spawnedGoto (w := w.hear k a) (congrArg Pc.isSpawned here).symm
  | ticked here =>
    exact ⟨_,replaysKept replays rfl (pastKept (by rw [here]; exact rfl))
      (spawnedGoto (by rw [here]; exact rfl))⟩
  | counted here =>
    exact ⟨_,replaysKept replays rfl (pastKept (by rw [here]; exact rfl))
      (spawnedGoto (by rw [here]; exact rfl))⟩
  | compared here =>
    exact ⟨_,replaysKept replays rfl (pastKept (by rw [here]; exact rfl))
      (spawnedGoto (by rw [here]; exact rfl))⟩
  | @missed k a here =>
    have gauge : (w.board.missed (c.check k) a.isOk).backendAlive = w.board.backendAlive := by
      cases a <;> exact rfl
    exact ⟨_,replaysKept replays gauge (pastKept (by rw [here]; exact rfl))
      (spawnedGoto (by rw [here]; exact rfl))⟩
  | stored here =>
    exact ⟨_,replaysKept replays rfl (pastKept (by rw [here]; exact rfl))
      (spawnedGoto (by rw [here]; exact rfl))⟩
  | stopped here =>
    exact ⟨_,replaysKept replays rfl (pastKept (by rw [here]; exact rfl))
      (spawnedGoto (by rw [here]; exact rfl))⟩

def ticksOf (entries : List (Entry κ)) (k : κ) : List Answer :=
  (ownEntries k entries).filterMap Entry.answer

omit [DecidableEq φ] in
theorem ticksAppend (entries : List (Entry κ)) (k : κ) (a : Answer) :
    ticksOf (entries ++ [.ticked k a]) =
      Function.update (ticksOf entries) k (ticksOf entries k ++ [a]) := by
  funext j
  rw [ticksOf,ownAppend,List.filterMap_append]
  by_cases same : j = k
  · subst same
    rw [Function.update_self]
    simp [Entry.check,Entry.answer,ticksOf]
  · rw [Function.update_of_ne same]
    simp [Entry.check,ticksOf,Ne.symm same]

omit [DecidableEq φ] in
theorem startedAppend (entries : List (Entry κ)) (k : κ) :
    ticksOf (entries ++ [.started k]) = ticksOf entries := by
  funext j
  rw [ticksOf,ownAppend,List.filterMap_append]
  split
  · simp [Entry.answer,ticksOf]
  · simp [ticksOf]

theorem replayCounts [Fintype κ] (c : Checks κ φ) (entries : List (Entry κ)) :
    Counts c (replay c entries) (ticksOf entries) (ticksOf entries) (ticksOf entries) := by
  induction entries using List.reverseRecOn with
  | nil => exact countsBlank
  | append_singleton entries entry ih =>
    rw [replayAppend]
    cases entry with
    | started k =>
      rw [startedAppend]
      exact countsPublished ih ..
    | ticked k a =>
      rw [postTicked,ticksAppend]
      exact countsPublished (countsStored (countsFailed (countsTotal ih k a) k a) k a) ..

omit [DecidableEq κ] [DecidableEq φ] in
theorem countsUnique [Fintype κ] {b d : Board φ} {answers : κ → List Answer}
    (one : Counts c b answers answers answers) (two : Counts c d answers answers answers)
    (gauge : b.backendAlive = d.backendAlive) : b = d := by
  obtain ⟨backendAlive,total,failed,alive⟩ := b
  have sums : total = d.healthCheckTotal ∧ failed = d.healthCheckFailed :=
    ⟨funext fun label => (one.total label).trans (two.total label).symm,
      funext fun label => (one.failed label).trans (two.failed label).symm⟩
  have flags : alive = d.alive := by
    funext i
    by_cases owned : ∃ k, c.flag k = i
    · obtain ⟨k,rfl⟩ := owned
      exact (one.alive k).trans (two.alive k).symm
    · have foreign : ∀ k, c.flag k ≠ i := fun k same => owned ⟨k,same⟩
      exact (one.others i foreign).trans (two.others i foreign).symm
  rw [sums.1,sums.2,flags]
  have gauge : backendAlive = d.backendAlive := gauge
  rw [gauge]

/- While no tick is being published, the series are those of whole ticks, in an order
that keeps the order of each check's own. -/
theorem ticksAtomic [Fintype κ] (reach : Transition.Reachable c.system w)
    (between : ∀ k, (w.tasks k).reached = 0) : ∃ entries, w.board = replay c entries ∧
      ∀ k, ownEntries k entries = if (w.tasks k).isSpawned then []
        else .started k::(w.answers k).map (.ticked k) := by
  have all : Inv c w ∧ ∃ entries, Replays c w entries := by
    refine Transition.invariant (fun w => Inv c w ∧ ∃ entries, Replays c w entries) ?_ ?_ reach
    · intro s begins
      have same : s = start := begins
      subst same
      exact ⟨startInv c,[],rfl,fun _ => rfl⟩
    · intro s event t inv moved
      obtain ⟨sound,entries,replays⟩ := inv
      have took := stepTook moved
      exact ⟨tookInv sound took,tookReplays sound took replays⟩
  obtain ⟨inv,entries,replays⟩ := all
  have past : ∀ n, w.past n = w.answers := by
    intro n
    funext k
    rw [World.past,Pc.pending,between]
    exact rfl
  have ticks : ticksOf entries = w.answers := by
    funext k
    rw [ticksOf,replays.own,World.history,past]
    split
    · next spawned =>
      have none : w.answers k = [] := by
        have sound := inv.sound k
        cases here : w.tasks k with
        | spawned =>
          rw [here] at sound
          exact sound
        | _ => simp [here,Pc.isSpawned] at spawned
      rw [none]
      exact rfl
    · rw [List.filterMap_cons,List.filterMap_map]
      exact List.filterMap_some
  have counts : Counts c w.board w.answers w.answers w.answers := by
    have counts := inv.counts
    rwa [past,past,past] at counts
  have replayed : Counts c (replay c entries) w.answers w.answers w.answers :=
    ticks ▸ replayCounts c entries
  refine ⟨entries,countsUnique counts replayed replays.gauge,fun k => ?_⟩
  rw [replays.own,World.history,past]

end atomic

def probe (alive : Nat) : HealthCheck :=
  ⟨"http://127.0.0.1:8080/healthz",10^10,10^9,alive,"0.0.0.0:2055","127.0.0.1:2056"⟩

def twins : Checks Bool Bool := ⟨fun k => if k then probe 1 else probe 0,id,fun _ _ same => same⟩

def unavailable : Response := ⟨503,"503 Service Unavailable"⟩

def halfway : List (Event Bool) :=
  [.run false,.tick false,.run true,.probed false (.ok unavailable),.run false,.tick true,
    .probed true (.ok ⟨204,"204 No Content"⟩),.run true,.run false,.run true]

def crossing : List (Event Bool) :=
  halfway ++ [.run false,.run true,.run true,.run false,.run true,.run false]

def Checks.run (c : Checks Bool Bool) (w : World Bool Bool) (events : List (Event Bool)) :
    Option (World Bool Bool) :=
  events.foldlM c.step w

theorem twinsRun : (twins.run start halfway).map (fun w =>
      (w.board.healthCheckTotal (probe 0).label,w.board.healthCheckFailed (probe 0).label,w.log)) =
        some (2,0,[(false,.unhealthy "HTTP 503 Service Unavailable")]) ∧
    (twins.run start crossing).map (fun w => (w.board.backendAlive (probe 0).label,
      w.board.healthCheckFailed (probe 0).label,(w.tasks false).reached,(w.tasks true).reached)) =
        some (some 0,1,0,0) := by
  decide +kernel

theorem twinsTell : ∃ w, twins.run start halfway = some w ∧ Tells twins w ∧
    linesOf false w.log = [.unhealthy "HTTP 503 Service Unavailable"] := by
  obtain ⟨w,ran,seen⟩ := Option.map_eq_some_iff.mp twinsRun.1
  simp only [Prod.mk.injEq] at seen
  have reach := Transition.runReachable (.init (S := twins.system) (s := start) rfl) ran
  refine ⟨w,ran,checksTell reach,?_⟩
  rw [seen.2.2]
  exact rfl

theorem twinsAtomic : ∃ w entries, twins.run start crossing = some w ∧
    w.board.backendAlive (probe 0).label = some 0 ∧ w.board = replay twins entries := by
  obtain ⟨w,ran,seen⟩ := Option.map_eq_some_iff.mp twinsRun.2
  simp only [Prod.mk.injEq] at seen
  have reach := Transition.runReachable (.init (S := twins.system) (s := start) rfl) ran
  have between : ∀ k, (w.tasks k).reached = 0 := by
    intro k
    cases k with
    | false => exact seen.2.2.1
    | true => exact seen.2.2.2
  obtain ⟨entries,whole,_⟩ := ticksAtomic reach between
  exact ⟨w,entries,ran,seen.1,whole⟩

end UdpBalancer.HealthChecks
