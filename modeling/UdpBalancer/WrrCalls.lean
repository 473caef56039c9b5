import UdpBalancer.Linearizable
import UdpBalancer.WrrFlips

/-! Concurrent calls of `WeightedRoundRobin::next`, while the alive flags change
only between calls: they are calls of one atomic object, whose operation is the
sequential `next`. A call takes effect in the step that answers it. -/
namespace UdpBalancer.WrrCalls
open Backends WrrFlips
open Linearizable (Object Move Client Atomic Steps Implements Traces gotoClient gotoOther)

variable {pool : Pool} (w : Wrr.Wheel)

def object : Object (Wrr.World pool) Unit (Option pool.Index) (pool.Index × Bool) where
  apply a _ b r := Wrr.Step w a (.next r) b
  change a flip b := Wrr.Step w a (.flip flip.1 flip.2) b

def Between (x : World pool) : Label pool → Prop
  | .flip _ _ => ∀ t, Resting (x.calls t)
  | _ => True

abbrev Shown (pool : Pool) := List (Move Unit (Option pool.Index) (pool.Index × Bool))

def answer (t : Nat) : Pc pool → Shown pool
  | .returned r => [.respond t r]
  | _ => []

def watch (x : World pool) (label : Label pool) (y : World pool) : Shown pool :=
  match label with
  | .flip i flag => [.change (i,flag)]
  | .begin t => .invoke t ()::answer t (y.calls t)
  | .step t => match x.calls t with
    | .idle | .returned _ => []
    | _ => answer t (y.calls t)

def Stands (alive : Alive pool) (pc : Pc pool) (c : Client Unit (Option pool.Index)) : Prop :=
  match pc with
  | .idle | .returned _ => c = .idle
  | .collecting rest found => c = .pending () ∧ found ++ rest.filter alive = aliveIndices alive
  | .waiting _ | .scanning _ => c = .pending () ∧ 2 ≤ (aliveIndices alive).length

/- The scan under the mutex goes on from a state that turns of the loop have
reached from the object's. -/
structure Related (x : World pool) (a : Atomic (Wrr.World pool) Unit (Option pool.Index)) :
    Prop where
  alive : a.value.alive = x.alive
  free : x.lock = none → a.value.state = x.state
  held : ∀ t nonempty, x.calls t = .scanning nonempty → x.lock = some t ∧
    ∀ out, Loop.Returns (Wrr.scanStep nonempty w x.alive) x.state out →
      Loop.Returns (Wrr.scanStep nonempty w x.alive) a.value.state out
  calls : ∀ t, Stands x.alive (x.calls t) (a.clients t)

variable {w}

theorem standsUpdate {alive : Alive pool} {x : World pool}
    {a : Atomic (Wrr.World pool) Unit (Option pool.Index)} {t pc c}
    (calls : ∀ u, Stands alive (x.calls u) (a.clients u)) (stands : Stands alive pc c) (u : Nat) :
    Stands alive ((goto x t pc).calls u) ((a.goto t c).clients u) := by
  by_cases same : u = t
  · subst same
    rw [gotoCall,gotoClient]
    exact stands
  · rw [gotoOther a same,callOther x same]
    exact calls u

theorem relatedGoto {x : World pool} {a t pc c} (same : Related w x a)
    (stands : Stands x.alive pc c) (outside : ∀ nonempty, pc ≠ .scanning nonempty) :
    Related w (goto x t pc) (a.goto t c) where
  alive := same.alive
  free := same.free
  held := by
    intro u nonempty scanning
    by_cases here : u = t
    · subst here
      rw [gotoCall] at scanning
      exact absurd scanning (outside nonempty)
    · rw [callOther _ here] at scanning
      exact same.held u nonempty scanning
  calls := standsUpdate same.calls stands

theorem gotoSelf (a : Atomic (Wrr.World pool) Unit (Option pool.Index)) (t : Nat) :
    a.goto t (a.clients t) = a := by
  simp only [Atomic.goto,Function.update_eq_self]

theorem answersAtOnce {x : World pool} {a t r} (same : Related w x a)
    (pending : a.clients t = .pending ())
    (always : ∀ fuel s, Wrr.next w x.alive fuel s = some (s,r)) :
    Steps (object w) a [.effect t () r,.respond t r] (a.goto t .idle) ∧
      Related w (goto x t (.returned r)) (a.goto t .idle) := by
  have applied : (object w).apply a.value () a.value r :=
    .next ⟨0,by rw [same.alive]; exact always 0 _⟩
  exact ⟨Linearizable.stepsAnswer pending applied,relatedGoto same rfl fun _ => nofun⟩

theorem collected {x : World pool} {a t found} (same : Related w x a)
    (pc : x.calls t = .collecting [] found) :
    ∃ moves b, Steps (object w) a moves b ∧
      moves.filter Move.visible = answer t (decided found) ∧
      Related w (goto x t (decided found)) b := by
  have stands := same.calls t
  rw [pc] at stands
  obtain ⟨pending,all⟩ := stands
  rw [List.filter_nil,List.append_nil] at all
  cases found with
  | nil =>
    obtain ⟨steps,after⟩ := answersAtOnce same pending fun fuel s => WrrScan.nextNone all.symm fuel s
    exact ⟨_,_,steps,rfl,after⟩
  | cons first rest =>
    cases rest with
    | nil =>
      obtain ⟨steps,after⟩ := answersAtOnce same pending fun fuel s => WrrScan.nextOne all.symm fuel s
      exact ⟨_,_,steps,rfl,after⟩
    | cons second rest =>
      have many : 2 ≤ (aliveIndices x.alive).length := by
        rw [← all]
        exact Nat.le_add_left 2 _
      refine ⟨[],_,.nil,rfl,?_⟩
      have after : Related w (goto x t (.waiting first.pos)) (a.goto t (a.clients t)) :=
        relatedGoto same ⟨pending,many⟩ fun _ => nofun
      rwa [gotoSelf] at after

theorem loaded {x : World pool} {a t i rest found} (same : Related w x a)
    (pc : x.calls t = .collecting (i::rest) found) :
    Related w (goto x t (.collecting rest (if x.alive i then found ++ [i] else found))) a := by
  have stands := same.calls t
  rw [pc] at stands
  obtain ⟨pending,all⟩ := stands
  have kept : (if x.alive i then found ++ [i] else found) ++ rest.filter x.alive =
      aliveIndices x.alive := by
    rw [← all]
    cases up : x.alive i with
    | true => simp only [if_true,List.filter_cons,up,List.append_assoc,List.singleton_append]
    | false => simp only [Bool.false_eq_true,if_false,List.filter_cons,up]
  have after : Related w (goto x t (.collecting rest
      (if x.alive i then found ++ [i] else found))) (a.goto t (a.clients t)) :=
    relatedGoto same ⟨pending,kept⟩ fun _ => nofun
  rwa [gotoSelf] at after

theorem locked {x : World pool} {a t nonempty} (same : Related w x a)
    (pc : x.calls t = .waiting nonempty) (unlocked : x.lock = none) :
    Related w (goto {x with lock := some t} t (.scanning nonempty)) a where
  alive := same.alive
  free := nofun
  held := by
    intro u nonempty' scanning
    by_cases here : u = t
    · subst here
      refine ⟨rfl,fun out returns => ?_⟩
      rw [same.free unlocked]
      exact returns
    · rw [callOther _ here] at scanning
      have other := (same.held u _ scanning).1
      rw [unlocked] at other
      contradiction
  calls := by
    have stands := same.calls t
    rw [pc] at stands
    have after : ∀ u, Stands x.alive ((goto x t (.scanning nonempty)).calls u)
        ((a.goto t (a.clients t)).clients u) := standsUpdate same.calls stands
    rwa [gotoSelf] at after

theorem turned {x : World pool} {a t nonempty s} (same : Related w x a)
    (pc : x.calls t = .scanning nonempty)
    (more : Wrr.scanStep nonempty w x.alive x.state = .more s) : Related w {x with state := s} a where
  alive := same.alive
  free := by
    intro unlocked
    have here := (same.held t nonempty pc).1
    rw [show x.lock = none from unlocked] at here
    contradiction
  held := by
    intro u _ scanning
    obtain ⟨lock,reached⟩ := same.held u _ scanning
    exact ⟨lock,fun out returns => reached out ((Loop.returnsMore more).mpr returns)⟩
  calls := same.calls

theorem served {x : World pool} {a t nonempty s r} (same : Related w x a)
    (pc : x.calls t = .scanning nonempty)
    (done : Wrr.scanStep nonempty w x.alive x.state = .done (s,r)) :
    ∃ b, Steps (object w) a [.effect t () r,.respond t r] b ∧
      Related w (goto {x with state := s,lock := none} t (.returned r)) b := by
  have stands := same.calls t
  rw [pc] at stands
  obtain ⟨pending,many⟩ := stands
  obtain ⟨lock,reached⟩ := same.held t nonempty pc
  have scanned := reached _ (Loop.returnsDone done)
  have applied : (object w).apply a.value () {a.value with state := s} r := by
    refine .next ?_
    rw [same.alive]
    obtain ⟨fuel,ok⟩ := scanned
    exact ⟨fuel,(WrrScan.nextMany many nonempty fuel _).trans ok⟩
  refine ⟨_,Linearizable.stepsAnswer pending applied,same.alive,fun _ => rfl,?_,
    standsUpdate (x := {x with state := s,lock := none}) same.calls rfl⟩
  intro u _ scanning
  by_cases here : u = t
  · subst here
    rw [gotoCall] at scanning
    contradiction
  · rw [callOther _ here] at scanning
    have other := (same.held u _ scanning).1
    exact absurd (Option.some.inj (lock.symm.trans other)).symm here

theorem standsResting {alive : Alive pool} {pc c} (resting : Resting pc) :
    Stands alive pc c ↔ c = .idle := by
  cases pc with
  | idle => exact Iff.rfl
  | returned r => exact Iff.rfl
  | collecting rest found => exact resting.elim
  | waiting nonempty => exact resting.elim
  | scanning nonempty => exact resting.elim

theorem flipped {x : World pool} {a} (same : Related w x a)
    (between : ∀ t, Resting (x.calls t)) (i : pool.Index) (flag : Bool) :
    Related w {x with alive := setAlive x.alive i flag}
      {a with value := {a.value with alive := setAlive a.value.alive i flag}} where
  alive := by rw [same.alive]
  free := same.free
  held := by
    intro t nonempty scanning
    have resting := between t
    rw [show x.calls t = _ from scanning] at resting
    exact resting.elim
  calls t := (standsResting (between t)).mpr ((standsResting (between t)).mp (same.calls t))

theorem begun {x : World pool} {a t} (same : Related w x a) (resting : Resting (x.calls t)) :
    ∃ moves b, Steps (object w) a (.invoke t ()::moves) b ∧
      moves.filter Move.visible = answer t (start pool) ∧ Related w (goto x t (start pool)) b := by
  have invoked : Steps (object w) a [.invoke t ()] (a.goto t (.pending ())) :=
    Linearizable.stepsOne (.invoke () ((standsResting resting).mp (same.calls t)))
  unfold start
  split
  · rename_i empty
    have none : aliveIndices x.alive = [] := by
      have small : pool.backends.length = 0 := by rw [List.isEmpty_iff.mp empty]; rfl
      exact List.filter_eq_nil_iff.mpr fun i _ => absurd i.pos (by omega)
    have entered : Related w (goto x t (.collecting [] [])) (a.goto t (.pending ())) :=
      relatedGoto same ⟨rfl,none.symm⟩ fun _ => nofun
    obtain ⟨steps,after⟩ := answersAtOnce entered (gotoClient ..) fun fuel s =>
      WrrScan.nextNone none fuel s
    rw [gotoAgain] at after
    exact ⟨_,_,Linearizable.stepsAppend invoked steps,rfl,after⟩
  · exact ⟨[],_,invoked,rfl,relatedGoto same ⟨rfl,List.nil_append _⟩ fun _ => nofun⟩

theorem stepped {x : World pool} {a} (same : Related w x a) (t : Nat) :
    ∃ moves b, Steps (object w) a moves b ∧
      moves.filter Move.visible = watch x (.step t) (callStep w t x) ∧
      Related w (callStep w t x) b := by
  cases pc : x.calls t with
  | idle =>
    simp only [callStep,watch,pc]
    exact ⟨[],a,.nil,rfl,same⟩
  | returned r =>
    simp only [callStep,watch,pc]
    exact ⟨[],a,.nil,rfl,same⟩
  | collecting rest found =>
    cases rest with
    | nil =>
      simp only [callStep,watch,pc,gotoCall]
      exact collected same pc
    | cons i rest =>
      simp only [callStep,watch,pc,gotoCall,answer]
      exact ⟨[],a,.nil,rfl,loaded same pc⟩
  | waiting nonempty =>
    by_cases unlocked : x.lock = none
    · simp only [callStep,watch,pc,unlocked,if_true,gotoCall,answer]
      exact ⟨[],a,.nil,rfl,locked same pc unlocked⟩
    · simp only [callStep,watch,pc,unlocked,if_false,answer]
      exact ⟨[],a,.nil,rfl,same⟩
  | scanning nonempty =>
    cases turn : Wrr.scanStep nonempty w x.alive x.state with
    | more s =>
      simp only [callStep,watch,pc,turn,answer]
      exact ⟨[],a,.nil,rfl,turned same pc turn⟩
    | done out =>
      obtain ⟨b,steps,after⟩ := served same pc turn
      simp only [callStep,watch,pc,turn,gotoCall,answer]
      exact ⟨_,b,steps,rfl,after⟩

theorem stepRelated (x : World pool) (label : Label pool) (y : World pool) (a)
    (same : Related w x a) (moved : (Transition.restrict (system pool w) Between).step x label y) :
    ∃ moves b, Steps (object w) a moves b ∧ moves.filter Move.visible = watch x label y ∧
      Related w y b := by
  obtain ⟨between,moved⟩ := moved
  cases moved with
  | flip i flag =>
    have changed : (object w).change a.value (i,flag) _ := Wrr.Step.flip i flag
    exact ⟨_,_,Linearizable.stepsOne (.change changed),rfl,flipped same between i flag⟩
  | begin t resting =>
    obtain ⟨moves,b,steps,seen,after⟩ := begun same resting
    refine ⟨_,b,steps,?_,after⟩
    simp only [watch,gotoCall,← seen]
    rfl
  | step t => exact stepped same t

theorem restingRelated (x : World pool) (quiet : ∀ t, Resting (x.calls t)) :
    Related w x ⟨⟨x.alive,x.state⟩,fun _ => .idle⟩ where
  alive := rfl
  free _ := rfl
  held := by
    intro t nonempty scanning
    have resting := quiet t
    rw [scanning] at resting
    exact resting.elim
  calls t := (standsResting (quiet t)).mpr rfl

theorem callsLinearize (pool : Pool) (w : Wrr.Wheel) :
    Implements (Transition.restrict (system pool w) Between) watch (object w)
      fun x => ⟨x.alive,x.state⟩ := by
  refine Linearizable.simulated (fun x begins => restingRelated x fun t => ?_) stepRelated
  have idle : ∀ t, x.calls t = .idle := begins.2.2
  rw [idle t]
  trivial

end UdpBalancer.WrrCalls
