import UdpBalancer.Moments
import UdpBalancer.Transition
import UdpBalancer.Rendezvous

/-! `RendezvousHashing::next` flag by flag. A call takes no lock: it loads one alive
flag in each turn of its loop, while health checks store into them. Its answer is the
atomic one for a view that lies between the flags at the moments of the call. -/
namespace UdpBalancer.Rendezvous.Threads
open Backends (Bytes)

variable {R : Type} [Field R] [LinearOrder R]

structure Setting (R : Type) where
  arith : Arith R
  hash : Bytes → Bytes → UInt64
  backends : List (WeightedBackend R)

variable (p : Setting R)

inductive Pc where
  | idle
  | visiting (key : Bytes) (rest : List (Index p.backends))
      (best : Option (Index p.backends) × F64 R)
  | returned (r : Option (Index p.backends))

structure World where
  alive : Index p.backends → Bool
  calls : Nat → Pc p

inductive Label where
  | flip (i : Index p.backends) (flag : Bool)
  | begin (t : Nat) (key : Bytes)
  | step (t : Nat)

variable {p}

def goto (x : World p) (t : Nat) (pc : Pc p) : World p :=
  {x with calls := Function.update x.calls t pc}

def start (p : Setting R) (key : Bytes) : Pc p :=
  if p.backends = [] then .returned none else .visiting key (List.finRange _) (none,.negInf)

def callStep (t : Nat) (x : World p) : World p :=
  match x.calls t with
  | .visiting _ [] best => goto x t (.returned best.1)
  | .visiting key (i::rest) best =>
      goto x t (.visiting key rest (visit p.arith p.hash p.backends x.alive key best i))
  | _ => x

def Resting : Pc p → Prop
  | .visiting _ _ _ => False
  | _ => True

inductive Step : World p → Label p → World p → Prop where
  | flip {x} (i : Index p.backends) (flag : Bool) :
      Step x (.flip i flag) {x with alive := Function.update x.alive i flag}
  | begin {x} (t : Nat) (key : Bytes) (resting : Resting (x.calls t)) :
      Step x (.begin t key) (goto x t (start p key))
  | step {x} (t : Nat) : Step x (.step t) (callStep t x)

def system (p : Setting R) : Transition.System (World p) (Label p) where
  init x := ∀ t, x.calls t = .idle
  step := Step

def Label.change : Label p → Option (Index p.backends × Bool)
  | .flip i flag => some (i,flag)
  | _ => none

def changes (labels : List (Label p)) : List (Index p.backends × Bool) :=
  labels.filterMap Label.change

/- Call `t`, begun with `key` when the flags were `alive`: what it has computed so
far is the loop over the flags it has loaded. -/
def Progress (alive : Index p.backends → Bool) (key : Bytes)
    (stores : List (Index p.backends × Bool)) (pc : Pc p) : Prop :=
  match pc with
  | .idle => False
  | .visiting k rest best => k = key ∧ p.backends ≠ [] ∧ ∃ visited view,
      List.finRange _ = visited ++ rest ∧ Moments.Loaded alive stores visited view ∧
      best = visited.foldl (visit p.arith p.hash p.backends view key) (none,.negInf)
  | .returned r => ∃ view, (∀ i, Moments.Between alive stores i (view i)) ∧
      r = next p.arith p.hash p.backends view key

omit [Field R] [LinearOrder R] in
theorem gotoCall (x : World p) (t : Nat) (pc : Pc p) : (goto x t pc).calls t = pc :=
  Function.update_self ..

omit [Field R] [LinearOrder R] in
theorem callOther (x : World p) {t u : Nat} (apart : u ≠ t) (pc : Pc p) :
    (goto x t pc).calls u = x.calls u := Function.update_of_ne apart ..

theorem stepOther (x : World p) {t u : Nat} (apart : u ≠ t) : (callStep t x).calls u = x.calls u := by
  unfold callStep
  split
  · exact callOther x apart _
  · exact callOther x apart _
  · rfl

theorem stepAlive (x : World p) (t : Nat) : (callStep t x).alive = x.alive := by
  unfold callStep
  split <;> rfl

theorem startProgress (alive : Index p.backends → Bool) (key : Bytes) :
    Progress alive key [] (start p key) := by
  by_cases empty : p.backends = []
  · rw [start,if_pos empty]
    exact ⟨alive,Moments.betweenNil,by rw [next,if_pos empty]⟩
  · rw [start,if_neg empty]
    exact ⟨rfl,empty,[],alive,rfl,fun i mem => absurd mem List.not_mem_nil,rfl⟩

theorem progressLater {alive : Index p.backends → Bool} {key stores pc}
    (progress : Progress alive key stores pc) (more : List (Index p.backends × Bool)) :
    Progress alive key (stores ++ more) pc := by
  cases pc with
  | idle => exact progress
  | visiting k rest best =>
    obtain ⟨same,some,visited,view,all,loaded,folded⟩ := progress
    exact ⟨same,some,visited,view,all,Moments.loadedLater loaded more,folded⟩
  | returned r =>
    obtain ⟨view,between,result⟩ := progress
    exact ⟨view,fun i => Moments.betweenLater (between i) more,result⟩

theorem foldView {view other : Index p.backends → Bool} {visited : List (Index p.backends)}
    (agree : ∀ i ∈ visited, other i = view i) (key : Bytes)
    (best : Option (Index p.backends) × F64 R) :
    visited.foldl (visit p.arith p.hash p.backends other key) best =
      visited.foldl (visit p.arith p.hash p.backends view key) best := by
  induction visited generalizing best with
  | nil => rfl
  | cons i rest ih =>
    rw [List.foldl_cons,List.foldl_cons,ih fun j mem => agree j (List.mem_cons_of_mem i mem)]
    simp only [visit,agree i List.mem_cons_self]

theorem visitProgress {alive now : Index p.backends → Bool} {key stores i rest best}
    (between : ∀ i, Moments.Between alive stores i (now i))
    (progress : Progress alive key stores (.visiting key (i::rest) best)) :
    Progress alive key stores
      (.visiting key rest (visit p.arith p.hash p.backends now key best i)) := by
  obtain ⟨_,some,visited,view,all,loaded,folded⟩ := progress
  have fresh : ∀ j ∈ visited, j ≠ i := by
    have once := List.nodup_finRange p.backends.length
    rw [all] at once
    exact fun j mem => (List.nodup_append.mp once).2.2 j mem i List.mem_cons_self
  have agree : ∀ j ∈ visited, Function.update view i (now i) j = view j :=
    fun j mem => Function.update_of_ne (fresh j mem) ..
  refine ⟨rfl,some,visited ++ [i],Function.update view i (now i),by simp [all],
    Moments.loadedNext loaded between i,?_⟩
  rw [List.foldl_append,foldView agree,← folded]
  simp only [List.foldl_cons,List.foldl_nil,visit,Function.update_self]

theorem callProgress {alive : Index p.backends → Bool} {key stores t} {x : World p}
    (between : ∀ i, Moments.Between alive stores i (x.alive i))
    (progress : Progress alive key stores (x.calls t)) :
    Progress alive key stores ((callStep t x).calls t) := by
  cases pc : x.calls t with
  | idle =>
    rw [pc] at progress
    exact progress.elim
  | returned r =>
    rw [pc] at progress
    simpa only [callStep,pc] using progress
  | visiting k rest best =>
    rw [pc] at progress
    have same : k = key := progress.1
    subst same
    cases rest with
    | cons i rest =>
      simp only [callStep,pc,gotoCall]
      exact visitProgress between progress
    | nil =>
      simp only [callStep,pc,gotoCall]
      obtain ⟨_,some,visited,view,all,loaded,folded⟩ := progress
      rw [List.append_nil] at all
      refine ⟨view,fun i => loaded i (all ▸ List.mem_finRange i),?_⟩
      rw [next,if_neg some,all,← folded]

theorem runProgress {x y : World p} {t key labels} (ran : Transition.Run (system p)
    (goto x t (start p key)) labels y) (alone : ∀ other, .begin t other ∉ labels) :
    (∀ i, Moments.Between x.alive (changes labels) i (y.alive i)) ∧
      Progress x.alive key (changes labels) (y.calls t) := by
  induction ran with
  | nil => exact ⟨Moments.betweenNil,by rw [gotoCall]; exact startProgress x.alive key⟩
  | @step labels y label z ran moved ih =>
    obtain ⟨between,progress⟩ := ih fun other mem => alone other (List.mem_append_left _ mem)
    rw [changes,List.filterMap_append]
    cases moved with
    | flip i flag =>
      exact ⟨Moments.betweenStore between i flag,progressLater progress _⟩
    | begin u other resting =>
      have apart : t ≠ u := by
        intro same
        subst same
        exact alone other (List.mem_append_right _ List.mem_cons_self)
      refine ⟨fun i => Moments.betweenLater (between i) _,?_⟩
      rw [callOther y apart]
      exact progressLater progress _
    | step u =>
      simp only [List.filterMap_cons,Label.change,List.filterMap_nil,List.append_nil]
      rw [stepAlive]
      refine ⟨between,?_⟩
      by_cases same : t = u
      · subst same
        exact callProgress between progress
      · rw [stepOther y same]
        exact progress

theorem answersView (p : Setting R) {x y : World p} {t key labels r}
    (ran : Transition.Run (system p) (goto x t (start p key)) labels y)
    (alone : ∀ other, .begin t other ∉ labels) (answered : y.calls t = .returned r) :
    ∃ view, (∀ i, Moments.Between x.alive (changes labels) i (view i)) ∧
      r = next p.arith p.hash p.backends view key := by
  obtain ⟨_,progress⟩ := runProgress ran alone
  rw [answered] at progress
  exact progress

noncomputable def twoBackends : Setting ℝ :=
  ⟨exactArith,hashWithBackend Backends.fnv1a,
    [⟨Backends.localhost 10000,.fin 1⟩,⟨Backends.localhost 10001,.fin 1⟩]⟩

noncomputable def first : Index twoBackends.backends := ⟨0,Nat.two_pos⟩

noncomputable def second : Index twoBackends.backends := ⟨1,Nat.one_lt_two⟩

noncomputable def secondUp : World twoBackends := ⟨fun i => decide (i = second),fun _ => .idle⟩

noncomputable def crossing : List (Label twoBackends) :=
  [.step 0,.flip first true,.flip second false,.step 0,.step 0]

noncomputable def crossed (key : Bytes) : World twoBackends :=
  callStep 0 (callStep 0 ⟨Function.update (Function.update
    (callStep 0 (goto secondUp 0 (start twoBackends key))).alive first true) second false,
      (callStep 0 (goto secondUp 0 (start twoBackends key))).calls⟩)

theorem crossedRun (key : Bytes) : Transition.Run (system twoBackends)
    (goto secondUp 0 (start twoBackends key)) crossing (crossed key) := by
  have loads : ∀ x, (system twoBackends).step x (.step 0) (callStep 0 x) := fun _ => Step.step 0
  have stores : ∀ x i flag, (system twoBackends).step x (.flip i flag)
      {x with alive := Function.update x.alive i flag} := fun _ i flag => Step.flip i flag
  exact .step (.step (.step (.step (.step .nil (loads _)) (stores _ first true))
    (stores _ second false)) (loads _)) (loads _)

theorem crossedReturns (key : Bytes) : (crossed key).calls 0 = .returned none := by
  have some : twoBackends.backends ≠ [] := List.cons_ne_nil _ _
  have all : List.finRange twoBackends.backends.length = [first,second] := rfl
  have apart : first ≠ second := fun same => Nat.zero_ne_one (congrArg Fin.val same)
  have entered : goto secondUp 0 (start twoBackends key) =
      goto secondUp 0 (.visiting key [first,second] (none,.negInf)) := by
    rw [start,if_neg some,all]
  have missed : callStep 0 (goto secondUp 0 (start twoBackends key)) =
      goto secondUp 0 (.visiting key [second] (none,.negInf)) := by
    rw [entered]
    simp [callStep,goto,visit,secondUp,apart]
  simp only [crossed,missed]
  simp [callStep,goto,visit]

theorem crossedAnswers : ∃ view,
    (∀ i, Moments.Between secondUp.alive (changes crossing) i (view i)) ∧
    none = next exactArith (hashWithBackend Backends.fnv1a) twoBackends.backends view [10,0,0,1] :=
  answersView twoBackends (crossedRun [10,0,0,1]) (fun other mem => by simp [crossing] at mem)
    (crossedReturns [10,0,0,1])

end UdpBalancer.Rendezvous.Threads
