import UdpBalancer.Ledger
import UdpBalancer.Transition

/-! Trees of tasks that are told to stop. A task loops until it hears of it on a
channel of capacity one, tells its children one after the other, waits for those of
them that it awaits and stops. A task without children may have other work in hand,
of which nobody knows when it ends, and may fail. -/
namespace UdpBalancer.Supervision

structure Channel where
  queued : Bool
  sender : Bool
  receiver : Bool
  deriving DecidableEq, Repr

namespace Channel

def fresh : Channel := ⟨false,true,true⟩

-- `none` while the sender has to wait; that nobody receives is no reason to wait
def send (c : Channel) : Option Channel :=
  if c.receiver then if c.queued then none else some {c with queued := true} else some c

def recv (c : Channel) : Option Channel :=
  if c.queued then some {c with queued := false} else if c.sender then none else some c

def kept (c : Channel) (keeps : Bool) : Channel := {c with sender := c.sender && keeps}

def signalled (c : Channel) : Channel := {c with queued := true}

end Channel

inductive Pc (ι : Type) where
  | looping
  | telling (rest : List ι)
  | joining (rest : List ι)
  | stopped
  deriving DecidableEq, Repr

def Pc.untold {ι : Type} (children : List ι) : Pc ι → List ι
  | .looping => children
  | .telling rest => rest
  | _ => []

/- `works` are the tasks with something else to do, `drains` those of them that hear
amid their work and finish it before they stop, `fails` those that may end before they
are told, `doomed` those that never get to their loop, and `keeps` those whose sender
outlives its message. -/
structure Tree (ι : Type) where
  root : ι
  children : ι → List ι
  awaited : ι → List ι
  works : ι → Bool
  drains : ι → Bool
  fails : ι → Bool
  doomed : ι → Bool
  keeps : ι → Bool
  depth : ι → Nat
  height : Nat
  once : ∀ i, (children i).Nodup
  awaits : ∀ i, ∀ j ∈ awaited i, j ∈ children i
  leaves : ∀ i, fails i = true → children i = []
  workers : ∀ i, works i = true → children i = []
  dooms : ∀ i, doomed i = true → fails i = true
  single : ∀ i k j, j ∈ children i → j ∈ children k → i = k
  rootless : ∀ i, root ∉ children i
  parent : ∀ j, j ≠ root → ∃ i, j ∈ children i
  deeper : ∀ i, ∀ j ∈ children i, depth j = depth i+1
  bounded : ∀ i, depth i ≤ height

structure World (ι : Type) where
  pc : ι → Pc ι
  busy : ι → Bool
  channel : ι → Channel

inductive Move where
  | begin
  | finish
  | fail
  | hear
  | tell
  | told
  | join
  | stop
  deriving DecidableEq, Repr

inductive Label (ι : Type) where
  | interrupt
  | task (i : ι) (move : Move)
  deriving DecidableEq, Repr

variable {ι : Type} [DecidableEq ι]

namespace World

def go (w : World ι) (i : ι) (pc : Pc ι) : World ι := {w with pc := Function.update w.pc i pc}

def set (w : World ι) (i : ι) (c : Channel) : World ι :=
  {w with channel := Function.update w.channel i c}

end World

namespace Tree

def closed (T : Tree ι) (w : World ι) (i j : ι) : Channel :=
  if j = i then {w.channel j with receiver := false}
  else if j ∈ T.children i then {w.channel j with sender := false}
  else w.channel j

def failed (T : Tree ι) (w : World ι) (i : ι) : World ι :=
  {w with channel := T.closed w i,busy := Function.update w.busy i false}.go i .stopped

-- a loop turns to its channel between two pieces of work
def hears (T : Tree ι) (w : World ι) (i : ι) : Bool :=
  !T.doomed i && (T.drains i || !w.busy i)

def act (T : Tree ι) (w : World ι) (i : ι) : Pc ι → Move → Option (World ι)
  | .looping,.begin =>
    if T.works i && !w.busy i then some {w with busy := Function.update w.busy i true} else none
  | _,.finish =>
    if w.busy i then some {w with busy := Function.update w.busy i false} else none
  | .looping,.fail => if T.fails i then some (T.failed w i) else none
  | .looping,.hear =>
    if T.hears w i then (w.channel i).recv.map fun c => (w.set i c).go i (.telling (T.children i))
    else none
  | .telling (j::rest),.tell =>
    (w.channel j).send.map fun c => (w.set j (c.kept (T.keeps j))).go i (.telling rest)
  | .telling [],.told => some (w.go i (.joining (T.awaited i)))
  | .joining (j::rest),.join => if w.pc j = .stopped then some (w.go i (.joining rest)) else none
  | .joining [],.stop =>
    if w.busy i then none else some ({w with channel := T.closed w i}.go i .stopped)
  | _,_ => none

def step (T : Tree ι) (w : World ι) : Label ι → Option (World ι)
  | .interrupt =>
    if (w.channel T.root).queued then none else some (w.set T.root (w.channel T.root).signalled)
  | .task i move => T.act w i (w.pc i) move

def start : World ι := ⟨fun _ => .looping,fun _ => false,fun _ => .fresh⟩

def run (T : Tree ι) (w : World ι) (labels : List (Label ι)) : Option (World ι) :=
  labels.foldlM T.step w

def system (T : Tree ι) : Transition.System (World ι) (Label ι) :=
  Transition.computed (fun w => w = start) T.step

inductive Took (T : Tree ι) (w : World ι) : Label ι → World ι → Prop where
  | interrupted : Took T w .interrupt
      (w.set T.root (w.channel T.root).signalled)
  | begun {i} (here : w.pc i = .looping) (works : T.works i = true) (free : w.busy i = false) :
      Took T w (.task i .begin) {w with busy := Function.update w.busy i true}
  | finished {i} (busy : w.busy i = true) :
      Took T w (.task i .finish) {w with busy := Function.update w.busy i false}
  | failed {i} (here : w.pc i = .looping) (fails : T.fails i = true) :
      Took T w (.task i .fail) (T.failed w i)
  | heard {i c} (here : w.pc i = .looping) (hears : T.hears w i = true)
      (received : (w.channel i).recv = some c) : Took T w (.task i .hear)
        ((w.set i c).go i (.telling (T.children i)))
  | sent {i j rest c} (here : w.pc i = .telling (j::rest)) (taken : (w.channel j).send = some c) :
      Took T w (.task i .tell) ((w.set j (c.kept (T.keeps j))).go i (.telling rest))
  | allTold {i} (here : w.pc i = .telling []) :
      Took T w (.task i .told) (w.go i (.joining (T.awaited i)))
  | joined {i j rest} (here : w.pc i = .joining (j::rest)) (gone : w.pc j = .stopped) :
      Took T w (.task i .join) (w.go i (.joining rest))
  | ended {i} (here : w.pc i = .joining []) (free : w.busy i = false) :
      Took T w (.task i .stop) ({w with channel := T.closed w i}.go i .stopped)

theorem stepTook {T : Tree ι} {w u : World ι} {label} (moved : T.step w label = some u) :
    Took T w label u := by
  cases label with
  | interrupt =>
    obtain ⟨_,same⟩ := Option.ite_none_left_eq_some.mp moved
    cases Option.some.inj same
    exact .interrupted
  | task i move =>
    have moved : T.act w i (w.pc i) move = some u := moved
    generalize here : w.pc i = pc at moved
    unfold act at moved
    split at moved
    · obtain ⟨ready,same⟩ := Option.ite_none_right_eq_some.mp moved
      cases Option.some.inj same
      obtain ⟨works,idle⟩ := Bool.and_eq_true_iff.mp ready
      exact .begun here works (by simpa using idle)
    · obtain ⟨busy,same⟩ := Option.ite_none_right_eq_some.mp moved
      cases Option.some.inj same
      exact .finished busy
    · obtain ⟨fails,same⟩ := Option.ite_none_right_eq_some.mp moved
      cases Option.some.inj same
      exact .failed here fails
    · obtain ⟨hears,same⟩ := Option.ite_none_right_eq_some.mp moved
      obtain ⟨c,received,rfl⟩ := Option.map_eq_some_iff.mp same
      exact .heard here hears received
    · obtain ⟨c,taken,rfl⟩ := Option.map_eq_some_iff.mp moved
      exact .sent here taken
    · cases Option.some.inj moved
      exact .allTold here
    · obtain ⟨gone,same⟩ := Option.ite_none_right_eq_some.mp moved
      cases Option.some.inj same
      exact .joined here gone
    · obtain ⟨free,same⟩ := Option.ite_none_left_eq_some.mp moved
      cases Option.some.inj same
      exact .ended here (Bool.eq_false_of_not_eq_true free)
    · contradiction

def toTell (T : Tree ι) (w : World ι) (p : ι) : List ι := (w.pc p).untold (T.children p)

def Sound (T : Tree ι) (w : World ι) (i : ι) : Pc ι → Prop
  | .looping => True
  | .telling rest => rest <:+ T.children i
  | .joining rest => rest <:+ T.awaited i ∧ ∀ j ∈ T.awaited i, j ∈ rest ∨ w.pc j = .stopped
  | .stopped => ∀ j ∈ T.awaited i, w.pc j = .stopped

inductive Waits (T : Tree ι) (w : World ι) (j : ι) : Prop where
  | loops (looping : w.pc j = .looping) (fresh : w.channel j = .fresh)
  | failed (stopped : w.pc j = .stopped) (fails : T.fails j = true)
      (receiver : (w.channel j).receiver = false)

structure Inv (T : Tree ι) (w : World ι) : Prop where
  sound : ∀ i, T.Sound w i (w.pc i)
  untold : ∀ p, ∀ j ∈ T.toTell w p, T.Waits w j
  told : ∀ p, ∀ j ∈ T.children p, j ∉ T.toTell w p → w.pc j = .looping →
    (w.channel j).queued = true
  root : (w.channel T.root).sender = true
  busy : ∀ i, w.busy i = true → T.works i = true
  idle : ∀ i, w.pc i = .stopped → w.busy i = false

variable {T : Tree ι} {w u : World ι}

omit [DecidableEq ι] in
theorem soundAt (inv : Inv T w) {i : ι} {pc : Pc ι} (here : w.pc i = pc) : T.Sound w i pc :=
  here ▸ inv.sound i

omit [DecidableEq ι] in
theorem toTellAt {i : ι} {pc : Pc ι} (here : w.pc i = pc) :
    T.toTell w i = pc.untold (T.children i) := congrArg (Pc.untold (T.children i)) here

omit [DecidableEq ι] in
theorem toTellSame {p : ι} (same : u.pc p = w.pc p) : T.toTell u p = T.toTell w p :=
  toTellAt same

omit [DecidableEq ι] in
theorem toTellChild (inv : Inv T w) {p j : ι} (mem : j ∈ T.toTell w p) : j ∈ T.children p := by
  cases here : w.pc p with
  | looping =>
    rw [toTellAt here] at mem
    exact mem
  | telling rest =>
    rw [toTellAt here] at mem
    exact List.IsSuffix.subset (soundAt inv here) mem
  | joining rest =>
    rw [toTellAt here] at mem
    contradiction
  | stopped =>
    rw [toTellAt here] at mem
    contradiction

omit [DecidableEq ι] in
theorem leftKnown (inv : Inv T w) {i : ι} (left : w.pc i ≠ .looping) (alive : w.pc i ≠ .stopped)
    (p : ι) : i ∉ T.toTell w p := by
  intro mem
  cases inv.untold p i mem with
  | loops looping fresh => exact left looping
  | failed stopped fails receiver => exact alive stopped

omit [DecidableEq ι] in
theorem waitsKept {j : ι} (waits : T.Waits w j) (pc : u.pc j = w.pc j)
    (channel : u.channel j = w.channel j) : T.Waits u j := by
  cases waits with
  | loops looping fresh => exact .loops (pc.trans looping) (channel.trans fresh)
  | failed stopped fails receiver =>
    exact .failed (pc.trans stopped) fails ((congrArg Channel.receiver channel).trans receiver)

structure Moves (T : Tree ι) (w u : World ι) (i : ι) (pc : Pc ι) : Prop where
  here : u.pc i = pc
  others : ∀ j, j ≠ i → u.pc j = w.pc j
  leaves : pc ≠ .looping
  sound : T.Sound w i pc
  alive : w.pc i ≠ .stopped
  known : ∀ p, i ∉ T.toTell w p
  fewer : ∀ j ∈ pc.untold (T.children i), j ∈ T.toTell w i
  quiet : ∀ p, ∀ j ∈ T.toTell u p, u.channel j = w.channel j
  queued : ∀ j, j ≠ i → (w.channel j).queued = true → (u.channel j).queued = true
  tells : ∀ j ∈ T.toTell w i, j ∉ pc.untold (T.children i) → w.pc j = .looping →
    (u.channel j).queued = true
  root : (u.channel T.root).sender = true
  busy : u.busy = w.busy
  idle : pc = .stopped → w.busy i = false

omit [DecidableEq ι] in
theorem soundKept (gone : ∀ j, w.pc j = .stopped → u.pc j = .stopped) {p : ι} {pc : Pc ι}
    (sound : T.Sound w p pc) : T.Sound u p pc := by
  cases pc with
  | looping => trivial
  | telling rest => exact sound
  | joining rest => exact ⟨sound.1,fun j mem => (sound.2 j mem).imp_right (gone j)⟩
  | stopped => exact fun j mem => gone j (sound j mem)

theorem movesInv {i : ι} {pc : Pc ι} (inv : Inv T w) (moves : Moves T w u i pc) : Inv T u := by
  have gone : ∀ j, w.pc j = .stopped → u.pc j = .stopped := by
    intro j stopped
    by_cases same : j = i
    · exact absurd (same ▸ stopped) moves.alive
    · exact (moves.others j same).trans stopped
  have own : T.toTell u i = pc.untold (T.children i) := toTellAt moves.here
  have toTell : ∀ p, ∀ j ∈ T.toTell u p, j ∈ T.toTell w p := by
    intro p j mem
    by_cases same : p = i
    · subst same
      exact moves.fewer j (own ▸ mem)
    · exact toTellSame (moves.others p same) ▸ mem
  refine ⟨fun p => ?_,fun p j mem => ?_,fun p j mem known looping => ?_,moves.root,
    moves.busy ▸ inv.busy,fun p stopped => ?_⟩
  · by_cases same : p = i
    · subst same
      rw [moves.here]
      exact soundKept gone moves.sound
    · rw [moves.others p same]
      exact soundKept gone (inv.sound p)
  · have apart : j ≠ i := fun same => moves.known p (same ▸ toTell p j mem)
    exact waitsKept (inv.untold p j (toTell p j mem)) (moves.others j apart) (moves.quiet p j mem)
  · have apart : j ≠ i := by
      intro same
      rw [same,moves.here] at looping
      exact moves.leaves looping
    have looped := (moves.others j apart).symm.trans looping
    by_cases before : j ∈ T.toTell w p
    · by_cases same : p = i
      · subst same
        exact moves.tells j before (own ▸ known) looped
      · exact absurd (toTellSame (moves.others p same) ▸ before) known
    · exact moves.queued j apart (inv.told p j mem before looped)
  · rw [moves.busy]
    by_cases same : p = i
    · subst same
      exact moves.idle (moves.here.symm.trans stopped)
    · exact inv.idle p ((moves.others p same).symm.trans stopped)

theorem goOther (w : World ι) (pc : Pc ι) {i j : ι} (apart : j ≠ i) : (w.go i pc).pc j = w.pc j :=
  Function.update_of_ne apart ..

theorem toTellGo (w : World ι) (i : ι) (pc : Pc ι) :
    T.toTell (w.go i pc) i = pc.untold (T.children i) := by
  have here : (w.go i pc).pc i = pc := Function.update_self ..
  exact toTellAt here

theorem setOther (w : World ι) (c : Channel) {i j : ι} (apart : j ≠ i) :
    (w.set i c).channel j = w.channel j :=
  Function.update_of_ne apart ..

theorem heardMoves (inv : Inv T w) {i : ι} {c : Channel} (here : w.pc i = .looping)
    (received : (w.channel i).recv = some c) :
    Moves T w ((w.set i c).go i (.telling (T.children i))) i (.telling (T.children i)) := by
  have known : ∀ p, i ∉ T.toTell w p := by
    intro p mem
    cases inv.untold p i mem with
    | loops looping fresh =>
      rw [fresh] at received
      contradiction
    | failed stopped fails receiver =>
      rw [here] at stopped
      contradiction
  have sender : c.sender = (w.channel i).sender := by
    unfold Channel.recv at received
    split at received
    · cases received
      exact rfl
    · obtain ⟨_,same⟩ := Option.ite_none_left_eq_some.mp received
      cases same
      exact rfl
  refine ⟨Function.update_self ..,fun j apart => goOther _ _ apart,by simp,List.suffix_refl _,
    by simp [here],known,?_,?_,?_,?_,?_,rfl,nofun⟩
  · exact fun j mem => toTellAt here ▸ mem
  · intro p j mem
    have apart : j ≠ i := by
      rintro rfl
      by_cases same : p = j
      · subst same
        rw [toTellGo] at mem
        exact known p (toTellAt here ▸ mem)
      · exact known p (toTellSame (goOther _ _ same) ▸ mem)
    exact setOther w c apart
  · intro j apart queued
    exact (congrArg Channel.queued (setOther w c apart)).trans queued
  · intro j mem told _
    rw [toTellAt here] at mem
    exact absurd mem told
  · by_cases same : T.root = i
    · subst same
      have first : ((w.set T.root c).go T.root (.telling (T.children T.root))).channel T.root = c :=
        Function.update_self ..
      rw [first,sender]
      exact inv.root
    · exact (congrArg Channel.sender (setOther w c same)).trans inv.root

theorem sentMoves (inv : Inv T w) {i j : ι} {rest : List ι} {c : Channel}
    (here : w.pc i = .telling (j::rest)) (taken : (w.channel j).send = some c) :
    Moves T w ((w.set j (c.kept (T.keeps j))).go i (.telling rest)) i (.telling rest) := by
  have before : T.toTell w i = j::rest := toTellAt here
  have suffix : j::rest <:+ T.children i := soundAt inv here
  have first : j ∈ T.toTell w i := before ▸ List.mem_cons_self
  have child : j ∈ T.children i := suffix.subset List.mem_cons_self
  have later : j ∉ rest := (List.nodup_cons.mp ((T.once i).sublist suffix.sublist)).1
  have stays : (w.channel j).queued = true → c.queued = true := by
    intro queued
    unfold Channel.send at taken
    split at taken
    · contradiction
    · exact Option.some.inj taken ▸ queued
  have queues : w.pc j = .looping → c.queued = true := by
    intro looping
    cases inv.untold i j first with
    | loops _ fresh =>
      rw [fresh] at taken
      cases taken
      exact rfl
    | failed stopped _ _ =>
      rw [stopped] at looping
      contradiction
  have told : ((w.set j (c.kept (T.keeps j))).go i (.telling rest)).channel j =
      c.kept (T.keeps j) := Function.update_self ..
  refine ⟨Function.update_self ..,fun k apart => goOther _ _ apart,by simp,
    (List.suffix_cons j rest).trans suffix,by simp [here],
    leftKnown inv (by simp [here]) (by simp [here]),?_,?_,?_,?_,?_,rfl,nofun⟩
  · exact fun k mem => before ▸ List.mem_cons_of_mem j mem
  · intro p k mem
    have apart : k ≠ j := by
      intro same
      subst same
      by_cases own : p = i
      · subst own
        rw [toTellGo] at mem
        exact later mem
      · have other := toTellChild inv (toTellSame (goOther _ _ own) ▸ mem)
        exact own (T.single p i k other child)
    exact setOther w _ apart
  · intro k _ queued
    by_cases same : k = j
    · subst same
      exact (congrArg Channel.queued told).trans (stays queued)
    · exact (congrArg Channel.queued (setOther w _ same)).trans queued
  · intro k mem gone looping
    rw [before] at mem
    rcases List.mem_cons.mp mem with rfl | still
    · exact (congrArg Channel.queued told).trans (queues looping)
    · exact absurd still gone
  · have apart : T.root ≠ j := fun same => T.rootless i (same ▸ child)
    exact (congrArg Channel.sender (setOther w _ apart)).trans inv.root

theorem allToldMoves (inv : Inv T w) {i : ι} (here : w.pc i = .telling []) :
    Moves T w (w.go i (.joining (T.awaited i))) i (.joining (T.awaited i)) := by
  have before : T.toTell w i = [] := toTellAt here
  refine ⟨Function.update_self ..,fun k apart => goOther _ _ apart,by simp,
    ⟨List.suffix_refl _,fun j mem => .inl mem⟩,by simp [here],
    leftKnown inv (by simp [here]) (by simp [here]),fun j mem => by contradiction,
    fun _ _ _ => rfl,fun _ _ queued => queued,?_,inv.root,rfl,nofun⟩
  simp [before]

theorem joinedMoves (inv : Inv T w) {i j : ι} {rest : List ι} (here : w.pc i = .joining (j::rest))
    (gone : w.pc j = .stopped) : Moves T w (w.go i (.joining rest)) i (.joining rest) := by
  have before : T.toTell w i = [] := toTellAt here
  obtain ⟨suffix,waits⟩ : _ ∧ _ := soundAt inv here
  refine ⟨Function.update_self ..,fun k apart => goOther _ _ apart,by simp,
    ⟨(List.suffix_cons j rest).trans suffix,fun k mem => ?_⟩,by simp [here],
    leftKnown inv (by simp [here]) (by simp [here]),fun j mem => by contradiction,
    fun _ _ _ => rfl,fun _ _ queued => queued,?_,inv.root,rfl,nofun⟩
  · rcases waits k mem with waiting | stopped
    · rcases List.mem_cons.mp waiting with rfl | still
      · exact .inr gone
      · exact .inl still
    · exact .inr stopped
  · simp [before]

theorem closedQueued (w : World ι) (i j : ι) :
    (T.closed w i j).queued = (w.channel j).queued := by
  unfold closed
  split
  · exact rfl
  · split <;> exact rfl

theorem closedRoot (inv : Inv T w) (i : ι) : (T.closed w i T.root).sender = true := by
  rw [closed,if_neg (T.rootless i)]
  split
  · exact inv.root
  · exact inv.root

theorem endedMoves (inv : Inv T w) {i : ι} (here : w.pc i = .joining [])
    (free : w.busy i = false) :
    Moves T w ({w with channel := T.closed w i}.go i .stopped) i .stopped := by
  have before : T.toTell w i = [] := toTellAt here
  obtain ⟨_,waits⟩ : _ ∧ _ := soundAt inv here
  have known := leftKnown inv (i := i) (by simp [here]) (by simp [here])
  refine ⟨Function.update_self ..,fun k apart => goOther _ _ apart,by simp,fun j mem => ?_,
    by simp [here],known,fun j mem => by contradiction,?_,fun j _ full => (closedQueued w i j).trans full,
    ?_,?_,rfl,fun _ => free⟩
  · rcases waits j mem with waiting | stopped
    · contradiction
    · exact stopped
  · intro p j mem
    have others : p ≠ i := by
      rintro rfl
      rw [toTellGo] at mem
      contradiction
    have mem : j ∈ T.toTell w p := toTellSame (goOther _ _ others) ▸ mem
    have apart : j ≠ i := fun same => known p (same ▸ mem)
    have foreign : j ∉ T.children i := fun child =>
      others (T.single p i j (toTellChild inv mem) child)
    show T.closed w i j = w.channel j
    rw [closed,if_neg apart,if_neg foreign]
  · simp [before]
  · exact closedRoot inv i

theorem failedInv (inv : Inv T w) {i : ι} (here : w.pc i = .looping) (fails : T.fails i = true) :
    Inv T (T.failed w i) := by
  have none : T.children i = [] := T.leaves i fails
  have stopped : (T.failed w i).pc i = .stopped := Function.update_self ..
  have others : ∀ j, j ≠ i → (T.failed w i).pc j = w.pc j := fun j apart =>
    goOther _ .stopped apart
  have gone : ∀ j, w.pc j = .stopped → (T.failed w i).pc j = .stopped := by
    intro j before
    by_cases same : j = i
    · exact same ▸ stopped
    · exact (others j same).trans before
  have apart : ∀ p, ∀ j ∈ T.toTell (T.failed w i) p, p ≠ i := by
    rintro p j mem rfl
    rw [toTellAt stopped] at mem
    contradiction
  have busy : ∀ j, (T.failed w i).busy j = true → T.works j = true := by
    intro j busy
    have held : Function.update w.busy i false j = true := busy
    rw [Function.update_apply] at held
    split at held
    · contradiction
    · exact inv.busy j held
  refine ⟨fun p => ?_,fun p j mem => ?_,fun p j mem known looping => ?_,closedRoot inv i,busy,fun j gone => ?_⟩
  · by_cases same : p = i
    · subst same
      rw [stopped]
      intro j mem
      exact absurd (none ▸ T.awaits p j mem) List.not_mem_nil
    · rw [others p same]
      exact soundKept gone (inv.sound p)
  · have waits := inv.untold p j (toTellSame (others p (apart p j mem)) ▸ mem)
    have closed : (T.failed w i).channel j = T.closed w i j := rfl
    by_cases same : j = i
    · subst same
      refine .failed stopped fails ?_
      rw [closed,Tree.closed,if_pos rfl]
    · refine waitsKept waits (others j same) ?_
      rw [closed,Tree.closed,if_neg same,none,if_neg List.not_mem_nil]
  · have own : p ≠ i := fun same => absurd (none ▸ same ▸ mem) List.not_mem_nil
    have other : j ≠ i := by
      rintro rfl
      rw [stopped] at looping
      contradiction
    rw [toTellSame (others p own)] at known
    exact (closedQueued w i j).trans (inv.told p j mem known ((others j other).symm.trans looping))
  · by_cases same : j = i
    · exact same ▸ Function.update_self ..
    · exact (Function.update_of_ne same ..).trans (inv.idle j ((others j same).symm.trans gone))

theorem stepInv (inv : Inv T w) {label} (moved : T.step w label = some u) : Inv T u := by
  cases stepTook moved with
  | interrupted =>
    have apart : ∀ p, ∀ j ∈ T.children p, j ≠ T.root := fun p j mem same =>
      T.rootless p (same ▸ mem)
    refine ⟨inv.sound,fun p j mem => ?_,fun p j mem told looping => ?_,?_,?_,?_⟩
    · exact waitsKept (inv.untold p j mem) rfl (setOther w _ (apart p j (toTellChild inv mem)))
    · exact (congrArg Channel.queued (setOther w _ (apart p j mem))).trans
        (inv.told p j mem told looping)
    · have here : (w.set T.root (w.channel T.root).signalled).channel T.root =
          (w.channel T.root).signalled := Function.update_self ..
      exact (congrArg Channel.sender here).trans inv.root
    · exact inv.busy
    · exact inv.idle
  | @begun i here works free =>
    refine ⟨inv.sound,fun p j mem => waitsKept (inv.untold p j mem) rfl rfl,inv.told,inv.root,
      fun j busy => ?_,fun j stopped => ?_⟩
    · simp only [Function.update_apply] at busy
      split at busy
      · rename_i same
        exact same ▸ works
      · exact inv.busy j busy
    · have apart : j ≠ i := by
        rintro rfl
        rw [here] at stopped
        contradiction
      exact (Function.update_of_ne apart ..).trans (inv.idle j stopped)
  | @finished i busy =>
    refine ⟨inv.sound,fun p j mem => waitsKept (inv.untold p j mem) rfl rfl,inv.told,inv.root,
      fun j busy => ?_,fun j stopped => ?_⟩
    · simp only [Function.update_apply] at busy
      split at busy
      · contradiction
      · exact inv.busy j busy
    · simp only [Function.update_apply]
      split
      · rfl
      · exact inv.idle j stopped
  | failed here fails => exact failedInv inv here fails
  | heard here hears received => exact movesInv inv (heardMoves inv here received)
  | sent here taken => exact movesInv inv (sentMoves inv here taken)
  | allTold here => exact movesInv inv (allToldMoves inv here)
  | joined here gone => exact movesInv inv (joinedMoves inv here gone)
  | ended here free => exact movesInv inv (endedMoves inv here free)

omit [DecidableEq ι] in
theorem startInv (T : Tree ι) : Inv T start where
  sound := fun _ => trivial
  untold := fun _ _ _ => .loops rfl rfl
  told := fun _ _ mem told _ => absurd mem told
  root := rfl
  busy := fun _ busy => by contradiction
  idle := fun _ _ => rfl

theorem reachableInv (reach : Transition.Reachable T.system w) : Inv T w := by
  refine Transition.invariant (Inv T) ?_ (fun _ _ _ inv moved => stepInv inv moved) reach
  intro s begins
  have same : s = start := begins
  exact same ▸ startInv T

def weight (T : Tree ι) (i : ι) : Pc ι → Nat
  | .looping => (T.children i).length+(T.awaited i).length+3
  | .telling rest => rest.length+(T.awaited i).length+2
  | .joining rest => rest.length+1
  | .stopped => 0

def work (T : Tree ι) [Fintype ι] (w : World ι) : Nat :=
  ∑ i, (T.weight i (w.pc i)+if w.busy i then 1 else 0)

end Tree

def Label.begins : Label ι → Bool
  | .task _ .begin => true
  | _ => false

def Label.progresses : Label ι → Bool
  | .interrupt => false
  | .task _ .begin => false
  | .task _ _ => true

namespace Tree
variable {T : Tree ι} {w u : World ι}

theorem goWork [Fintype ι] {i : ι} {pc : Pc ι} {v : World ι} (pcs : v.pc = w.pc)
    (busy : v.busy = w.busy) (lighter : T.weight i (w.pc i) = T.weight i pc+1) :
    T.work (v.go i pc)+1 = T.work w := by
  have same : ∀ j, j ≠ i → T.weight j ((v.go i pc).pc j)+(if (v.go i pc).busy j then 1 else 0) =
      T.weight j (w.pc j)+if w.busy j then 1 else 0 := by
    intro j apart
    rw [goOther v pc apart,pcs]
    exact congrArg (T.weight j (w.pc j)+if · j then 1 else 0) busy
  have total := Ledger.sumElsewhere same
  have here : (v.go i pc).pc i = pc := Function.update_self ..
  have still : (v.go i pc).busy i = w.busy i := congrFun busy i
  rw [here,still,lighter] at total
  unfold work
  omega

theorem failedWork [Fintype ι] {i : ι} (here : w.pc i = .looping) :
    T.work (T.failed w i)+1 ≤ T.work w := by
  have stopped : (T.failed w i).pc i = .stopped := Function.update_self ..
  have free : (T.failed w i).busy i = false := Function.update_self ..
  have same : ∀ j, j ≠ i → T.weight j ((T.failed w i).pc j)+
      (if (T.failed w i).busy j then 1 else 0) = T.weight j (w.pc j)+if w.busy j then 1 else 0 := by
    intro j apart
    have pc : (T.failed w i).pc j = w.pc j := goOther _ .stopped apart
    have busy : (T.failed w i).busy j = w.busy j := Function.update_of_ne apart ..
    rw [pc,busy]
  have total := Ledger.sumElsewhere same
  rw [stopped,free,here,weight,weight,if_neg Bool.false_ne_true] at total
  unfold work
  omega

theorem busyWork [Fintype ι] {i : ι} (before after : Bool) (here : w.busy i = before) :
    T.work {w with busy := Function.update w.busy i after}+(if before then 1 else 0) =
      T.work w+if after then 1 else 0 := by
  have same : ∀ j, j ≠ i → T.weight j (w.pc j)+(if Function.update w.busy i after j then 1 else 0) =
      T.weight j (w.pc j)+if w.busy j then 1 else 0 := by
    intro j apart
    rw [Function.update_of_ne apart]
  have total := Ledger.sumElsewhere same
  rw [Function.update_self,here] at total
  unfold work
  simp only
  omega

theorem stepWork [Fintype ι] {label : Label ι} (moved : T.step w label = some u) :
    T.work u+(if label.progresses then 1 else 0) ≤ T.work w+if label.begins then 1 else 0 := by
  cases stepTook moved with
  | interrupted => exact le_refl _
  | begun here works free => exact (busyWork false true free).le
  | finished busy => exact (busyWork true false busy).le
  | failed here fails => exact failedWork here
  | heard here hears received => exact (goWork (w := w) rfl rfl (by rw [here,weight,weight])).le
  | sent here taken =>
    exact (goWork (w := w) rfl rfl (by rw [here,weight,weight,List.length_cons]; omega)).le
  | allTold here =>
    exact (goWork (w := w) rfl rfl (by rw [here,weight,weight,List.length_nil]; omega)).le
  | joined here gone => exact (goWork (w := w) rfl rfl (by rw [here,weight,weight,List.length_cons])).le
  | ended here free => exact (goWork (w := w) rfl rfl (by rw [here,weight,weight,List.length_nil])).le

theorem runWork [Fintype ι] {labels : List (Label ι)} (ran : T.run w labels = some u) :
    T.work u+labels.countP Label.progresses ≤ T.work w+labels.countP Label.begins := by
  induction labels generalizing w with
  | nil =>
    cases Option.some.inj ran
    exact le_refl _
  | cons label rest ih =>
    obtain ⟨v,moved,later⟩ := Option.bind_eq_some_iff.mp ran
    have first := stepWork moved
    have others := ih later
    rw [List.countP_cons,List.countP_cons]
    omega

omit [DecidableEq ι] in
theorem fromRoot (T : Tree ι) (property : ι → Prop) (root : property T.root)
    (child : ∀ i, property i → ∀ j ∈ T.children i, property j) (i : ι) : property i := by
  have all : ∀ n i, T.depth i = n → property i := by
    intro n
    induction n with
    | zero =>
      intro i depth
      by_cases same : i = T.root
      · exact same ▸ root
      · obtain ⟨p,mem⟩ := T.parent i same
        have deeper := T.deeper p i mem
        omega
    | succ n ih =>
      intro i depth
      by_cases same : i = T.root
      · exact same ▸ root
      · obtain ⟨p,mem⟩ := T.parent i same
        have deeper := T.deeper p i mem
        exact child p (ih p (by omega)) i mem
  exact all _ i rfl

omit [DecidableEq ι] in
theorem calm (inv : Inv T w) (quiet : w.pc T.root = .looping) (i : ι) :
    w.pc i = .looping ∨ w.pc i = .stopped ∧ T.fails i = true := by
  refine T.fromRoot (fun i => w.pc i = .looping ∨ w.pc i = .stopped ∧ T.fails i = true)
    (.inl quiet) (fun p calm j mem => ?_) i
  rcases calm with looping | ⟨_,fails⟩
  · cases inv.untold p j (toTellAt looping ▸ mem) with
    | loops looping fresh => exact .inl looping
    | failed stopped fails receiver => exact .inr ⟨stopped,fails⟩
  · exact absurd (T.leaves p fails ▸ mem) List.not_mem_nil

/- What may still happen waits for nothing in the tree: new work, the end of some, or
the failure of a task that may as well go on. -/
def Stuck (T : Tree ι) (w : World ι) : Prop :=
  ∀ i move, T.step w (.task i move) ≠ none →
    move = .begin ∨ move = .finish ∨ move = .fail ∧ T.doomed i = false

def stuck (T : Tree ι) [Fintype ι] (w : World ι) : Bool :=
  decide (∀ i, ∀ move ∈ [Move.hear,.tell,.told,.join,.stop],
    (T.step w (.task i move)).isNone = true) &&
  decide (∀ i, T.doomed i = true → (T.step w (.task i .fail)).isNone = true)

end Tree
end UdpBalancer.Supervision
