import UdpBalancer.Linearizable
import UdpBalancer.MaglevThreads

/-! Concurrent calls of `Maglev::next`, while flags are stored only between calls:
they are calls of one atomic object, whose operation is the sequential `next`. A
call that rebuilds takes effect when it writes the table, although it looks its slot
up once more after that; every other call does in the step that answers it. -/
namespace UdpBalancer.MaglevCalls
open Backends MaglevRebuild MaglevLookup MaglevThreads
open Linearizable (Object Move Client Atomic Steps Implements gotoClient gotoOther)

variable (host : Host) {pool : Pool}

def object : Object (Shared pool) Bytes (Option pool.Index) (pool.Index × Bool) where
  apply a key b r := next host a key = some (b,r)
  change a flip b := MaglevLookup.step host a (.flip flip.1 flip.2) = some b

def Resting : Pc pool → Prop
  | .idle | .returned _ => True
  | _ => False

def Between (s : MaglevThreads.State pool) : Label pool → Prop
  | .flip _ _ => ∀ t, Resting (s.threads t)
  | _ => True

abbrev Shown (pool : Pool) := List (Move Bytes (Option pool.Index) (pool.Index × Bool))

def watch (_ : MaglevThreads.State pool) (label : Label pool) (after : MaglevThreads.State pool) :
    Shown pool :=
  match label with
  | .flip i flag => [.change (i,flag)]
  | .call t key => [.invoke t key]
  | .advance t => match after.threads t with
    | .returned r => [.respond t r]
    | _ => []

def Fresh (m : Shared pool) : Prop :=
  tableFor host pool (aliveIndices m.alive) = some m.lookupTable

/- Why a call goes on to rebuild: its slot names a dead backend, unless another
call has rebuilt in the meantime. -/
def Needed (m : Shared pool) (index : Fin tableSize) : Prop :=
  (∃ i, look pool m.lookupTable index = some (some i) ∧ m.alive i = false) ∨ Fresh host m

def Stands (m : Shared pool) (pc : Pc pool) (c : Client Bytes (Option pool.Index)) : Prop :=
  match pc with
  | .idle | .returned _ => c = .idle
  | .looking index => ∃ key, c = .pending key ∧ index = hashKey host key
  | .checking index i => ∃ key, c = .pending key ∧ index = hashKey host key ∧
      look pool m.lookupTable index = some (some i)
  | .collecting index rest indices => ∃ key, c = .pending key ∧ index = hashKey host key ∧
      indices ++ rest.filter m.alive = aliveIndices m.alive ∧ Needed host m index
  | .writing index table => ∃ key, c = .pending key ∧ index = hashKey host key ∧
      tableFor host pool (aliveIndices m.alive) = some table ∧ Needed host m index
  | .relooking index => c = .answered (cached host m.alive index) ∧ Fresh host m
  | .rechecking i => c = .answered (some i) ∧ m.alive i = true
  | .panicked => False

structure Related (s : MaglevThreads.State pool)
    (a : Atomic (Shared pool) Bytes (Option pool.Index)) : Prop where
  value : a.value = s.shared
  inv : Inv s
  threads : ∀ t, Stands host s.shared (s.threads t) (a.clients t)

variable {host}

theorem standsResting {m : Shared pool} {pc c} (resting : Resting pc) :
    Stands host m pc c ↔ c = .idle := by
  cases pc with
  | idle => exact Iff.rfl
  | returned r => exact Iff.rfl
  | _ => exact resting.elim

theorem nextFresh {m : Shared pool} (fresh : Fresh host m) (key : Bytes) :
    next host m key = some (m,cached host m.alive (hashKey host key)) := by
  obtain ⟨found,alive,_⟩ := lookRebuilt host fresh (hashKey host key)
  cases held : cached host m.alive (hashKey host key) with
  | none =>
    rw [held] at found
    exact nextMissing host found
  | some i =>
    rw [held] at found
    exact nextAlive host found (alive i held)

theorem nextNeeded {m : Shared pool} {key table} (needed : Needed host m (hashKey host key))
    (rebuilt : tableFor host pool (aliveIndices m.alive) = some table) :
    next host m key =
      some ({m with lookupTable := table},cached host m.alive (hashKey host key)) := by
  rcases needed with ⟨i,found,dead⟩ | fresh
  · have replaced : rebuildTable host m = some {m with lookupTable := table} := by
      simp only [rebuildTable,rebuilt,bind,Option.bind]
    obtain ⟨second,alive,_⟩ := lookRebuilt host rebuilt (hashKey host key)
    exact nextDead host found dead replaced second alive
  · cases Option.some.inj (fresh.symm.trans rebuilt)
    exact nextFresh fresh key

/- A table that another call writes is fresh. The guard keeps writers away from
a call that has read its slot and not yet the flag. -/
theorem standsWritten {m : Shared pool} {pc c table} (stands : Stands host m pc c)
    (unread : ¬ pc.Reads) (rebuilt : tableFor host pool (aliveIndices m.alive) = some table) :
    Stands host {m with lookupTable := table} pc c := by
  have fresh : Fresh host {m with lookupTable := table} := rebuilt
  cases pc with
  | idle => exact stands
  | returned r => exact stands
  | looking index => exact stands
  | checking index i => exact absurd trivial unread
  | collecting index rest indices =>
    obtain ⟨key,pending,slot,all,_⟩ := stands
    exact ⟨key,pending,slot,all,.inr fresh⟩
  | writing index other =>
    obtain ⟨key,pending,slot,table,_⟩ := stands
    exact ⟨key,pending,slot,table,.inr fresh⟩
  | relooking index => exact ⟨stands.1,fresh⟩
  | rechecking i => exact absurd trivial unread
  | panicked => exact stands.elim

structure Explained (host : Host) (n : Shared pool) (pc : Pc pool) (t : Nat)
    (a b : Atomic (Shared pool) Bytes (Option pool.Index)) (moves : Shown pool) : Prop where
  steps : Steps (object host) a moves b
  seen : moves.filter Move.visible = match pc with | .returned r => [.respond t r] | _ => []
  stands : Stands host n pc (b.clients t)
  value : b.value = n
  others : ∀ u, u ≠ t → b.clients u = a.clients u

section step
variable {m : Shared pool} {pc : Pc pool} {t : Nat}
  {a : Atomic (Shared pool) Bytes (Option pool.Index)}

theorem goesOn (value : a.value = m) (stands : Stands host m pc (a.clients t))
    (unanswered : ∀ r, pc ≠ .returned r) : ∃ moves b, Explained host m pc t a b moves := by
  refine ⟨[],a,.nil,?_,stands,value,fun _ _ => rfl⟩
  split
  · rename_i r
    exact absurd rfl (unanswered r)
  · rfl

theorem answers (value : a.value = m) {key r} (pending : a.clients t = .pending key)
    (ok : next host m key = some (m,r)) : ∃ moves b, Explained host m (.returned r) t a b moves := by
  have applied : (object host).apply a.value key m r := by
    rw [value]
    exact ok
  exact ⟨_,_,Linearizable.stepsAnswer pending applied,rfl,gotoClient ..,rfl,
    fun u apart => gotoOther _ apart _⟩

theorem advanced {n : Shared pool} {after} (value : a.value = m)
    (table : Complete pool m.lookupTable) (stands : Stands host m pc (a.clients t))
    (moved : advance host m pc = some (n,after)) :
    ∃ moves b, Explained host n after t a b moves := by
  cases pc with
  | idle => contradiction
  | returned r => contradiction
  | panicked => contradiction
  | looking index =>
    obtain ⟨key,pending,slot⟩ := stands
    obtain ⟨r,found⟩ := lookDefined table index
    simp only [advance,found] at moved
    cases r with
    | none =>
      cases Option.some.inj moved
      exact answers value pending (nextMissing host (slot ▸ found))
    | some i =>
      cases Option.some.inj moved
      exact goesOn value ⟨key,pending,slot,found⟩ fun _ eq => by contradiction
  | checking index i =>
    obtain ⟨key,pending,slot,found⟩ := stands
    simp only [advance] at moved
    split at moved
    · rename_i alive
      cases Option.some.inj moved
      exact answers value pending (nextAlive host (slot ▸ found) alive)
    · rename_i dead
      cases Option.some.inj moved
      exact goesOn value ⟨key,pending,slot,List.nil_append _,
        .inl ⟨i,found,Bool.eq_false_iff.mpr dead⟩⟩ fun _ eq => by contradiction
  | collecting index rest indices =>
    obtain ⟨key,pending,slot,all,needed⟩ := stands
    cases rest with
    | nil =>
      rw [List.filter_nil,List.append_nil] at all
      obtain ⟨built,ok⟩ := tableForDefined host indices
      simp only [advance,ok] at moved
      cases Option.some.inj moved
      exact goesOn value ⟨key,pending,slot,all ▸ ok,needed⟩ fun _ eq => by contradiction
    | cons i rest =>
      cases Option.some.inj moved
      refine goesOn value ⟨key,pending,slot,?_,needed⟩ fun _ eq => by contradiction
      rw [← all]
      cases up : m.alive i with
      | true => simp only [if_true,List.filter_cons,up,List.append_assoc,List.singleton_append]
      | false => simp only [Bool.false_eq_true,if_false,List.filter_cons,up]
  | writing index built =>
    obtain ⟨key,pending,slot,rebuilt,needed⟩ := stands
    cases Option.some.inj moved
    have applied : (object host).apply a.value key {m with lookupTable := built}
        (cached host m.alive index) := by
      rw [value,slot]
      exact nextNeeded (slot ▸ needed) rebuilt
    refine ⟨_,_,Linearizable.stepsOne (.effect pending applied),rfl,?_,rfl,
      fun u apart => gotoOther _ apart _⟩
    exact ⟨gotoClient ..,rebuilt⟩
  | relooking index =>
    obtain ⟨answered,fresh⟩ := stands
    obtain ⟨found,alive,_⟩ := lookRebuilt host fresh index
    simp only [advance,found] at moved
    cases held : cached host m.alive index with
    | none =>
      rw [held] at moved answered
      cases Option.some.inj moved
      exact ⟨_,_,Linearizable.stepsOne (.respond answered),rfl,gotoClient ..,value,
        fun u apart => gotoOther _ apart _⟩
    | some i =>
      rw [held] at moved answered
      cases Option.some.inj moved
      exact goesOn value ⟨answered,alive i held⟩ fun _ eq => by contradiction
  | rechecking i =>
    obtain ⟨answered,alive⟩ := stands
    simp only [advance,alive,if_true] at moved
    cases Option.some.inj moved
    exact ⟨_,_,Linearizable.stepsOne (.respond answered),rfl,gotoClient ..,value,
      fun u apart => gotoOther _ apart _⟩

end step

theorem standsElsewhere {m n : Shared pool} {pc other : Pc pool} {after c}
    (moved : advance host m pc = some (n,after)) (stands : Stands host m other c)
    (mover : ∀ index table, pc = .writing index table →
      tableFor host pool (aliveIndices m.alive) = some table)
    (exclusive : pc.Writes → ¬ other.Reads) (table : Complete pool m.lookupTable)
    (sound : pc.Sound m.lookupTable) : Stands host n other c := by
  cases pc with
  | writing index built =>
    cases Option.some.inj moved
    exact standsWritten stands (exclusive trivial) (mover index built rfl)
  | _ =>
    obtain ⟨_,_,kept⟩ := advanceSound host table sound moved
    rw [kept id]
    exact stands

theorem standsUpdate {n : Shared pool} {threads : Nat → Pc pool} {t pc}
    {b : Atomic (Shared pool) Bytes (Option pool.Index)} (mover : Stands host n pc (b.clients t))
    (others : ∀ u, u ≠ t → Stands host n (threads u) (b.clients u)) (u : Nat) :
    Stands host n (Function.update threads t pc u) (b.clients u) := by
  by_cases here : u = t
  · subst here
    rw [Function.update_self]
    exact mover
  · rw [Function.update_of_ne here]
    exact others u here

theorem stepRelated (s : MaglevThreads.State pool) (label : Label pool)
    (after : MaglevThreads.State pool) (a) (same : Related host s a)
    (moved : (Transition.restrict (system host pool) Between).step s label after) :
    ∃ moves b, Steps (object host) a moves b ∧ moves.filter Move.visible = watch s label after ∧
      Related host after b := by
  obtain ⟨between,moved⟩ := moved
  have inv := stepInv host s label after same.inv moved
  cases moved with
  | @call t key idle =>
    have stands := same.threads t
    rw [idle] at stands
    refine ⟨_,_,Linearizable.stepsOne (.invoke key stands),rfl,same.value,inv,
      standsUpdate ⟨key,gotoClient ..,rfl⟩ fun u apart => ?_⟩
    rw [gotoOther a apart]
    exact same.threads u
  | @advance t n pc moved exclusive =>
    have stands := same.threads t
    obtain ⟨moves,b,explained⟩ := advanced same.value same.inv.table stands moved
    refine ⟨moves,b,explained.steps,?_,explained.value,inv,
      standsUpdate explained.stands fun u apart => ?_⟩
    · simp only [watch,Function.update_self]
      exact explained.seen
    · rw [explained.others u apart]
      refine standsElsewhere moved (same.threads u) ?_ (fun writes => exclusive writes u)
        same.inv.table (same.inv.threads t)
      intro index table writing
      rw [writing] at stands
      obtain ⟨_,_,_,rebuilt,_⟩ := stands
      exact rebuilt
  | flip i flag =>
    have changed : (object host).change a.value (i,flag)
        {s.shared with alive := setAlive s.shared.alive i flag} := by
      rw [same.value]
      rfl
    refine ⟨_,_,Linearizable.stepsOne (.change changed),rfl,rfl,inv,fun t => ?_⟩
    exact (standsResting (between t)).mpr ((standsResting (between t)).mp (same.threads t))

theorem lookupsLinearize (host : Host) (pool : Pool) :
    Implements (Transition.restrict (system host pool) Between) watch (object host)
      MaglevThreads.State.shared := by
  have base : ∀ s, (Transition.restrict (system host pool) Between).init s →
      Related host s ⟨s.shared,fun _ => .idle⟩ := by
    intro s begins
    refine ⟨rfl,initInv host s begins,fun t => ?_⟩
    have idle : ∀ t, s.threads t = .idle := begins.2
    rw [idle t]
    rfl
  exact Linearizable.simulated base stepRelated

end UdpBalancer.MaglevCalls
