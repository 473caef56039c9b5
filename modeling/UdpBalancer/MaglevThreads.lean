import Mathlib.Logic.Relation
import UdpBalancer.Transition
import UdpBalancer.MaglevRuns

/-! `Maglev::next` at lock granularity: any number of calls, each a program
counter, over one shared table, with health checks storing flags at any time.
A call that runs alone computes what `MaglevLookup.next` says. -/
namespace UdpBalancer.MaglevThreads
open Backends MaglevTable MaglevRebuild

/- Where a call stands. `checking` and `rechecking` hold the read guard of the
table, `collecting` has loaded the flags of all but `rest`. `panicked` covers
an index out of bounds and a table that is never finished. -/
inductive Pc (pool : Pool) where
  | idle
  | looking (index : Fin tableSize)
  | checking (index : Fin tableSize) (i : pool.Index)
  | collecting (index : Fin tableSize) (rest indices : List pool.Index)
  | writing (index : Fin tableSize) (table : List Nat)
  | relooking (index : Fin tableSize)
  | rechecking (i : pool.Index)
  | returned (r : Option pool.Index)
  | panicked

def Pc.Reads {pool : Pool} : Pc pool → Prop
  | .checking _ _ | .rechecking _ => True
  | _ => False

def Pc.Writes {pool : Pool} : Pc pool → Prop
  | .writing _ _ => True
  | _ => False

abbrev Shared := MaglevLookup.State

variable (host : Host) {pool : Pool}

def advance (m : Shared pool) : Pc pool → Option (Shared pool × Pc pool)
  | .idle => none
  | .looking index =>
      match MaglevLookup.look pool m.lookupTable index with
      | none => some (m,.panicked)
      | some none => some (m,.returned none)
      | some (some i) => some (m,.checking index i)
  | .checking index i =>
      if m.alive i then some (m,.returned (some i))
      else some (m,.collecting index (List.finRange _) [])
  | .collecting index (i::rest) indices =>
      some (m,.collecting index rest (if m.alive i then indices ++ [i] else indices))
  | .collecting index [] indices =>
      match tableFor host pool indices with
      | none => some (m,.panicked)
      | some table => some (m,.writing index table)
  | .writing index table => some ({m with lookupTable := table},.relooking index)
  | .relooking index =>
      match MaglevLookup.look pool m.lookupTable index with
      | none => some (m,.panicked)
      | some none => some (m,.returned none)
      | some (some i) => some (m,.rechecking i)
  | .rechecking i => some (m,.returned (if m.alive i then some i else none))
  | .returned _ => none
  | .panicked => none

structure State (pool : Pool) where
  shared : Shared pool
  threads : Nat → Pc pool

inductive Label (pool : Pool) where
  | call (t : Nat) (key : Bytes)
  | advance (t : Nat)
  | flip (i : pool.Index) (flag : Bool)

inductive Step : State pool → Label pool → State pool → Prop where
  | call {s t key} (idle : s.threads t = .idle) :
      Step s (.call t key)
        {s with threads := Function.update s.threads t (.looking (MaglevLookup.hashKey host key))}
  | advance {s t m pc} (moved : advance host s.shared (s.threads t) = some (m,pc))
      (exclusive : (s.threads t).Writes → ∀ u, ¬ (s.threads u).Reads) :
      Step s (.advance t) ⟨m,Function.update s.threads t pc⟩
  | flip {s} (i : pool.Index) (flag : Bool) :
      Step s (.flip i flag)
        {s with shared := {s.shared with alive := setAlive s.shared.alive i flag}}

def system (pool : Pool) : Transition.System (State pool) (Label pool) where
  init s := MaglevLookup.new host s.shared.alive = some s.shared ∧ ∀ t, s.threads t = .idle
  step := Step host

def Complete (pool : Pool) (table : List Nat) : Prop :=
  table = [] ∨ table.length = tableSize ∧ ∀ v ∈ table, v < pool.backends.length ∧ v ≠ usizeMax

def Pc.Sound (table : List Nat) : Pc pool → Prop
  | .writing _ new => Complete pool new
  | .checking index i => MaglevLookup.look pool table index = some (some i)
  | .panicked => False
  | _ => True

structure Inv (s : State pool) : Prop where
  table : Complete pool s.shared.lookupTable
  threads : ∀ t, (s.threads t).Sound s.shared.lookupTable

theorem tableForSafe {indices : List pool.Index} {table}
    (ok : tableFor host pool indices = some table) : Complete pool table := by
  rcases indices with _ | ⟨i,rest⟩
  · cases Option.some.inj ok
    exact Or.inl rfl
  · obtain ⟨complete,same,size,owners⟩ := tableForComplete host (List.cons_ne_nil i rest)
    cases Option.some.inj (ok.symm.trans same)
    refine Or.inr ⟨size,fun v mem => ?_⟩
    obtain ⟨j,_,named⟩ := owners v mem
    rw [named]
    exact ⟨j.isLt,Nat.ne_of_lt (indexLt pool j)⟩

theorem lookDefined {table : List Nat} (complete : Complete pool table) (k : Fin tableSize) :
    ∃ r, MaglevLookup.look pool table k = some r := by
  unfold MaglevLookup.look
  split
  · exact ⟨none,rfl⟩
  · rename_i nonempty
    obtain ⟨size,_⟩ := complete.resolve_left nonempty
    have lt : k.val < table.length := by rw [size]; exact k.isLt
    rw [List.getElem?_eq_getElem lt]
    split
    · contradiction
    · split
      · exact ⟨_,rfl⟩
      · exact ⟨none,rfl⟩

theorem advanceSound {m n : Shared pool} {pc after} (table : Complete pool m.lookupTable)
    (sound : pc.Sound m.lookupTable) (moved : advance host m pc = some (n,after)) :
    Complete pool n.lookupTable ∧ after.Sound n.lookupTable ∧ (¬ pc.Writes → n = m) := by
  cases pc with
  | idle => contradiction
  | looking index =>
    obtain ⟨r,found⟩ := lookDefined table index
    simp only [advance,found] at moved
    cases r with
    | none => cases Option.some.inj moved; exact ⟨table,trivial,fun _ => rfl⟩
    | some i => cases Option.some.inj moved; exact ⟨table,found,fun _ => rfl⟩
  | checking index i =>
    simp only [advance] at moved
    split at moved
    · cases Option.some.inj moved; exact ⟨table,trivial,fun _ => rfl⟩
    · cases Option.some.inj moved; exact ⟨table,trivial,fun _ => rfl⟩
  | collecting index rest indices =>
    cases rest with
    | cons i rest => cases Option.some.inj moved; exact ⟨table,trivial,fun _ => rfl⟩
    | nil =>
      obtain ⟨built,ok⟩ := tableForDefined host indices
      simp only [advance,ok] at moved
      cases Option.some.inj moved
      exact ⟨table,tableForSafe host ok,fun _ => rfl⟩
  | writing index built =>
    cases Option.some.inj moved
    exact ⟨sound,trivial,fun quiet => absurd trivial quiet⟩
  | relooking index =>
    obtain ⟨r,found⟩ := lookDefined table index
    simp only [advance,found] at moved
    cases r with
    | none => cases Option.some.inj moved; exact ⟨table,trivial,fun _ => rfl⟩
    | some i => cases Option.some.inj moved; exact ⟨table,trivial,fun _ => rfl⟩
  | rechecking i => cases Option.some.inj moved; exact ⟨table,trivial,fun _ => rfl⟩
  | returned r => contradiction
  | panicked => contradiction

theorem advanceServed {m n : Shared pool} {pc i}
    (moved : advance host m pc = some (n,.returned (some i))) : m.alive i = true := by
  unfold advance at moved
  split at moved <;> try contradiction
  · split at moved <;> simp at moved
  · split at moved
    · rename_i alive
      simp only [Option.some.injEq,Prod.mk.injEq,Pc.returned.injEq] at moved
      exact moved.2 ▸ alive
    · simp at moved
  · simp at moved
  · split at moved <;> simp at moved
  · simp at moved
  · split at moved <;> simp at moved
  · simp only [Option.some.injEq,Prod.mk.injEq,Pc.returned.injEq] at moved
    split at moved
    · rename_i alive
      exact Option.some.inj moved.2 ▸ alive
    · simp at moved

/- Only a write can invalidate what another call has read, and a write waits
for the guards. -/
theorem soundElsewhere {m n : Shared pool} {pc other : Pc pool} (kept : ¬ pc.Writes → n = m)
    (exclusive : pc.Writes → ¬ other.Reads) (sound : other.Sound m.lookupTable) :
    other.Sound n.lookupTable := by
  by_cases writes : pc.Writes
  · have quiet := exclusive writes
    cases other <;> first | exact sound | exact absurd trivial quiet
  · rw [kept writes]
    exact sound

theorem initInv (s : State pool) (start : (system host pool).init s) : Inv s := by
  obtain ⟨fresh,idle⟩ := start
  obtain ⟨table,ok⟩ := tableForDefined host (aliveIndices s.shared.alive)
  simp only [MaglevLookup.new,MaglevLookup.rebuildTable,ok,bind,Option.bind] at fresh
  have same : table = s.shared.lookupTable := congrArg MaglevLookup.State.lookupTable
    (Option.some.inj fresh)
  refine ⟨same ▸ tableForSafe host ok,fun t => ?_⟩
  rw [idle t]
  trivial

theorem stepInv (s : State pool) (label) (t : State pool) (inv : Inv s)
    (moved : (system host pool).step s label t) : Inv t := by
  cases moved with
  | call idle =>
    refine ⟨inv.table,fun u => ?_⟩
    simp only [Function.update_apply]
    split
    · trivial
    · exact inv.threads u
  | @advance v m pc moved exclusive =>
    obtain ⟨table,sound,kept⟩ := advanceSound host inv.table (inv.threads v) moved
    refine ⟨table,fun u => ?_⟩
    simp only [Function.update_apply]
    split
    · exact sound
    · exact soundElsewhere kept (fun writes => exclusive writes u) (inv.threads u)
  | flip i flag => exact ⟨inv.table,inv.threads⟩

theorem reachableInv {s : State pool} (reach : Transition.Reachable (system host pool) s) : Inv s :=
  Transition.invariant Inv (initInv host) (stepInv host) reach

def Alone (a b : Shared pool × Pc pool) : Prop := advance host a.1 a.2 = some b

theorem collectAlone (m : Shared pool) (index : Fin tableSize) (rest indices : List pool.Index) :
    Relation.ReflTransGen (Alone host) (m,.collecting index rest indices)
      (m,.collecting index [] (indices ++ rest.filter m.alive)) := by
  induction rest generalizing indices with
  | nil =>
    rw [List.filter_nil,List.append_nil]
  | cons i rest ih =>
    have loaded : Alone host (m,.collecting index (i::rest) indices) (m,.collecting index rest
        (if m.alive i then indices ++ [i] else indices)) := rfl
    apply Relation.ReflTransGen.head loaded
    have tail := ih (if m.alive i then indices ++ [i] else indices)
    cases alive : m.alive i with
    | true =>
      simp only [alive,if_true,List.filter_cons_of_pos,List.append_assoc,List.singleton_append] at tail ⊢
      exact tail
    | false =>
      simp only [alive,Bool.false_eq_true,if_false,List.filter_cons] at tail ⊢
      exact tail

theorem nextAlone {m n : Shared pool} {key r} (ok : MaglevLookup.next host m key = some (n,r)) :
    Relation.ReflTransGen (Alone host) (m,.looking (MaglevLookup.hashKey host key))
      (n,.returned r) := by
  unfold MaglevLookup.next at ok
  obtain ⟨first,found,ok⟩ := Option.bind_eq_some_iff.mp ok
  cases first with
  | none =>
    cases Option.some.inj ok
    exact .single (by simp only [Alone,advance,found])
  | some i =>
    have entered : Alone host (m,.looking (MaglevLookup.hashKey host key))
        (m,.checking (MaglevLookup.hashKey host key) i) := by
      simp only [Alone,advance,found]
    refine .head entered ?_
    simp only at ok
    split at ok
    · rename_i alive
      cases Option.some.inj ok
      exact .single (by simp only [Alone,advance,alive,if_true])
    · rename_i dead
      obtain ⟨t,rebuilt,ok⟩ := Option.bind_eq_some_iff.mp ok
      obtain ⟨second,again,ok⟩ := Option.bind_eq_some_iff.mp ok
      obtain ⟨table,built,same⟩ := Option.bind_eq_some_iff.mp rebuilt
      cases Option.some.inj same
      have collects : Alone host (m,.checking (MaglevLookup.hashKey host key) i)
          (m,.collecting (MaglevLookup.hashKey host key) (List.finRange _) []) := by
        simp only [Alone,advance,dead]
        rfl
      refine .head collects (.trans (collectAlone host m _ _ _) ?_)
      have builds : Alone host
          (m,.collecting (MaglevLookup.hashKey host key) [] (aliveIndices m.alive))
          (m,.writing (MaglevLookup.hashKey host key) table) := by
        simp only [Alone,advance,built]
      have writes : Alone host (m,.writing (MaglevLookup.hashKey host key) table)
          ({m with lookupTable := table},.relooking (MaglevLookup.hashKey host key)) := rfl
      refine .head builds (.head writes ?_)
      cases second with
      | none =>
        cases Option.some.inj ok
        exact .single (by simp only [Alone,advance,again])
      | some j =>
        cases Option.some.inj ok
        have enters : Alone host
            ({m with lookupTable := table},.relooking (MaglevLookup.hashKey host key))
            ({m with lookupTable := table},.rechecking j) := by
          simp only [Alone,advance,again]
        have leaves : Alone host ({m with lookupTable := table},.rechecking j)
            ({m with lookupTable := table},.returned (if m.alive j then some j else none)) := rfl
        exact .head enters (.single leaves)

theorem tablesStaySafe {s : State pool}
    (reach : Transition.Reachable (system host pool) s) :
    (s.shared.lookupTable = [] ∨ s.shared.lookupTable.length = tableSize ∧
      ∀ v ∈ s.shared.lookupTable, v < pool.backends.length ∧ v ≠ usizeMax) ∧
    (∀ t, s.threads t ≠ .panicked) ∧
    ∀ label after, (system host pool).step s label after → ∀ t i,
      after.threads t = .returned (some i) → s.threads t ≠ .returned (some i) →
        label = .advance t ∧ s.shared.alive i = true := by
  have inv := reachableInv host reach
  refine ⟨inv.table,?_,?_⟩
  · intro t stuck
    have sound := inv.threads t
    rw [stuck] at sound
    exact sound
  · intro label after moved t i now before
    cases moved with
    | @call u key idle =>
      simp only [Function.update_apply] at now
      split at now
      · contradiction
      · exact absurd now before
    | @advance u m pc moved exclusive =>
      simp only [Function.update_apply] at now
      split at now
      · rename_i same
        subst same now
        exact ⟨rfl,advanceServed host moved⟩
      · exact absurd now before
    | flip j flag => exact absurd now before

def both (m : Shared pool) (first second : Pc pool) : State pool :=
  ⟨m,fun t => if t = 1 then first else if t = 2 then second else .idle⟩

section both
variable {m n : Shared pool} {a b after : Pc pool}

theorem updateFirst : Function.update (both m a b).threads 1 after = (both m after b).threads := by
  funext t
  simp only [Function.update_apply,both]
  split <;> rfl

theorem updateSecond : Function.update (both m a b).threads 2 after = (both m a after).threads := by
  funext t
  simp only [Function.update_apply,both]
  split
  · rename_i same
    subst same
    rfl
  · rfl

theorem firstCalls (key : Bytes) (reach : Transition.Reachable (system host pool) (both m .idle b)) :
    Transition.Reachable (system host pool)
      (both m (.looking (MaglevLookup.hashKey host key)) b) := by
  have step : Step host (both m .idle b) (.call 1 key) ⟨m,Function.update _ 1 _⟩ := .call rfl
  rw [updateFirst] at step
  exact reach.step step

theorem secondCalls (key : Bytes) (reach : Transition.Reachable (system host pool) (both m a .idle)) :
    Transition.Reachable (system host pool)
      (both m a (.looking (MaglevLookup.hashKey host key))) := by
  have step : Step host (both m a .idle) (.call 2 key) ⟨m,Function.update _ 2 _⟩ := .call rfl
  rw [updateSecond] at step
  exact reach.step step

theorem flips (i : pool.Index) (flag : Bool)
    (reach : Transition.Reachable (system host pool) (both m a b)) :
    Transition.Reachable (system host pool)
      (both {m with alive := setAlive m.alive i flag} a b) :=
  reach.step (.flip i flag)

theorem firstMoves (reach : Transition.Reachable (system host pool) (both m a b))
    (moved : advance host m a = some (n,after)) (free : a.Writes → ¬ b.Reads) :
    Transition.Reachable (system host pool) (both n after b) := by
  have exclusive : a.Writes → ∀ u, ¬ ((both m a b).threads u).Reads := by
    intro writes u
    simp only [both]
    split
    · cases a <;> first | exact not_false | exact absurd writes not_false
    · split
      · exact free writes
      · exact not_false
  have step : Step host (both m a b) (.advance 1)
      ⟨n,Function.update (both m a b).threads 1 after⟩ := .advance moved exclusive
  rw [updateFirst] at step
  exact reach.step step

theorem secondMoves (reach : Transition.Reachable (system host pool) (both m a b))
    (moved : advance host m b = some (n,after)) (reads : ¬ b.Writes) :
    Transition.Reachable (system host pool) (both n a after) := by
  have step : Step host (both m a b) (.advance 2)
      ⟨n,Function.update (both m a b).threads 2 after⟩ := .advance moved fun writes => absurd writes reads
  rw [updateSecond] at step
  exact reach.step step

theorem firstRuns (reach : Transition.Reachable (system host pool) (both m a b))
    (quiet : ¬ b.Reads) (ran : Relation.ReflTransGen (Alone host) (m,a) (n,after)) :
    Transition.Reachable (system host pool) (both n after b) := by
  suffices all : ∀ x : Shared pool × Pc pool, Relation.ReflTransGen (Alone host) (m,a) x →
      Transition.Reachable (system host pool) (both x.1 x.2 b) from all _ ran
  intro x steps
  induction steps with
  | refl => exact reach
  | tail _ last ih => exact firstMoves host ih last fun _ => quiet

/- A backend goes down while one call looks at it. A second call looks at the old
table when the first has rebuilt it, and the first writes when that call is done. -/
theorem overtaken (one two : Bytes) {i j k : pool.Index} {rebuilt : List Nat}
    (reach : Transition.Reachable (system host pool) (both m .idle .idle))
    (first : MaglevLookup.look pool m.lookupTable (MaglevLookup.hashKey host one) = some (some i))
    (second : MaglevLookup.look pool m.lookupTable (MaglevLookup.hashKey host two) = some (some j))
    (alive : setAlive m.alive i false j = true)
    (again : tableFor host pool (aliveIndices (setAlive m.alive i false)) = some rebuilt)
    (renewed : MaglevLookup.look pool rebuilt (MaglevLookup.hashKey host one) = some (some k)) :
    Transition.Reachable (system host pool)
      (both ⟨setAlive m.alive i false,rebuilt⟩ (.rechecking k) (.returned (some j))) := by
  have looks := firstMoves host (firstCalls host one reach)
    (by simp only [advance,first]; rfl) (absurd · not_false)
  have called := secondCalls host two (flips host i false looks)
  have dead : setAlive m.alive i false i = false := Function.update_self ..
  have checks := firstMoves host called
    (by simp only [advance,dead,Bool.false_eq_true,if_false]; rfl) (absurd · not_false)
  have collects := firstRuns host checks not_false (collectAlone host _ _ _ _)
  rw [List.nil_append] at collects
  have builds := firstMoves host collects
    (by simp only [advance,show tableFor host pool (List.filter (setAlive m.alive i false)
      (List.finRange _)) = some rebuilt from again]; rfl) (absurd · not_false)
  have guarded := secondMoves host builds (by simp only [advance,second]; rfl) not_false
  have answers := secondMoves host guarded (by simp only [advance,alive,if_true]; rfl) not_false
  have writes := firstMoves host answers rfl fun _ => not_false
  exact firstMoves host writes (by simp only [advance,renewed]) (absurd · not_false)

theorem returns {k : pool.Index} (alive : m.alive k = true) :
    (system host pool).step (both m (.rechecking k) b) (.advance 1)
      (both m (.returned (some k)) b) := by
  have moved : advance host m (.rechecking k) = some (m,.returned (some k)) := by
    simp only [advance,alive,if_true]
  have step : Step host (both m (.rechecking k) b) (.advance 1)
      ⟨m,Function.update (both m (.rechecking k) b).threads 1 (.returned (some k))⟩ :=
    .advance moved fun writes => absurd writes not_false
  rw [updateFirst] at step
  exact step

end both

theorem collectorsStaySafe : ∃ s before : State MaglevRuns.collectors,
    Transition.Reachable (system exactHost MaglevRuns.collectors) s ∧
    s.shared.alive = MaglevRuns.detour ∧
    s.threads 1 = .returned (some (MaglevRuns.collector 1)) ∧
    s.threads 2 = .returned (some (MaglevRuns.collector 1)) ∧
    (s.shared.lookupTable = [] ∨ s.shared.lookupTable.length = tableSize ∧
      ∀ v ∈ s.shared.lookupTable, v < 3 ∧ v ≠ usizeMax) ∧
    (∀ t, s.threads t ≠ .panicked) ∧
    (system exactHost MaglevRuns.collectors).step before (.advance 1) s ∧
    before.shared.alive (MaglevRuns.collector 1) = true := by
  obtain ⟨old,fresh,view,table⟩ := MaglevLookup.newMatches exactHost
    (MaglevRuns.allAlive : Alive MaglevRuns.collectors)
  obtain ⟨rebuilt,again⟩ := tableForDefined exactHost (aliveIndices MaglevRuns.detour)
  obtain ⟨sharedSlot,secondSlot⟩ := MaglevRuns.keySlots
  have begins : Transition.Reachable (system exactHost MaglevRuns.collectors)
      (both old .idle .idle) := by
    refine .init ⟨view.symm ▸ fresh,fun t => ?_⟩
    simp only [both,ite_self]
  have flags : setAlive old.alive (MaglevRuns.collector 0) false = MaglevRuns.detour := by
    rw [view]
    rfl
  have alive : MaglevRuns.detour (MaglevRuns.collector 1) = true := by decide
  have reach := overtaken exactHost MaglevRuns.sharedKey MaglevRuns.secondKey begins
    (i := MaglevRuns.collector 0) (j := MaglevRuns.collector 1) (k := MaglevRuns.collector 1)
    (by rw [sharedSlot,(MaglevLookup.lookRebuilt exactHost table MaglevRuns.shared).1,
      MaglevRuns.wholeOwners.1])
    (by rw [secondSlot,(MaglevLookup.lookRebuilt exactHost table MaglevRuns.second).1,
      MaglevRuns.wholeOwners.2])
    (by rw [flags]; exact alive) (by rw [flags]; exact again)
    (by rw [sharedSlot,(MaglevLookup.lookRebuilt exactHost again MaglevRuns.shared).1,
      MaglevRuns.detourOwners.1])
  rw [flags] at reach
  have answered := returns exactHost (m := ⟨MaglevRuns.detour,rebuilt⟩)
    (b := .returned (some (MaglevRuns.collector 1))) (k := MaglevRuns.collector 1) alive
  obtain ⟨table,quiet,_⟩ := tablesStaySafe exactHost (reach.step answered)
  obtain ⟨_,_,served⟩ := tablesStaySafe exactHost reach
  exact ⟨_,_,reach.step answered,rfl,rfl,rfl,table,quiet,answered,
    (served _ _ answered 1 (MaglevRuns.collector 1) rfl (by simp [both])).2⟩

end UdpBalancer.MaglevThreads
