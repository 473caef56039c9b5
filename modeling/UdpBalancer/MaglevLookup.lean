import UdpBalancer.LazyCache
import UdpBalancer.MaglevRebuild

/-! `Maglev::new` and `Maglev::next` over runs of health flips and lookups. The
lookup table is a lazily rebuilt cache of the alive flags: only a lookup that
meets a dead backend rebuilds it, a recovery or an empty table never does. -/
namespace UdpBalancer.MaglevLookup
open Backends MaglevTable MaglevRebuild

variable (host : Host) {pool : Pool}

structure State (pool : Pool) where
  alive : Alive pool
  lookupTable : List Nat

def rebuildTable (s : State pool) : Option (State pool) := do
  let table ← tableFor host pool (aliveIndices s.alive)
  some {s with lookupTable := table}

def new (alive : Alive pool) : Option (State pool) := rebuildTable host ⟨alive,[]⟩

def hashKey (key : Bytes) : Fin tableSize :=
  ⟨(host.fnv key).toNat % tableSize,Nat.mod_lt _ (by decide)⟩

/- One locked lookup. The outer `none` is an index out of bounds, the inner one
the early `return None` of an empty table or an invalid index. -/
def look (pool : Pool) (table : List Nat) (index : Nat) : Option (Option pool.Index) :=
  if table = [] then some none else
    match table[index]? with
    | none => none
    | some backendIdx =>
      if valid : ¬ (backendIdx = usizeMax ∨ pool.backends.length ≤ backendIdx) then
        some (some ⟨backendIdx,Nat.lt_of_not_le fun le => valid (.inr le)⟩)
      else some none

def next (s : State pool) (key : Bytes) : Option (State pool × Option pool.Index) := do
  let index := hashKey host key
  match ← look pool s.lookupTable index with
  | none => some (s,none)
  | some i =>
    if s.alive i then some (s,some i) else do
      let t ← rebuildTable host s
      match ← look pool t.lookupTable index with
      | none => some (t,none)
      | some j => some (t,if t.alive j then some j else none)

inductive Event (pool : Pool) where
  | flip (i : pool.Index) (flag : Bool)
  | next (key : Bytes)

def step (s : State pool) : Event pool → Option (State pool)
  | .flip i flag => some {s with alive := setAlive s.alive i flag}
  | .next key => (next host s key).map Prod.fst

def run (s : State pool) (events : List (Event pool)) : Option (State pool) :=
  events.foldlM (step host) s

def runNew (alive : Alive pool) (events : List (Event pool)) : Option (State pool) := do
  let s ← new host alive
  run host s events

def cached (alive : Alive pool) (k : Fin tableSize) : Option pool.Index := do
  let table ← tableFor host pool (aliveIndices alive)
  (look pool table k).join

def build : LazyCache.Build (Alive pool) (Fin tableSize) pool.Index :=
  ⟨cached host,fun alive i => alive i⟩

theorem lookValid {table : List Nat} (size : table.length = tableSize) (k : Fin tableSize)
    {i : pool.Index} (owner : table[k.val]? = some i.val) : look pool table k = some (some i) := by
  have nonempty : table ≠ [] := by
    intro same
    subst same
    exact absurd size (by decide)
  have valid : ¬ (i.val = usizeMax ∨ pool.backends.length ≤ i.val) := by
    intro outside
    rcases outside with top | beyond
    · exact absurd (indexLt pool i) (by omega)
    · exact absurd i.isLt (by omega)
  simp only [look,nonempty,if_false,owner,valid,not_false_eq_true,dite_true]

theorem lookRebuilt {alive : Alive pool} {table : List Nat}
    (rebuilt : tableFor host pool (aliveIndices alive) = some table) (k : Fin tableSize) :
    look pool table k = some (cached host alive k) ∧
      (∀ i, cached host alive k = some i → alive i = true) ∧
      (SomeAlive alive → ∃ i, cached host alive k = some i) := by
  by_cases empty : aliveIndices alive = []
  · have none : look pool table k = some none := by
      rw [empty,tableForNil] at rebuilt
      cases Option.some.inj rebuilt
      rfl
    have same : cached host alive k = Option.none := by
      simp only [cached,rebuilt,bind,Option.bind,none,Option.join_some]
    rw [none,same]
    exact ⟨rfl,fun i h => by contradiction,fun live => absurd live (aliveIndicesNil.mp empty)⟩
  · obtain ⟨complete,ok,size,owners⟩ := tableForComplete host empty
    cases Option.some.inj (rebuilt.symm.trans ok)
    have lt : k.val < table.length := by rw [size]; exact k.isLt
    have present := List.getElem?_eq_getElem lt
    obtain ⟨i,mem,same⟩ := owners _ (List.getElem_mem lt)
    have found := lookValid size k (present.trans (congrArg some same))
    have here : cached host alive k = some i := by
      simp only [cached,rebuilt,bind,Option.bind,found,Option.join_some]
    rw [found,here]
    refine ⟨rfl,fun j h => ?_,fun _ => ⟨i,rfl⟩⟩
    cases Option.some.inj h
    exact memAliveIndices.mp mem

theorem buildLawful : LazyCache.Lawful (@build host pool) where
  fresh := by
    intro alive k i h
    obtain ⟨table,rebuilt⟩ := tableForDefined host (aliveIndices alive)
    exact (lookRebuilt host rebuilt k).2.1 i h
  total := by
    intro alive k live
    obtain ⟨table,rebuilt⟩ := tableForDefined host (aliveIndices alive)
    exact (lookRebuilt host rebuilt k).2.2 live

theorem firstTwoCached (equal : ∀ i, pool.weight i = 1) (once : repetitions host 1 1 = 1)
    {alive : Alive pool} {i j rest n} (live : aliveIndices alive = i::j::rest)
    (later : Loop.FirstFrom
      (fun k => slot (entry host pool j) k ≠ slot (entry host pool i) 0) 0 n) :
    (∀ k : Fin tableSize, k.val = slot (entry host pool i) 0 → cached host alive k = some i) ∧
      ∀ k : Fin tableSize, k.val = slot (entry host pool j) n → cached host alive k = some j := by
  have nonempty : aliveIndices alive ≠ [] := by rw [live]; exact List.cons_ne_nil _ _
  obtain ⟨table,ok,size,_⟩ := tableForComplete host nonempty
  have populated := ok
  rw [tableForPopulates host nonempty,equalEntries host equal once nonempty,live] at populated
  obtain ⟨first,second⟩ := firstTwoOwned populated later
  have found : ∀ (k : Fin tableSize) (o : pool.Index), table[k.val]? = some o.val →
      cached host alive k = some o := by
    intro k o owner
    have both := (lookRebuilt host ok k).1.symm.trans (lookValid size k owner)
    exact Option.some.inj both
  refine ⟨fun k same => found k i ?_,fun k same => found k j ?_⟩
  · rw [same]
    exact first
  · rw [same]
    exact second

/- The refinement: the state's table is the one rebuilt for the snapshot. -/
structure Matches (host : Host) (s : State pool) (a : LazyCache.State (Alive pool)) : Prop where
  view : s.alive = a.view
  table : tableFor host pool (aliveIndices a.snapshot) = some s.lookupTable

theorem newMatches (alive : Alive pool) :
    ∃ s, new host alive = some s ∧ Matches host s ⟨alive,alive⟩ := by
  obtain ⟨table,rebuilt⟩ := tableForDefined host (aliveIndices alive)
  refine ⟨⟨alive,table⟩,?_,rfl,rebuilt⟩
  simp only [new,rebuildTable,rebuilt,bind,Option.bind]

theorem nextMissing {s : State pool} {key}
    (found : look pool s.lookupTable (hashKey host key) = some none) :
    next host s key = some (s,none) := by
  simp only [next,found,bind,Option.bind]

theorem nextAlive {s : State pool} {key i}
    (found : look pool s.lookupTable (hashKey host key) = some (some i))
    (alive : s.alive i = true) : next host s key = some (s,some i) := by
  simp only [next,found,bind,Option.bind,alive,if_true]

theorem nextDead {s t : State pool} {key i again}
    (found : look pool s.lookupTable (hashKey host key) = some (some i))
    (dead : s.alive i = false) (rebuilt : rebuildTable host s = some t)
    (second : look pool t.lookupTable (hashKey host key) = some again)
    (fresh : ∀ j, again = some j → t.alive j = true) :
    next host s key = some (t,again) := by
  simp only [next,found,bind,Option.bind,dead,Bool.false_eq_true,if_false,rebuilt,second]
  cases again with
  | none => rfl
  | some j => simp only [fresh j rfl,if_true]

theorem nextMatches {s : State pool} {a} (same : Matches host s a) (key : Bytes) :
    ∃ t, next host s key = some (t,(LazyCache.lookup (build host) a (hashKey host key)).2) ∧
      Matches host t (LazyCache.lookup (build host) a (hashKey host key)).1 := by
  obtain ⟨view,snapshot⟩ := a
  obtain ⟨rfl,table⟩ := same
  have first := (lookRebuilt host table (hashKey host key)).1
  by_cases stale : LazyCache.Stale (build host) ⟨s.alive,snapshot⟩ (hashKey host key)
  · rw [LazyCache.lookupStale (buildLawful host) stale]
    obtain ⟨i,held,dead⟩ := stale
    obtain ⟨rebuilt,again⟩ := tableForDefined host (aliveIndices s.alive)
    have replaced : rebuildTable host s = some {s with lookupTable := rebuilt} := by
      simp only [rebuildTable,again,bind,Option.bind]
    obtain ⟨second,fresh,_⟩ := lookRebuilt host again (hashKey host key)
    have result := nextDead host (first.trans (congrArg some held)) dead replaced second fresh
    exact ⟨_,result,rfl,again⟩
  · rw [LazyCache.lookupKept stale]
    refine ⟨s,?_,rfl,table⟩
    cases held : cached host snapshot (hashKey host key) with
    | none =>
      rw [nextMissing host (first.trans (congrArg some held))]
      exact congrArg (fun r => some (s,r)) held.symm
    | some i =>
      have alive : s.alive i = true := by
        cases h : s.alive i with
        | true => rfl
        | false => exact absurd ⟨i,held,h⟩ stale
      rw [nextAlive host (first.trans (congrArg some held)) alive]
      exact congrArg (fun r => some (s,r)) held.symm

end UdpBalancer.MaglevLookup
