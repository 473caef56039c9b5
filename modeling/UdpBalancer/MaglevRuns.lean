import UdpBalancer.MaglevLookup

/-! Runs of health flips and `Maglev::next` calls: when a lookup is served, when
a recovered backend gets its keys back and when a flow keeps its backend. -/
namespace UdpBalancer.MaglevRuns
open Backends MaglevTable MaglevRebuild MaglevLookup

variable (host : Host) {pool : Pool}

def flagsAfter (alive : Alive pool) : Event pool → Alive pool
  | .flip i flag => setAlive alive i flag
  | .next _ => alive

def abstractEvent (alive : Alive pool) : Event pool →
    LazyCache.Event (Alive pool) (Fin tableSize)
  | .flip i flag => .change (setAlive alive i flag)
  | .next key => .lookup (hashKey host key)

def abstractEvents : Alive pool → List (Event pool) →
    List (LazyCache.Event (Alive pool) (Fin tableSize))
  | _,[] => []
  | alive,event::rest => abstractEvent host alive event :: abstractEvents (flagsAfter alive event) rest

def Stale (s : State pool) (key : Bytes) : Prop :=
  ∃ i, look pool s.lookupTable (hashKey host key) = some (some i) ∧ s.alive i = false

def Attended : Alive pool → List (Event pool) → Prop
  | _,[] => True
  | alive,.flip i flag::rest => Attended (setAlive alive i flag) rest
  | alive,.next _::rest => SomeAlive alive ∧ Attended alive rest

def Calm : State pool → List (Event pool) → Prop
  | _,[] => True
  | s,event::rest => (∀ key, event = .next key → ¬ Stale host s key) ∧
      ∀ t, step host s event = some t → Calm t rest

theorem stepMatches {s : State pool} {a} (same : Matches host s a) (event : Event pool) :
    ∃ t, step host s event = some t ∧ t.alive = flagsAfter s.alive event ∧
      Matches host t (LazyCache.step (build host) a (abstractEvent host s.alive event)) := by
  cases event with
  | flip i flag => exact ⟨_,rfl,rfl,rfl,same.table⟩
  | next key =>
    obtain ⟨t,ok,after⟩ := nextMatches host same key
    refine ⟨t,by simp only [step,ok,Option.map_some],?_,after⟩
    rw [after.view,LazyCache.lookupView (buildLawful host),← same.view]
    rfl

theorem runMatches {s : State pool} {a} (same : Matches host s a) (events : List (Event pool)) :
    ∃ t, run host s events = some t ∧
      Matches host t (LazyCache.run (build host) a (abstractEvents host s.alive events)) := by
  induction events generalizing s a with
  | nil => exact ⟨s,rfl,same⟩
  | cons event rest ih =>
    obtain ⟨t,moved,flags,after⟩ := stepMatches host same event
    obtain ⟨u,ran,final⟩ := ih after
    rw [flags] at final
    refine ⟨u,?_,final⟩
    simpa only [run,List.foldlM_cons,moved,bind,Option.bind] using ran

theorem runNewMatches (alive : Alive pool) (events : List (Event pool)) :
    ∃ s, runNew host alive events = some s ∧ Matches host s
      (LazyCache.run (build host) ⟨alive,alive⟩ (abstractEvents host alive events)) := by
  obtain ⟨s,ok,same⟩ := newMatches host alive
  obtain ⟨t,ran,final⟩ := runMatches host same events
  have flags : s.alive = alive := same.view
  rw [flags] at final
  exact ⟨t,by simp only [runNew,ok,ran,bind,Option.bind],final⟩

theorem staleAbstract {s : State pool} {a} (same : Matches host s a) (key : Bytes) :
    Stale host s key ↔ LazyCache.Stale (build host) a (hashKey host key) := by
  have held := (lookRebuilt host same.table (hashKey host key)).1
  unfold Stale LazyCache.Stale
  rw [held,same.view]
  simp only [Option.some.injEq]
  rfl

theorem attendedAbstract (alive : Alive pool) (events : List (Event pool)) :
    LazyCache.Attended (build host) alive (abstractEvents host alive events) ↔
      Attended alive events := by
  induction events generalizing alive with
  | nil => rfl
  | cons event rest ih =>
    cases event with
    | flip i flag => exact ih (setAlive alive i flag)
    | next key => exact and_congr Iff.rfl (ih alive)

theorem calmAbstract {s : State pool} {a} (same : Matches host s a) (events : List (Event pool)) :
    Calm host s events ↔
      LazyCache.Calm (build host) a (abstractEvents host s.alive events) := by
  induction events generalizing s a with
  | nil => rfl
  | cons event rest ih =>
    obtain ⟨t,moved,flags,after⟩ := stepMatches host same event
    have tail := ih after
    rw [flags] at tail
    simp only [Calm,LazyCache.Calm,abstractEvents,moved,Option.some.injEq,forall_eq',tail]
    refine and_congr ?_ Iff.rfl
    cases event with
    | flip i flag => simp [abstractEvent]
    | next key =>
      have stale := staleAbstract host same key
      simp only [abstractEvent,Event.next.injEq,forall_eq',LazyCache.Event.lookup.injEq,stale]

theorem someAliveLive (alive : Alive pool) : LazyCache.Live (build host) alive ↔ SomeAlive alive :=
  Iff.rfl

def collectors : Pool where
  backends := [⟨.v4 ⟨#v[10,0,0,47]⟩ 2055,1⟩,⟨.v4 ⟨#v[10,0,1,85]⟩ 2055,1⟩,
    ⟨.v4 ⟨#v[10,0,22,6]⟩ 2055,1⟩]
  positive := by simp
  addressable := by decide

def collector (i : Fin 3) : collectors.Index := i

theorem collectorsEqual (i : collectors.Index) : collectors.weight i = 1 := by
  change Fin 3 at i
  fin_cases i <;> rfl

theorem collectorsOnce : repetitions exactHost 1 1 = 1 := by decide +kernel

theorem collectorSlots :
    slot (entry exactHost collectors (collector 0)) 0 = 51336 ∧
    slot (entry exactHost collectors (collector 1)) 0 = 51336 ∧
    slot (entry exactHost collectors (collector 1)) 1 = 60596 ∧
    slot (entry exactHost collectors (collector 2)) 0 = 60596 := by
  decide +kernel

def allAlive : Alive pool := fun _ => true

def detour : Alive collectors := setAlive allAlive (collector 0) false

def shared : Fin tableSize := ⟨51336,by decide⟩

def second : Fin tableSize := ⟨60596,by decide⟩

theorem wholeOwners : cached exactHost (allAlive : Alive collectors) shared = some (collector 0) ∧
    cached exactHost (allAlive : Alive collectors) second = some (collector 1) := by
  obtain ⟨first,meets,apart,_⟩ := collectorSlots
  have later : Loop.FirstFrom (fun k => slot (entry exactHost collectors (collector 1)) k ≠
      slot (entry exactHost collectors (collector 0)) 0) 0 1 := by
    refine ⟨Nat.zero_le 1,by simp only [first,apart]; decide,fun k _ lt => ?_⟩
    cases Nat.lt_one_iff.mp lt
    simp only [first,meets,ne_eq,not_true_eq_false,not_false_eq_true]
  have owners := firstTwoCached exactHost collectorsEqual collectorsOnce
    (rfl : aliveIndices allAlive = collector 0::collector 1::[collector 2]) later
  exact ⟨owners.1 shared first.symm,owners.2 second apart.symm⟩

theorem detourOwners : cached exactHost detour shared = some (collector 1) ∧
    cached exactHost detour second = some (collector 2) := by
  obtain ⟨_,first,_,apart⟩ := collectorSlots
  have later : Loop.FirstFrom (fun k => slot (entry exactHost collectors (collector 2)) k ≠
      slot (entry exactHost collectors (collector 1)) 0) 0 0 :=
    ⟨Nat.le_refl 0,by simp only [first,apart]; decide,fun k _ lt => absurd lt (Nat.not_lt_zero k)⟩
  have owners := firstTwoCached exactHost collectorsEqual collectorsOnce
    (rfl : aliveIndices detour = collector 1::collector 2::[]) later
  exact ⟨owners.1 shared first.symm,owners.2 second apart.symm⟩

def sharedKey : Bytes := [192,168,164,6]

def secondKey : Bytes := [192,168,187,167]

theorem keySlots : hashKey exactHost sharedKey = shared ∧ hashKey exactHost secondKey = second := by
  decide +kernel

theorem detourRecovers : setAlive detour (collector 0) true = allAlive := by
  simp only [detour,setAlive,Function.update_idem]
  exact Function.update_eq_self (collector 0) allAlive

theorem nextServed {s : State pool} {a} (same : Matches host s a) {key k i}
    (slotOf : hashKey host key = k) (owner : cached host a.snapshot k = some i)
    (alive : a.view i = true) : next host s key = some (s,some i) := by
  subst slotOf
  have found := (lookRebuilt host same.table (hashKey host key)).1
  exact nextAlive host (found.trans (congrArg some owner)) (same.view ▸ alive)

theorem detourStep : LazyCache.lookup (build exactHost) ⟨detour,allAlive⟩ shared =
    (⟨detour,detour⟩,some (collector 1)) := by
  have stale : LazyCache.Stale (build exactHost) ⟨detour,allAlive⟩ shared :=
    ⟨collector 0,wholeOwners.1,by decide⟩
  rw [LazyCache.lookupStale (buildLawful exactHost) stale]
  exact congrArg (Prod.mk _) detourOwners.1

/- A call made while no backend is alive empties the table, and an empty table
is never rebuilt. Nothing else makes the balancer unavailable. -/
theorem availableExactly (alive : Alive pool) (events : List (Event pool)) :
    ∃ s, runNew host alive events = some s ∧ (SomeAlive s.alive →
      ((∀ key, ∃ t i, next host s key = some (t,some i) ∧ s.alive i = true) ↔
        SomeAlive alive ∧ Attended alive events)) := by
  obtain ⟨s,ran,same⟩ := runNewMatches host alive events
  have live := LazyCache.runLive (buildLawful host) ⟨alive,alive⟩ (abstractEvents host alive events)
  rw [someAliveLive host alive,attendedAbstract] at live
  refine ⟨s,ran,fun lively => ?_⟩
  rw [← live]
  constructor
  · intro served
    by_contra empty
    obtain ⟨t,i,ok,_⟩ := served []
    obtain ⟨u,again,_⟩ := nextMatches host same []
    rw [LazyCache.lookupEmpty (buildLawful host) empty,ok] at again
    cases congrArg Prod.snd (Option.some.inj again)
  · intro cached key
    rw [same.view] at lively
    obtain ⟨i,found,usable⟩ := LazyCache.lookupServes (buildLawful host) cached lively (hashKey host key)
    obtain ⟨t,ok,_⟩ := nextMatches host same key
    rw [found] at ok
    exact ⟨t,i,ok,by rw [same.view]; exact usable⟩

def outage : List (Event collectors) :=
  [.flip (collector 0) false,.flip (collector 1) false,.flip (collector 2) false,
    .next sharedKey,.flip (collector 0) true]

theorem outageNeverEnds : ∃ s, runNew exactHost allAlive outage = some s ∧
    s.alive (collector 0) = true ∧ ∀ key, next exactHost s key = some (s,none) := by
  obtain ⟨s,ran,same⟩ := runNewMatches exactHost allAlive outage
  have live := LazyCache.runLive (buildLawful exactHost) ⟨allAlive,allAlive⟩
    (abstractEvents exactHost allAlive outage)
  rw [attendedAbstract] at live
  have empty : ¬ LazyCache.Live (build exactHost) (LazyCache.run (build exactHost)
      ⟨allAlive,allAlive⟩ (abstractEvents exactHost allAlive outage)).snapshot := by
    intro cached
    obtain ⟨⟨i,up⟩,_⟩ := (live.mp cached).2
    change Fin 3 at i
    fin_cases i <;> exact absurd up (by decide)
  refine ⟨s,ran,by rw [same.view]; rfl,fun key => nextMissing exactHost ?_⟩
  rw [(lookRebuilt exactHost same.table (hashKey exactHost key)).1]
  exact congrArg some (LazyCache.entryDead (buildLawful exactHost) empty _)

/- A run without stale lookups ends with the table it started from. After a
stale lookup some backend owns no slot, however many recoveries follow. -/
theorem restoredWhenCalm (events : List (Event pool)) :
    ∃ fresh s, new host allAlive = some fresh ∧ run host fresh events = some s ∧
      (s.alive = allAlive →
        (Calm host fresh events → ∀ key, ∃ t u r,
          next host s key = some (t,r) ∧ next host fresh key = some (u,r)) ∧
        (¬ Calm host fresh events → ∃ i : pool.Index, ∀ key t r,
          next host s key = some (t,r) → r ≠ some i)) := by
  obtain ⟨fresh,ok,same⟩ := newMatches host (@allAlive pool)
  obtain ⟨s,ran,final⟩ := runMatches host same events
  refine ⟨fresh,s,ok,ran,fun recovered => ⟨?_,?_⟩⟩
  · intro calm key
    have view := final.view.symm.trans recovered
    have kept := LazyCache.runCalm ((calmAbstract host same events).mp calm)
    obtain ⟨t,found,_⟩ := nextMatches host final key
    obtain ⟨u,origin,_⟩ := nextMatches host same key
    rw [LazyCache.State.ext (y := ⟨allAlive,allAlive⟩) view kept] at found
    exact ⟨t,u,_,found,origin⟩
  · intro disturbed
    have notCalm := fun calm => disturbed ((calmAbstract host same events).mpr calm)
    obtain ⟨i,lost⟩ := LazyCache.runStale (buildLawful host) (.inl notCalm)
    refine ⟨i,fun key t r found named => ?_⟩
    obtain ⟨u,again,_⟩ := nextMatches host final key
    rw [LazyCache.lookupKept ?_,found] at again
    · have held := (congrArg Prod.snd (Option.some.inj again)).symm.trans named
      exact absurd ((buildLawful host).fresh held) (by rw [lost]; decide)
    · intro stale
      obtain ⟨j,_,dead⟩ := stale
      rw [← final.view,recovered] at dead
      contradiction

theorem abstractNexts (alive : Alive pool) (keys : List Bytes) :
    abstractEvents host alive (keys.map .next) = (keys.map (hashKey host)).map .lookup := by
  induction keys with
  | nil => rfl
  | cons key rest ih =>
    simp only [List.map_cons,abstractEvents,abstractEvent,flagsAfter,ih]

theorem runNexts {s : State pool} {a} (same : Matches host s a) (keys : List Bytes) :
    ∃ t, run host s (keys.map .next) = some t ∧
      Matches host t (LazyCache.lookups (build host) a (keys.map (hashKey host))) := by
  obtain ⟨t,ran,final⟩ := runMatches host same (keys.map .next)
  rw [abstractNexts,LazyCache.runLookups] at final
  exact ⟨t,ran,final⟩

theorem rebuiltEntry {s : State pool} {a} (same : Matches host s a) (k : Fin tableSize)
    (i : pool.Index) : (build host).entry a.view k = some i ↔
      ∃ rebuilt, rebuildTable host s = some rebuilt ∧
        look pool rebuilt.lookupTable k = some (some i) := by
  obtain ⟨table,ok⟩ := tableForDefined host (aliveIndices s.alive)
  obtain ⟨found,_⟩ := lookRebuilt host ok k
  rw [← same.view]
  simp only [rebuildTable,ok,bind,Option.bind,Option.some.injEq,exists_eq_left',found]
  rfl

theorem detourOutlivesRecovery : ∃ fresh s t u,
    new exactHost (allAlive : Alive collectors) = some fresh ∧
    run exactHost fresh [.flip (collector 0) false,.next sharedKey,.flip (collector 0) true] = some s ∧
    s.alive = allAlive ∧ next exactHost s sharedKey = some (t,some (collector 1)) ∧
    next exactHost fresh sharedKey = some (u,some (collector 0)) := by
  obtain ⟨fresh,ok,same⟩ := newMatches exactHost (allAlive : Alive collectors)
  obtain ⟨s,ran,final⟩ := runMatches exactHost same
    [.flip (collector 0) false,.next sharedKey,.flip (collector 0) true]
  have flags : fresh.alive = allAlive := same.view
  have settled : LazyCache.run (build exactHost) ⟨allAlive,allAlive⟩ (abstractEvents exactHost
      fresh.alive [.flip (collector 0) false,.next sharedKey,.flip (collector 0) true]) =
      ⟨allAlive,detour⟩ := by
    rw [flags]
    simp only [abstractEvents,abstractEvent,flagsAfter,← detour.eq_1]
    rw [keySlots.1,detourRecovers,LazyCache.runChange,LazyCache.runLookup,detourStep]
    rfl
  rw [settled] at final
  exact ⟨fresh,s,s,fresh,ok,ran,final.view,
    nextServed exactHost final keySlots.1 detourOwners.1 rfl,
    nextServed exactHost same keySlots.1 wholeOwners.1 rfl⟩

/- A second lookup of a key finds the same backend exactly when no lookup in
between was stale, or when the table of the current flags agrees at that slot. -/
theorem affinityExactly (alive : Alive pool) (events : List (Event pool)) :
    ∃ s, runNew host alive events = some s ∧ ∀ key t i, next host s key = some (t,some i) →
      ∀ keys : List Bytes, ∃ u v r, run host t (keys.map .next) = some u ∧
        next host u key = some (v,r) ∧
        (r = some i ↔ (∀ other ∈ keys, ¬ Stale host s other) ∨
          ∃ rebuilt, rebuildTable host s = some rebuilt ∧
            look pool rebuilt.lookupTable (hashKey host key) = some (some i)) := by
  obtain ⟨s,ran,same⟩ := runNewMatches host alive events
  refine ⟨s,ran,fun key t i first keys => ?_⟩
  obtain ⟨afterFirst,again,tMatches⟩ := nextMatches host same key
  have both := Option.some.inj (again.symm.trans first)
  have found := congrArg Prod.snd both
  obtain rfl : afterFirst = t := congrArg Prod.fst both
  obtain ⟨u,between,uMatches⟩ := runNexts host tMatches keys
  obtain ⟨v,second,_⟩ := nextMatches host uMatches key
  have affine := LazyCache.lookupAgain (buildLawful host) (keys.map (hashKey host)) found
  refine ⟨u,v,_,between,second,affine.trans ?_⟩
  rw [rebuiltEntry host same,List.forall_mem_map]
  simp only [staleAbstract host same]

theorem neighbourMovesFlow : ∃ s t u v,
    runNew exactHost allAlive [.flip (collector 0) false] = some s ∧
    next exactHost s secondKey = some (t,some (collector 1)) ∧
    run exactHost t [.next sharedKey] = some u ∧
    next exactHost u secondKey = some (v,some (collector 2)) := by
  obtain ⟨s,ran,same⟩ := runNewMatches exactHost allAlive [.flip (collector 0) false]
  have down : LazyCache.run (build exactHost) ⟨allAlive,allAlive⟩
      (abstractEvents exactHost allAlive [.flip (collector 0) false]) = ⟨detour,allAlive⟩ := rfl
  rw [down] at same
  obtain ⟨u,between,after⟩ := runMatches exactHost same [.next sharedKey]
  have moved : LazyCache.run (build exactHost) ⟨detour,allAlive⟩
      (abstractEvents exactHost s.alive [.next sharedKey]) = ⟨detour,detour⟩ := by
    simp only [abstractEvents,abstractEvent]
    rw [keySlots.1,LazyCache.runLookup,detourStep]
    rfl
  rw [moved] at after
  exact ⟨s,s,u,u,ran,nextServed exactHost same keySlots.2 wholeOwners.2 rfl,between,
    nextServed exactHost after keySlots.2 detourOwners.2 rfl⟩

end UdpBalancer.MaglevRuns
