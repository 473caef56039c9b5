import Mathlib.Data.Fintype.Card
import UdpBalancer.MaglevRuns

/-! How often `Maglev::next` rebuilds its table. Each rebuild is paid for by a
backend that was alive in the table in place and has died since; recoveries and the
number of lookups cost nothing. -/
namespace UdpBalancer.MaglevWork
open Backends MaglevRebuild MaglevLookup MaglevRuns

variable (host : Host) {pool : Pool}

def meetsDead (s : State pool) (key : Bytes) : Bool :=
  match look pool s.lookupTable (hashKey host key) with
  | some (some i) => !s.alive i
  | _ => false

def rebuilds : State pool → List (Event pool) → Nat
  | _, [] => 0
  | s, .flip i flag::rest => rebuilds {s with alive := setAlive s.alive i flag} rest
  | s, .next key::rest =>
      (if meetsDead host s key then 1 else 0) + match next host s key with
        | none => 0
        | some (t,_) => rebuilds t rest

def failures : Alive pool → List (Event pool) → Nat
  | _, [] => 0
  | alive, .flip i flag::rest =>
      (if alive i ∧ flag = false then 1 else 0) + failures (setAlive alive i flag) rest
  | alive, .next _::rest => failures alive rest

theorem meetsDeadStale (s : State pool) (key : Bytes) :
    meetsDead host s key = true ↔ Stale host s key := by
  unfold meetsDead Stale
  cases look pool s.lookupTable (hashKey host key) with
  | none => simp
  | some found => cases found <;> simp

/- What the table in place counts on and no longer has. -/
def lost (snapshot alive : Alive pool) : Nat :=
  (Finset.univ.filter (fun i => snapshot i = true ∧ alive i = false)).card

theorem lostSelf (alive : Alive pool) : lost alive alive = 0 := by
  refine Finset.card_eq_zero.mpr (Finset.filter_eq_empty_iff.mpr fun i _ both => ?_)
  rw [both.1] at both
  exact Bool.noConfusion both.2

theorem lostFlip (snapshot alive : Alive pool) (i : pool.Index) (flag : Bool) :
    lost snapshot (setAlive alive i flag) ≤
      lost snapshot alive + if alive i ∧ flag = false then 1 else 0 := by
  have within : Finset.univ.filter (fun j => snapshot j = true ∧ setAlive alive i flag j = false) ⊆
      Finset.univ.filter (fun j => snapshot j = true ∧ alive j = false) ∪
        (if alive i ∧ flag = false then {i} else ∅) := by
    intro j mem
    obtain ⟨_,held,dead⟩ := Finset.mem_filter.mp mem
    rw [Finset.mem_union,Finset.mem_filter]
    by_cases down : alive j = false
    · exact .inl ⟨Finset.mem_univ j,held,down⟩
    · have same : j = i := by
        by_contra apart
        rw [setAlive,Function.update_of_ne apart] at dead
        exact down dead
      subst same
      rw [setAlive,Function.update_self] at dead
      rw [if_pos ⟨Bool.not_eq_false _ ▸ down,dead⟩]
      exact .inr (Finset.mem_singleton_self j)
  refine (Finset.card_le_card within).trans ((Finset.card_union_le _ _).trans ?_)
  refine Nat.add_le_add_left ?_ _
  split
  · exact (Finset.card_singleton i).le
  · exact Nat.le_refl 0

theorem lostStale {s : State pool} {a} (same : Matches host s a) {key}
    (stale : Stale host s key) : 0 < lost a.snapshot s.alive := by
  obtain ⟨i,held,dead⟩ := (staleAbstract host same key).mp stale
  refine Finset.card_pos.mpr ⟨i,Finset.mem_filter.mpr ⟨Finset.mem_univ i,?_,?_⟩⟩
  · exact (buildLawful host).fresh held
  · rw [same.view]
    exact dead

theorem rebuildsPaid {s : State pool} {a} (same : Matches host s a) (events : List (Event pool)) :
    rebuilds host s events ≤ lost a.snapshot s.alive + failures s.alive events := by
  induction events generalizing s a with
  | nil => exact Nat.zero_le _
  | cons event rest ih =>
    cases event with
    | flip i flag =>
      have flipped : Matches host {s with alive := setAlive s.alive i flag}
          ⟨setAlive s.alive i flag,a.snapshot⟩ := ⟨rfl,same.table⟩
      have later : rebuilds host {s with alive := setAlive s.alive i flag} rest ≤
          lost a.snapshot (setAlive s.alive i flag) + failures (setAlive s.alive i flag) rest :=
        ih (a := ⟨setAlive s.alive i flag,a.snapshot⟩) flipped
      have step := lostFlip a.snapshot s.alive i flag
      simp only [rebuilds,failures]
      omega
    | next key =>
      obtain ⟨t,ok,after⟩ := nextMatches host same key
      have later := ih after
      have flags : t.alive = s.alive := by
        rw [after.view,LazyCache.lookupView (buildLawful host),← same.view]
      rw [flags] at later
      simp only [rebuilds,failures,ok]
      by_cases stale : Stale host s key
      · have paid := lostStale host same stale
        have renewed : (LazyCache.lookup (build host) a (hashKey host key)).1.snapshot = s.alive := by
          rw [LazyCache.lookupStale (buildLawful host) ((staleAbstract host same key).mp stale)]
          exact same.view.symm
        rw [renewed,lostSelf] at later
        rw [if_pos ((meetsDeadStale host s key).mpr stale)]
        omega
      · have kept : (LazyCache.lookup (build host) a (hashKey host key)).1.snapshot = a.snapshot := by
          rw [LazyCache.lookupKept fun abstract => stale ((staleAbstract host same key).mpr abstract)]
        rw [kept] at later
        rw [if_neg fun dead => stale ((meetsDeadStale host s key).mp dead)]
        omega

theorem rebuildsBounded (alive : Alive pool) (events : List (Event pool)) :
    ∃ s, new host alive = some s ∧ rebuilds host s events ≤ failures alive events := by
  obtain ⟨s,ok,same⟩ := newMatches host alive
  have paid := rebuildsPaid host same events
  have view : s.alive = alive := same.view
  rw [view,lostSelf,Nat.zero_add] at paid
  exact ⟨s,ok,paid⟩

end UdpBalancer.MaglevWork
