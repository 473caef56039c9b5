import UdpBalancer.WrrCalls

/-! What health checks of other backends can take from a backend that stays alive:
nothing. Concurrent callers of `WeightedRoundRobin::next` give it its share of all
weights, whatever flags change around it and whenever. -/
namespace UdpBalancer.WrrChurn
open Backends WrrFlips WrrScan WrrFairness WrrCalls
open HitWindow (hitsIn hitsNext hitsShare)
open Linearizable (Move Traces responses played)

variable {pool : Pool} {w : Wrr.Wheel} {shares : pool.Index → Nat} {top : Nat} {i : pool.Index}

def everyAlive (pool : Pool) : Alive pool := fun _ => true

def own (shares : pool.Index → Nat) (top : Nat) (i : pool.Index) (T U : Nat) : Nat :=
  (hitsIn (At shares top i) T U).card

def covered (shares : pool.Index → Nat) (top : Nat) (T U : Nat) : Nat :=
  (hitsIn (FreeHit shares top (everyAlive pool)) T U).card

/- Every visit of its own has served backend `i`; all other answers but `short` many
have used up a visit, and those `short` were answers of `i`. -/
structure Balance (shares : pool.Index → Nat) (top : Nat) (i : pool.Index) (T U : Nat)
    (rs : List (Option pool.Index)) (short : Nat) : Prop where
  served : rs.count (some i) = short+own shares top i T U
  total : rs.length ≤ short+covered shares top T U

theorem balanceShort {T U rs short} (balance : Balance shares top i T U rs short) :
    Balance shares top i T U (rs ++ [some i]) (short+1) where
  served := by
    rw [List.count_append,balance.served,List.count_singleton_self]
    omega
  total := by
    have total := balance.total
    rw [List.length_append,List.length_singleton]
    omega

theorem balancePass {T U rs short} (le : T ≤ U) (missed : ¬ At shares top i U)
    (balance : Balance shares top i T U rs short) :
    Balance shares top i T (U+1) rs short where
  served := by rw [own,hitsNext le,if_neg missed,Nat.add_zero]; exact balance.served
  total := by
    have total := balance.total
    rw [covered,hitsNext le]
    unfold covered at total
    omega

theorem balanceServe {T U rs short} (le : T ≤ U) {j : pool.Index} (here : At shares top j U)
    (balance : Balance shares top i T U rs short) :
    Balance shares top i T (U+1) (rs ++ [some j]) short where
  served := by
    have served := balance.served
    unfold own at served
    rw [List.count_append,served,own,hitsNext le,Nat.add_assoc]
    by_cases same : j = i
    · subst same
      rw [if_pos here,List.count_singleton_self]
    · have elsewhere : ¬ At shares top i U := fun there => same (Fin.ext (here.1.symm.trans there.1))
      have other : [some j].count (some i) = 0 := List.count_eq_zero.mpr fun mem =>
        same (Option.some.inj (List.mem_singleton.mp mem)).symm
      rw [if_neg elsewhere,other]
  total := by
    have total := balance.total
    have hit : FreeHit shares top (everyAlive pool) U := ⟨j,rfl,here⟩
    rw [covered,hitsNext le,if_pos hit,List.length_append,List.length_singleton]
    unfold covered at total
    omega

def Finds (i : pool.Index) : Pc pool → Prop
  | .collecting rest found => i ∈ found ∨ i ∈ rest
  | _ => True

structure Served (shares : pool.Index → Nat) (top : Nat) (i : pool.Index) (T : Nat)
    (rs : List (Option pool.Index)) (y : World pool) : Prop where
  up : y.alive i = true
  finds : ∀ t, Finds i (y.calls t)
  ahead : T ≤ y.state.current
  some : none ∉ rs
  balance : y.state.current ≤ Wrr.counterPeriod →
    ∃ short, Balance shares top i T y.state.current rs short

theorem findsUpdate {y : World pool} {t pc} (finds : ∀ t, Finds i (y.calls t))
    (here : Finds i pc) (u : Nat) : Finds i ((goto y t pc).calls u) := by
  by_cases same : u = t
  · subst same
    rw [gotoCall]
    exact here
  · rw [callOther y same]
    exact finds u

theorem servedGoto {T rs} {y : World pool} {t pc} (served : Served shares top i T rs y)
    (here : Finds i pc) : Served shares top i T rs (goto y t pc) where
  up := served.up
  finds := findsUpdate served.finds here
  ahead := served.ahead
  some := served.some
  balance := served.balance

theorem servedShort {T rs} {y : World pool} {t} (served : Served shares top i T rs y) :
    Served shares top i T (rs ++ [some i]) (goto y t (.returned (some i))) where
  up := served.up
  finds := findsUpdate served.finds trivial
  ahead := served.ahead
  some := fun mem => by
    rcases List.mem_append.mp mem with before | last
    · exact served.some before
    · cases List.mem_singleton.mp last
  balance := fun inside => by
    obtain ⟨short,balance⟩ := served.balance inside
    exact ⟨short+1,balanceShort balance⟩

theorem servedDecided {T rs} {y : World pool} {t found} (served : Served shares top i T rs y)
    (mem : i ∈ found) :
    Served shares top i T (rs ++ responses (answer t (decided found))) (goto y t (decided found)) := by
  cases found with
  | nil => contradiction
  | cons first rest =>
    cases rest with
    | nil =>
      cases List.mem_singleton.mp mem
      exact servedShort served
    | cons second rest =>
      rw [show responses (answer t (decided (first::second::rest))) = [] from rfl,List.append_nil]
      exact servedGoto served trivial

theorem turnServed (parts : Parts w pool shares top) {T rs} {y : World pool} {t nonempty}
    (law : y.state = stateAt pool w y.state.current) (pc : y.calls t = .scanning nonempty)
    (served : Served shares top i T rs y) :
    Served shares top i T (rs ++ responses (watch y (.step t) (callStep w t y)))
      (callStep w t y) := by
  obtain ⟨found,missed⟩ := scanSearches parts.fits nonempty y.alive y.state.current
  rw [← law] at found missed
  by_cases hit : Hit w y.alive y.state.current
  · have turn := found hit
    simp only [watch,callStep,pc,turn,gotoCall]
    refine ⟨served.up,findsUpdate served.finds trivial,?_,?_,fun inside => ?_⟩
    · simpa only [goto,stateCurrent] using Nat.le_succ_of_le served.ahead
    · intro mem
      rcases List.mem_append.mp mem with before | last
      · exact served.some before
      · cases List.mem_singleton.mp last
    · simp only [goto,stateCurrent] at inside ⊢
      obtain ⟨short,balance⟩ := served.balance (Nat.le_of_succ_le inside)
      obtain ⟨j,up,here⟩ := (hitFree parts y.alive inside).mp hit
      have chosen : place nonempty y.state.current = j := Fin.ext ((placeFree inside).trans here.1)
      exact ⟨short,chosen ▸ balanceServe served.ahead here balance⟩
  · have turn := missed hit
    simp only [watch,callStep,pc,turn,answer,responses,List.filterMap_nil,List.append_nil]
    refine ⟨served.up,served.finds,?_,served.some,fun inside => ?_⟩
    · simpa only [stateCurrent] using Nat.le_succ_of_le served.ahead
    · simp only [stateCurrent] at inside ⊢
      obtain ⟨short,balance⟩ := served.balance (Nat.le_of_succ_le inside)
      exact ⟨short,balancePass served.ahead
        (fun here => hit ((hitFree parts y.alive inside).mpr ⟨i,served.up,here⟩)) balance⟩

theorem stepServed (parts : Parts w pool shares top) {T rs} {y : World pool} (t : Nat)
    (law : y.state = stateAt pool w y.state.current) (served : Served shares top i T rs y) :
    Served shares top i T (rs ++ responses (watch y (.step t) (callStep w t y)))
      (callStep w t y) := by
  have finds := served.finds t
  cases pc : y.calls t with
  | idle =>
    simp only [watch,callStep,pc,responses,List.filterMap_nil,List.append_nil]
    exact served
  | returned r =>
    simp only [watch,callStep,pc,responses,List.filterMap_nil,List.append_nil]
    exact served
  | collecting rest found =>
    rw [pc] at finds
    cases rest with
    | nil =>
      simp only [watch,callStep,pc,gotoCall]
      exact servedDecided served (finds.resolve_right List.not_mem_nil)
    | cons j rest =>
      simp only [watch,callStep,pc,gotoCall,answer,responses,List.filterMap_nil,List.append_nil]
      refine servedGoto served ?_
      rcases finds with held | later
      · split
        · exact .inl (List.mem_append_left _ held)
        · exact .inl held
      · rcases List.mem_cons.mp later with rfl | after
        · rw [if_pos served.up]
          exact .inl (List.mem_append_right _ List.mem_cons_self)
        · exact .inr after
  | waiting nonempty =>
    by_cases unlocked : y.lock = none
    · simp only [watch,callStep,pc,unlocked,if_true,gotoCall,answer,responses,List.filterMap_nil,
        List.append_nil]
      exact servedGoto ⟨served.up,served.finds,served.ahead,served.some,served.balance⟩ trivial
    · simp only [watch,callStep,pc,unlocked,if_false,answer,responses,List.filterMap_nil,
        List.append_nil]
      exact served
  | scanning nonempty => exact turnServed parts law pc served

theorem beginServed {T rs} {y : World pool} (t : Nat) (served : Served shares top i T rs y) :
    Served shares top i T (rs ++ responses (watch y (.begin t) (goto y t (start pool))))
      (goto y t (start pool)) := by
  have begun : start pool = .collecting (List.finRange _) [] := by
    refine if_neg fun empty => ?_
    have none := List.isEmpty_iff_length_eq_zero.mp empty
    exact absurd i.pos (by omega)
  rw [begun]
  simp only [watch,gotoCall,answer,responses,List.filterMap_cons,Move.response,List.filterMap_nil,
    List.append_nil]
  exact servedGoto served (.inr (List.mem_finRange i))

theorem runServed (parts : Parts w pool shares top) {x y : World pool} {history}
    (reach : Transition.Reachable (system pool w) x) (quiet : ∀ t, Resting (x.calls t))
    (up : x.alive i = true) (traced : Traces (system pool w) watch x history y)
    (steady : Move.change (i,false) ∉ history) :
    Served shares top i x.state.current (responses history) y ∧
      Transition.Reachable (system pool w) y := by
  induction traced with
  | nil =>
    have finds : ∀ t, Finds i (x.calls t) := by
      intro t
      have resting := quiet t
      cases pc : x.calls t with
      | collecting rest found =>
        rw [pc] at resting
        exact resting.elim
      | _ => trivial
    refine ⟨⟨up,finds,le_refl _,List.not_mem_nil,fun _ => ⟨0,?_,?_⟩⟩,reach⟩
    · simp [responses,own,hitsIn]
    · simp [responses]
  | @step history y label z traced moved ih =>
    obtain ⟨served,reached⟩ := ih fun mem => steady (List.mem_append_left _ mem)
    refine ⟨?_,.step reached moved⟩
    rw [responses,List.filterMap_append]
    cases moved with
    | flip j flag =>
      simp only [watch,List.filterMap_cons,Move.response,List.filterMap_nil,List.append_nil]
      refine ⟨?_,served.finds,served.ahead,served.some,served.balance⟩
      by_cases same : i = j
      · subst same
        have stays : flag = true := by
          cases flag with
          | true => exact rfl
          | false => exact absurd (List.mem_append_right _ List.mem_cons_self) steady
        subst stays
        exact Function.update_self ..
      · exact (Function.update_of_ne same ..).trans served.up
    | begin t resting => exact beginServed t served
    | step t => exact stepServed parts t (flipsLaw parts.fits reached) served

theorem ownShare (parts : Parts w pool shares top) (i : pool.Index) (T : Nat) :
    (hitsIn (At shares top i) T (T+pool.backends.length*top)).card = shares i :=
  (Nat.filter_Ico_card_eq_of_periodic T _ _ (atPeriodic i)).trans (atCount parts i)

theorem everyShare (parts : Parts w pool shares top) (T : Nat) :
    (hitsIn (FreeHit shares top (everyAlive pool)) T (T+pool.backends.length*top)).card =
      ∑ j, shares j := by
  rw [hitsTotal parts]
  exact Finset.sum_congr (by simp [everyAlive]) fun _ _ => rfl

theorem churnShare (parts : Parts w pool shares top) {x y : World pool} {history}
    (reach : Transition.Reachable (system pool w) x) (quiet : ∀ t, Resting (x.calls t))
    (up : x.alive i = true) (traced : Traces (system pool w) watch x history y)
    (steady : Move.change (i,false) ∉ history) (unwrapped : y.state.current ≤ 2^64) :
    none ∉ responses history ∧
      ∀ q : Nat, q*∑ j, pool.weight j/w.gcdWeight ≤ (responses history).length →
        q*(pool.weight i/w.gcdWeight) ≤ (responses history).count (some i) := by
  obtain ⟨served,_⟩ := runServed parts reach quiet up traced steady
  refine ⟨served.some,fun q full => ?_⟩
  have quotient : ∀ j, pool.weight j/w.gcdWeight = shares j := by
    intro j
    rw [parts.share,mul_div_cancel_right₀ _ parts.fits.gcd.ne']
  simp only [quotient] at full ⊢
  obtain ⟨short,balance⟩ := served.balance unwrapped
  have full : q*∑ j, shares j ≤ (responses history).length := by exact_mod_cast full
  have within : ∀ T, At shares top i T → FreeHit shares top (everyAlive pool) T :=
    fun _ here => ⟨i,rfl,here⟩
  have due := hitsShare within (ownShare parts i) (everyShare parts) served.ahead
    (full.trans balance.total)
  have counted : q*shares i ≤ (responses history).count (some i) := by
    rw [balance.served]
    exact due
  exact_mod_cast counted

theorem churnServed (pool : Pool) (m : pool.Index → Nat) (units : Units pool m) :
    ∃ w s, Wrr.new pool = some (w,s) ∧
      ∀ x, Transition.Reachable (system pool w) x → (∀ t, Resting (x.calls t)) →
        ∀ i, x.alive i = true → ∀ history y, Traces (system pool w) watch x history y →
        Move.change (i,false) ∉ history → y.state.current ≤ 2^64 →
        none ∉ responses history ∧
        ∀ q : Nat, q*∑ j, pool.weight j/w.gcdWeight ≤ (responses history).length →
          q*(pool.weight i/w.gcdWeight) ≤ (responses history).count (some i) := by
  obtain ⟨w,shares,top,ok,parts⟩ := newParts units
  exact ⟨w,_,ok,fun x reach quiet i up history y traced steady unwrapped =>
    churnShare parts reach quiet up traced steady unwrapped⟩

def allUp : World heavyFirst := ⟨everyAlive heavyFirst,⟨0,0⟩,none,fun _ => .idle⟩

def churn : List (Label heavyFirst) :=
  .begin 0::List.replicate 6 (.step 0) ++
    [.begin 1,.step 1,.step 1,.begin 0,.flip second false] ++ List.replicate 9 (.step 1) ++
    .flip third false::List.replicate 4 (.step 0) ++
    [.flip second true,.flip third true,.begin 1] ++ List.replicate 9 (.step 1)

def stored : Move Unit (Option heavyFirst.Index) (heavyFirst.Index × Bool) →
    Option (heavyFirst.Index × Bool)
  | .change e => some e
  | _ => none

def comings : List (heavyFirst.Index × Bool) :=
  [(second,false),(third,false),(second,true),(third,true)]

theorem heavyTotal : ∑ j, heavyFirst.weight j/1 = 4 := by
  apply (Fin.sum_univ_three _).trans
  change (2/1 : ℚ)+1/1+1/1 = 4
  norm_num

theorem heavyThroughout : ∃ w s history y, Wrr.new heavyFirst = some (w,s) ∧
    Traces (system heavyFirst w) watch allUp history y ∧ history.filterMap stored = comings ∧
    (responses history).length = 4 ∧ 2 ≤ (responses history).count (some heavy) := by
  obtain ⟨w,s,ok,serves⟩ := churnServed heavyFirst heavyUnits heavyFirstUnits
  cases Option.some.inj (ok.symm.trans heavyFirstWheel)
  have reach : Transition.Reachable (system heavyFirst ⟨1,2⟩) allUp := .init ⟨rfl,rfl,fun _ => rfl⟩
  have ends : (played (after ⟨1,2⟩) watch allUp churn).isSome = true := by decide +kernel
  obtain ⟨⟨history,y⟩,ran⟩ := Option.isSome_iff_exists.mp ends
  have seen : (played (after ⟨1,2⟩) watch allUp churn).all (fun r => decide ((responses r.1).length = 4) &&
      decide (r.2.state.current ≤ 2^64) && decide (r.1.filterMap stored = comings)) = true := by
    decide +kernel
  simp only [ran,Option.all_some,Bool.and_eq_true,decide_eq_true_eq] at seen
  obtain ⟨⟨four,unwrapped⟩,stores⟩ := seen
  have traced := Linearizable.playedTraces (afterStep ⟨1,2⟩) .nil ran
  have steady : Move.change (heavy,false) ∉ history := by
    intro mem
    have store : (heavy,false) ∈ comings := stores ▸ List.mem_filterMap.mpr ⟨_,mem,rfl⟩
    exact absurd store (by decide)
  obtain ⟨_,share⟩ := serves allUp reach (fun _ => trivial) heavy rfl _ _ traced steady unwrapped
  have due := share 1
  rw [List.nil_append,heavyTotal,four] at due
  have due : (1 : ℚ)*(2/1) ≤ (responses history).count (some heavy) := due (by norm_num)
  rw [one_mul,div_one] at due
  exact ⟨_,_,history,y,ok,traced,stores,four,by exact_mod_cast due⟩

end UdpBalancer.WrrChurn
