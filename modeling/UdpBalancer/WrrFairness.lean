import Mathlib.Algebra.BigOperators.Fin
import Mathlib.Algebra.BigOperators.Ring.Finset
import Mathlib.Data.Nat.Count
import Mathlib.Data.Nat.Periodic
import UdpBalancer.HitWindow
import UdpBalancer.WrrScan

/-! Fairness of `WeightedRoundRobin` for weights in whole units of epsilon. The
divisor is then the exact one, every weight is a share of it, and a round of the
levels serves each alive backend its share, wherever the round starts. -/
namespace UdpBalancer.WrrFairness
open Backends Wrr WrrScan Rotation

def Units (pool : Pool) (m : pool.Index → Nat) : Prop := ∀ i, pool.weight i = m i*epsilon

variable {pool : Pool} {w : Wheel}

inductive Window (w : Wheel) (alive : Alive pool) :
    State → List (Option pool.Index) → State → Prop where
  | nil (s) : Window w alive s [] s
  | cons {s t u r rs} (returned : Returns w alive s (t,r)) (rest : Window w alive t rs u) :
      Window w alive s (r::rs) u

theorem remExact (a : Nat) {b : Nat} : rem (a*epsilon) (b*epsilon) = (a % b : Nat)*epsilon := by
  have unit := epsilonPos.ne'
  have floor : ⌊(a*epsilon : ℚ)/(b*epsilon)⌋ = ((a/b : Nat) : ℤ) := by
    rw [mul_div_mul_right _ _ unit]
    exact Rat.floor_natCast_div_natCast a b
  have split : ((a % b : Nat) : ℚ) = a-b*(a/b : Nat) := by
    have whole := Nat.mod_add_div a b
    have cast : ((a % b+b*(a/b) : Nat) : ℚ) = a := by rw [whole]
    push_cast at cast ⊢
    linarith
  unfold rem
  rw [floor,split,Int.cast_natCast]
  ring

theorem gcdReturns (a b : Nat) :
    Loop.Returns gcdStep ((a*epsilon : ℚ),(b*epsilon : ℚ)) (Nat.gcd b a*epsilon) := by
  induction b using Nat.strong_induction_on generalizing a with
  | _ b ih =>
    cases b with
    | zero =>
      have leaves : gcdStep ((a*epsilon : ℚ),((0 : Nat)*epsilon : ℚ)) = .done (a*epsilon) :=
        if_pos (by simpa using epsilonPos)
      rw [Nat.gcd_zero_left]
      exact ⟨1,Loop.runDone leaves 0⟩
    | succ b =>
      have large : ¬ ((b+1 : Nat)*epsilon : ℚ) < epsilon := by
        rw [not_lt]
        exact le_mul_of_one_le_left epsilonPos.le (by exact_mod_cast Nat.succ_pos b)
      have goes : gcdStep ((a*epsilon : ℚ),((b+1 : Nat)*epsilon : ℚ)) =
          .more (((b+1 : Nat)*epsilon : ℚ),((a % (b+1) : Nat)*epsilon : ℚ)) := by
        simp only [gcdStep,large,if_false,remExact]
      obtain ⟨fuel,ok⟩ := ih (a % (b+1)) (Nat.mod_lt a (Nat.succ_pos b)) (b+1)
      rw [Nat.gcd_rec]
      exact ⟨fuel+1,(Loop.runMore goes fuel).trans ok⟩

theorem gcdExact (a b : Nat) : gcdF64 (a*epsilon) (b*epsilon) = some (Nat.gcd b a*epsilon) := by
  have unit := epsilonPos.le
  obtain ⟨g,ok⟩ := gcdDefined (mul_nonneg a.cast_nonneg unit) (mul_nonneg b.cast_nonneg unit)
  rw [ok,Loop.returnsUnique ⟨_,ok⟩ (gcdReturns a b)]

/- The result of construction on whole units: weights are shares of the divisor
and so is the largest of them. -/
structure Parts (w : Wheel) (pool : Pool) (shares : pool.Index → Nat) (top : Nat) : Prop where
  fits : w.Fits pool
  share : ∀ i, pool.weight i = shares i*w.gcdWeight
  most : w.maxWeight = top*w.gcdWeight

theorem gcdFoldExact (ms : List Nat) (a : Nat) :
    (ms.map (fun m : Nat => (m*epsilon : ℚ))).foldlM gcdF64 (a*epsilon) =
      some ((ms.foldl (fun acc m => Nat.gcd m acc) a : Nat)*epsilon) := by
  induction ms generalizing a with
  | nil => rfl
  | cons m rest ih =>
    simp only [List.map_cons,List.foldlM_cons,gcdExact,bind,Option.bind,List.foldl_cons]
    exact ih _

theorem foldDvd (ms : List Nat) (a : Nat) :
    ms.foldl (fun acc m => Nat.gcd m acc) a ∣ a ∧
      ∀ m ∈ ms, ms.foldl (fun acc m => Nat.gcd m acc) a ∣ m := by
  induction ms generalizing a with
  | nil => exact ⟨dvd_refl a,fun m mem => absurd mem List.not_mem_nil⟩
  | cons x rest ih =>
    obtain ⟨start,others⟩ := ih (Nat.gcd x a)
    refine ⟨start.trans (Nat.gcd_dvd_right x a),fun m mem => ?_⟩
    rcases List.mem_cons.mp mem with rfl | tail
    · exact start.trans (Nat.gcd_dvd_left m a)
    · exact others m tail

theorem maxFoldExact (ms : List Nat) (a : Nat) :
    (ms.map (fun m : Nat => (m*epsilon : ℚ))).foldl max (a*epsilon) =
      (ms.foldl max a : Nat)*epsilon := by
  have unit := epsilonPos.le
  induction ms generalizing a with
  | nil => rfl
  | cons m rest ih =>
    rw [List.map_cons,List.foldl_cons,List.foldl_cons,← ih (max a m),Nat.cast_max,
      max_mul_of_nonneg _ _ unit]

theorem maxDvd {G : Nat} {ms : List Nat} (each : ∀ m ∈ ms, G ∣ m) {a : Nat} (start : G ∣ a) :
    G ∣ ms.foldl max a := by
  induction ms generalizing a with
  | nil => exact start
  | cons m rest ih =>
    apply ih (fun x mem => each x (List.mem_cons_of_mem m mem))
    rcases max_choice a m with left | right
    · rwa [left]
    · rw [right]
      exact each m List.mem_cons_self

theorem unitWeights {m : pool.Index → Nat} (units : Units pool m) :
    pool.backends.map Backend.weight = (List.ofFn m).map (fun m : Nat => (m*epsilon : ℚ)) := by
  rw [List.map_ofFn]
  apply List.ext_getElem (by simp)
  intro i left right
  have lt : i < pool.backends.length := by simpa using left
  have weight : pool.backends[i].weight = m ⟨i,lt⟩*epsilon := units ⟨i,lt⟩
  simpa using weight

theorem newParts {m : pool.Index → Nat} (units : Units pool m) :
    ∃ w shares top, new pool = some (w,⟨0,0⟩) ∧ Parts w pool shares top := by
  obtain ⟨w,ok,fits⟩ := newFits pool
  have gcd := gcdFoldExact (List.ofFn m) 0
  have most := maxFoldExact (List.ofFn m) 0
  obtain ⟨_,divides⟩ := foldDvd (List.ofFn m) 0
  generalize (List.ofFn m).foldl (fun acc m => Nat.gcd m acc) 0 = G at gcd divides
  have topDvd := maxDvd divides (dvd_zero G)
  generalize (List.ofFn m).foldl max 0 = M at most topDvd
  rw [← unitWeights units,Nat.cast_zero,zero_mul] at gcd most
  have wheel := ok
  simp only [new,gcd,most,bind,Option.bind,Option.some.injEq,Prod.mk.injEq,and_true] at wheel
  by_cases empty : G = 0
  · have none : ∀ i : pool.Index, False := by
      intro i
      have positive := weightPositive pool i
      have zero := divides (m i) (List.mem_ofFn.mpr ⟨i,rfl⟩)
      rw [empty,zero_dvd_iff] at zero
      rw [units i,zero,Nat.cast_zero,zero_mul] at positive
      exact lt_irrefl 0 positive
    rw [empty,zero_dvd_iff] at topDvd
    refine ⟨w,fun _ => 0,0,ok,fits,fun i => (none i).elim,?_⟩
    rw [← wheel,topDvd]
    simp
  · have positive : (0 : ℚ) < G*epsilon :=
      mul_pos (by exact_mod_cast Nat.pos_of_ne_zero empty) epsilonPos
    rw [if_pos positive] at wheel
    have scale : ∀ x, G ∣ x → (x*epsilon : ℚ) = (x/G : Nat)*(G*epsilon) := by
      intro x whole
      obtain ⟨k,rfl⟩ := whole
      rw [Nat.mul_div_cancel_left k (Nat.pos_of_ne_zero empty),Nat.cast_mul]
      ring
    refine ⟨w,fun i => m i/G,M/G,ok,fits,fun i => ?_,?_⟩
    · rw [units i,← wheel]
      exact scale (m i) (divides (m i) (List.mem_ofFn.mpr ⟨i,rfl⟩))
    · rw [← wheel]
      exact scale M topDvd

section counting
variable {shares : pool.Index → Nat} {top : Nat}

theorem stepsTop (parts : Parts w pool shares top) : steps w.maxWeight w.gcdWeight = top := by
  rw [steps,parts.most,mul_div_cancel_right₀ _ parts.fits.gcd.ne',Nat.ceil_natCast]

theorem shareLe (parts : Parts w pool shares top) (i : pool.Index) : shares i ≤ top := by
  have le := parts.fits.max i
  rw [parts.share,parts.most] at le
  exact_mod_cast le_of_mul_le_mul_right le parts.fits.gcd

theorem topPos (parts : Parts w pool shares top) (i : pool.Index) : 0 < top := by
  have positive := stepsPos (maxPos parts.fits i.pos) parts.fits.gcd
  rwa [stepsTop parts] at positive

def At (shares : pool.Index → Nat) (top : Nat) (i : pool.Index) (T : Nat) : Prop :=
  T % pool.backends.length = i.val ∧ top-T/pool.backends.length % top ≤ shares i

instance (i : pool.Index) : DecidablePred (At shares top i) :=
  fun T => inferInstanceAs (Decidable (T % pool.backends.length = i.val ∧
    top-T/pool.backends.length % top ≤ shares i))

def FreeHit (shares : pool.Index → Nat) (top : Nat) (alive : Alive pool) (T : Nat) : Prop :=
  ∃ i : pool.Index, alive i = true ∧ At shares top i T

instance (alive : Alive pool) : DecidablePred (FreeHit shares top alive) :=
  fun T => inferInstanceAs (Decidable (∃ i : pool.Index, alive i = true ∧ At shares top i T))

theorem placeFree {T : Nat} (inside : T < counterPeriod) :
    position counterPeriod pool.backends.length T = T % pool.backends.length := by
  rw [position,Nat.mod_eq_of_lt inside]

theorem passFree {T : Nat} (inside : T < counterPeriod) :
    passAt pool T = T/pool.backends.length := by
  rw [passAt,Rotation.pass,Nat.mod_eq_of_lt inside,Nat.div_eq_of_lt inside,Nat.zero_mul,Nat.zero_add]

theorem hitFree (parts : Parts w pool shares top) (alive : Alive pool) {T : Nat}
    (inside : T < counterPeriod) : Hit w alive T ↔ FreeHit shares top alive T := by
  have low : ∀ i : pool.Index, levelAt pool w T ≤ pool.weight i ↔
      top-T/pool.backends.length % top ≤ shares i := by
    intro i
    have le : T/pool.backends.length % top ≤ top := (Nat.mod_lt _ (topPos parts i)).le
    have value : levelAt pool w T =
        ((top-T/pool.backends.length % top : Nat) : ℚ)*w.gcdWeight := by
      rw [levelAt,level,stepsTop parts,passFree inside,parts.most,Nat.cast_sub le]
      ring
    rw [value,parts.share,mul_le_mul_iff_left₀ parts.fits.gcd]
    exact Nat.cast_le
  unfold Hit FreeHit At
  simp only [placeFree inside,low]
  constructor
  · intro hit
    obtain ⟨i,here,up,enough⟩ := hit
    exact ⟨i,up,here.symm,enough⟩
  · intro hit
    obtain ⟨i,up,here,enough⟩ := hit
    exact ⟨i,here.symm,up,enough⟩

theorem atPeriodic (i : pool.Index) :
    Function.Periodic (At shares top i) (pool.backends.length*top) := by
  intro T
  have column : (T+pool.backends.length*top) % pool.backends.length = T % pool.backends.length :=
    Nat.add_mul_mod_self_left _ _ _
  have row : (T+pool.backends.length*top)/pool.backends.length = T/pool.backends.length+top :=
    Nat.add_mul_div_left _ _ i.pos
  rw [At,At,column,row,Nat.add_mod_right]

theorem atCount (parts : Parts w pool shares top) (i : pool.Index) :
    Nat.count (At shares top i) (pool.backends.length*top) = shares i := by
  have le := shareLe parts i
  have rows : (Finset.range (pool.backends.length*top)).filter (At shares top i) =
      (Finset.Ico (top-shares i) top).image (fun q => q*pool.backends.length+i.val) := by
    ext T
    simp only [Finset.mem_filter,Finset.mem_range,Finset.mem_image,Finset.mem_Ico,At]
    constructor
    · intro found
      obtain ⟨inside,here,enough⟩ := found
      have row : T/pool.backends.length < top := Nat.div_lt_of_lt_mul inside
      rw [Nat.mod_eq_of_lt row] at enough
      exact ⟨T/pool.backends.length,⟨by omega,row⟩,by rw [← here,Nat.div_add_mod']⟩
    · intro found
      obtain ⟨q,⟨low,high⟩,rfl⟩ := found
      have row : (q*pool.backends.length+i.val)/pool.backends.length = q := by
        rw [Nat.add_comm,Nat.add_mul_div_right _ _ i.pos,Nat.div_eq_of_lt i.isLt,Nat.zero_add]
      have whole : (q+1)*pool.backends.length ≤ top*pool.backends.length :=
        Nat.mul_le_mul_right _ high
      have lt := i.isLt
      rw [row,Nat.mod_eq_of_lt high,Nat.mul_add_mod_of_lt lt]
      rw [Nat.add_one_mul,Nat.mul_comm top] at whole
      exact ⟨by omega,rfl,by omega⟩
  have injective : Function.Injective (fun q => q*pool.backends.length+i.val) := by
    intro a b same
    have product : a*pool.backends.length = b*pool.backends.length := Nat.add_right_cancel same
    exact Nat.eq_of_mul_eq_mul_right i.pos product
  rw [Nat.count_eq_card_filter_range,rows,Finset.card_image_of_injective _ injective,
    Nat.card_Ico]
  omega

theorem hitsAt (parts : Parts w pool shares top) {alive : Alive pool} {i} (up : alive i = true)
    (T : Nat) : ((HitWindow.hitsIn (FreeHit shares top alive) T
      (T+pool.backends.length*top)).filter (fun x => x % pool.backends.length = i.val)).card =
      shares i := by
  rw [← atCount parts i,← Nat.filter_Ico_card_eq_of_periodic T _ _ (atPeriodic i)]
  congr 1
  ext x
  simp only [HitWindow.hitsIn,Finset.mem_filter,and_assoc]
  apply and_congr_right
  intro _
  constructor
  · intro found
    obtain ⟨⟨j,_,there,enough⟩,here⟩ := found
    have same : j = i := Fin.ext (there.symm.trans here)
    exact same ▸ ⟨there,enough⟩
  · intro found
    exact ⟨⟨i,up,found⟩,found.1⟩

theorem hitsTotal (parts : Parts w pool shares top) (alive : Alive pool) (T : Nat) :
    (HitWindow.hitsIn (FreeHit shares top alive) T (T+pool.backends.length*top)).card =
      ∑ i with alive i = true, shares i := by
  have lands : ∀ x ∈ HitWindow.hitsIn (FreeHit shares top alive) T
      (T+pool.backends.length*top), x % pool.backends.length ∈
        (Finset.univ.filter (fun i : pool.Index => alive i = true)).map Fin.valEmbedding := by
    intro x mem
    obtain ⟨i,up,here,_⟩ := (Finset.mem_filter.mp mem).2
    exact Finset.mem_map.mpr ⟨i,Finset.mem_filter.mpr ⟨Finset.mem_univ i,up⟩,here.symm⟩
  rw [Finset.card_eq_sum_card_fiberwise lands,Finset.sum_map]
  exact Finset.sum_congr rfl fun i mem => hitsAt parts (Finset.mem_filter.mp mem).2 T

theorem windowHits (fits : w.Fits pool) (nonempty : 0 < pool.backends.length)
    {alive : Alive pool} (many : 2 ≤ (aliveIndices alive).length) {s rs t}
    (window : Window w alive s rs t) {T} (law : s = stateAt pool w T) :
    ∃ ks U, HitWindow.Hits (Hit w alive) T ks U ∧ rs = ks.map (fun k => some (place nonempty k)) ∧
      t = stateAt pool w U := by
  induction window generalizing T with
  | nil s => exact ⟨[],T,.nil T,rfl,law⟩
  | cons returned rest ih =>
    subst law
    obtain ⟨k,first,same⟩ := (returnsFirst fits nonempty many T _).mp returned
    cases same
    obtain ⟨ks,U,hits,named,final⟩ := ih rfl
    exact ⟨k::ks,U,.cons first hits,by rw [named,List.map_cons],final⟩

theorem hitsWindow (fits : w.Fits pool) (nonempty : 0 < pool.backends.length)
    {alive : Alive pool} (many : 2 ≤ (aliveIndices alive).length) {T ks U}
    (hits : HitWindow.Hits (Hit w alive) T ks U) :
    Window w alive (stateAt pool w T) (ks.map (fun k => some (place nonempty k)))
      (stateAt pool w U) := by
  induction hits with
  | nil T => exact .nil _
  | cons first _ ih => exact .cons ((returnsFirst fits nonempty many _ _).mpr ⟨_,first,rfl⟩) ih

theorem windowOne {alive : Alive pool} {only} (one : aliveIndices alive = [only]) {s rs t}
    (window : Window w alive s rs t) : t = s ∧ rs = List.replicate rs.length (some only) := by
  induction window with
  | nil s => exact ⟨rfl,rfl⟩
  | cons returned _ ih =>
    obtain ⟨fuel,ok⟩ := returned
    rw [nextOne one] at ok
    cases Option.some.inj ok
    exact ⟨ih.1,by rw [List.length_cons,List.replicate_succ,← ih.2]⟩

theorem oneWindow {alive : Alive pool} {only} (one : aliveIndices alive = [only]) (s : State)
    (N : Nat) : Window w alive s (List.replicate N (some only)) s := by
  induction N with
  | zero => exact .nil s
  | succ N ih => exact .cons ⟨0,nextOne one 0 s⟩ ih

theorem windowShares (parts : Parts w pool shares top) {alive : Alive pool}
    (many : 2 ≤ (aliveIndices alive).length) {T rs t}
    (window : Window w alive (stateAt pool w T) rs t)
    (full : rs.length = ∑ i with alive i = true, shares i) (unwrapped : t.current ≤ counterPeriod) :
    none ∉ rs ∧ ∀ i, rs.count (some i) = if alive i = true then shares i else 0 := by
  have nonempty := someIndex many
  obtain ⟨ks,U,hits,named,final⟩ := windowHits parts.fits nonempty many window rfl
  subst named final
  rw [stateCurrent] at unwrapped
  have free := HitWindow.hitsAgree hits
    fun x lt => hitFree parts alive (Nat.lt_of_lt_of_le lt unwrapped)
  rw [List.length_map,← hitsTotal parts alive T] at full
  refine ⟨by simp,fun i => ?_⟩
  have counted : (ks.map (fun k => some (place nonempty k))).count (some i) =
      ks.countP (fun x => x % pool.backends.length = i.val) := by
    rw [List.count_eq_countP,List.countP_map]
    apply List.countP_congr
    intro k mem
    have inside := Nat.lt_of_lt_of_le (HitWindow.hitsBelow hits k mem) unwrapped
    simp only [Function.comp_apply,beq_iff_eq,Option.some.injEq,decide_eq_true_eq,place,
      Fin.ext_iff,placeFree inside]
  rw [counted]
  have window := HitWindow.windowCount (fun x => x % pool.backends.length = i.val) free full
  rw [window]
  split
  · rename_i up
    exact hitsAt parts up T
  · rename_i down
    refine Finset.card_eq_zero.mpr (Finset.filter_eq_empty_iff.mpr fun x mem here => down ?_)
    obtain ⟨j,up,there,_⟩ := (Finset.mem_filter.mp mem).2
    have same : j = i := Fin.ext (there.symm.trans here)
    exact same ▸ up

theorem windowFits (parts : Parts w pool shares top) {alive : Alive pool}
    (many : 2 ≤ (aliveIndices alive).length) {T : Nat}
    (room : T+pool.backends.length*top ≤ counterPeriod) :
    ∃ rs t, Window w alive (stateAt pool w T) rs t ∧
      rs.length = ∑ i with alive i = true, shares i ∧ t.current ≤ counterPeriod := by
  have nonempty := someIndex many
  obtain ⟨ks,U,hits,length,within⟩ :=
    HitWindow.windowExists (hitsTotal parts alive T).ge
  have below := within (Nat.le_add_right _ _)
  have real := HitWindow.hitsAgree hits
    fun x lt => (hitFree parts alive (Nat.lt_of_lt_of_le lt (below.trans room))).symm
  exact ⟨_,_,hitsWindow parts.fits nonempty many real,by rw [List.length_map,length],
    by rw [stateCurrent]; exact below.trans room⟩

end counting

/- Every window of as many calls as the alive shares sum to returns each alive
backend its share of times and no other, from whatever state it starts, as long
as the counter does not wrap; and such a window is always there to be had. -/
theorem windowsExact (pool : Pool) (m : pool.Index → Nat) (units : Units pool m) :
    ∃ w s, new pool = some (w,s) ∧
      ∀ x, Transition.Reachable (system pool w) x → SomeAlive x.alive →
        (∀ rs t, Window w x.alive x.state rs t →
          (rs.length : ℚ) = ∑ i with x.alive i = true, pool.weight i/w.gcdWeight →
          t.current ≤ 2^64 →
          none ∉ rs ∧ ∀ i, (rs.count (some i) : ℚ) =
            if x.alive i = true then pool.weight i/w.gcdWeight else 0) ∧
        (x.state.current+pool.backends.length*⌈w.maxWeight/w.gcdWeight⌉₊ ≤ 2^64 →
          ∃ rs t, Window w x.alive x.state rs t ∧
            (rs.length : ℚ) = ∑ i with x.alive i = true, pool.weight i/w.gcdWeight ∧
            t.current ≤ 2^64) := by
  obtain ⟨w,shares,top,ok,parts⟩ := newParts units
  refine ⟨w,_,ok,fun x reach live => ?_⟩
  have law := reachableLaw parts.fits reach
  have quotient : ∀ i, pool.weight i/w.gcdWeight = shares i := by
    intro i
    rw [parts.share,mul_div_cancel_right₀ _ parts.fits.gcd.ne']
  have total : ∑ i with x.alive i = true, (shares i : ℚ) =
      (∑ i with x.alive i = true, shares i : Nat) := (Nat.cast_sum _ _).symm
  have levels : ⌈w.maxWeight/w.gcdWeight⌉₊ = top := stepsTop parts
  have period : counterPeriod = 2^64 := by decide
  simp only [quotient,total,levels,Nat.cast_inj,← period]
  match h : aliveIndices x.alive with
  | [] => exact absurd live (aliveIndicesNil.mp h)
  | [only] =>
    have alone : ∀ i, x.alive i = true ↔ i = only := by
      intro i
      rw [← memAliveIndices,h,List.mem_singleton]
    have sum : ∑ i with x.alive i = true, shares i = shares only := by
      simp only [alone,Finset.filter_eq',Finset.mem_univ,if_true,Finset.sum_singleton]
    rw [sum]
    refine ⟨fun rs t window full unwrapped => ?_,fun room => ?_⟩
    · obtain ⟨_,same⟩ := windowOne h window
      rw [same,full]
      refine ⟨by simp [List.mem_replicate],fun i => ?_⟩
      rw [List.count_replicate]
      by_cases here : i = only
      · subst here
        simp only [alone,beq_self_eq_true,if_true]
      · have apart : (some only == some i) = false :=
          beq_eq_false_iff_ne.mpr fun same => here (Option.some.inj same).symm
        simp only [alone,here,apart,Bool.false_eq_true,if_false,Nat.cast_zero]
    · exact ⟨_,_,oneWindow h x.state (shares only),List.length_replicate,by omega⟩
  | a::b::rest =>
    have many : 2 ≤ (aliveIndices x.alive).length := by rw [h]; exact Nat.le_add_left 2 _
    rw [law]
    simp only [stateCurrent]
    refine ⟨fun rs t window full unwrapped => ?_,fun room => windowFits parts many room⟩
    obtain ⟨served,counts⟩ := windowShares parts many window full unwrapped
    refine ⟨served,fun i => ?_⟩
    rw [counts i]
    split
    · rfl
    · exact Nat.cast_zero

def heavyFirst : Pool where
  backends := [⟨localhost 10000,2⟩,⟨localhost 10001,1⟩,⟨localhost 10002,1⟩]
  positive := by simp
  addressable := by decide

def heavy : heavyFirst.Index := ⟨0,by decide⟩

def second : heavyFirst.Index := ⟨1,by decide⟩

def third : heavyFirst.Index := ⟨2,by decide⟩

def heavyUnits (i : heavyFirst.Index) : Nat := if i.val = 0 then 20000 else 10000

def lastDead : Alive heavyFirst := fun i => decide (i.val ≠ 2)

theorem heavyFirstUnits : Units heavyFirst heavyUnits := by
  intro i
  change Fin 3 at i
  fin_cases i
  · change (2 : ℚ) = (20000 : Nat)*epsilon
    norm_num [epsilon]
  · change (1 : ℚ) = (10000 : Nat)*epsilon
    norm_num [epsilon]
  · change (1 : ℚ) = (10000 : Nat)*epsilon
    norm_num [epsilon]

theorem heavyFirstWheel : new heavyFirst = some (⟨1,2⟩,⟨0,0⟩) := by
  have start : gcdF64 0 2 = some 2 := gcdStart (by norm_num [epsilon])
  have second : gcdF64 2 1 = some 1 := by
    have whole := gcdExact 20000 10000
    rw [show Nat.gcd 10000 20000 = 10000 from by decide] at whole
    norm_num [epsilon] at whole
    exact whole
  have third : gcdF64 1 1 = some 1 := by
    have whole := gcdExact 10000 10000
    norm_num [epsilon] at whole
    exact whole
  simp only [new,heavyFirst,List.map_cons,List.map_nil,List.foldlM_cons,List.foldlM_nil,start,
    second,third,bind,Option.bind,pure,List.foldl_cons,List.foldl_nil]
  norm_num

theorem heavyFirstWindow : ∃ w s rs t, new heavyFirst = some (w,s) ∧
    Window w lastDead s rs t ∧ rs.length = 3 ∧
    rs.count (some ⟨0,by decide⟩) = 2 ∧ rs.count (some ⟨1,by decide⟩) = 1 := by
  obtain ⟨w,s,ok,fair⟩ := windowsExact heavyFirst heavyUnits heavyFirstUnits
  cases Option.some.inj (ok.symm.trans heavyFirstWheel)
  have reach : Transition.Reachable (system heavyFirst ⟨1,2⟩) ⟨lastDead,⟨0,0⟩⟩ := .init rfl
  obtain ⟨counts,room⟩ := fair ⟨lastDead,⟨0,0⟩⟩ reach ⟨⟨0,by decide⟩,by decide⟩
  obtain ⟨rs,t,window,full,unwrapped⟩ := room (by norm_num [heavyFirst])
  obtain ⟨_,shares⟩ := counts rs t window full unwrapped
  have first : (rs.count (some ⟨0,by decide⟩) : ℚ) = 2 := (shares ⟨0,by decide⟩).trans (div_one 2)
  have second : (rs.count (some ⟨1,by decide⟩) : ℚ) = 1 := (shares ⟨1,by decide⟩).trans (div_one 1)
  have total : ∑ i with lastDead i = true, heavyFirst.weight i/1 = 3 := by
    rw [Finset.sum_filter]
    apply (Fin.sum_univ_three _).trans
    change (2/1 : ℚ)+1/1+0 = 3
    norm_num
  rw [total] at full
  exact ⟨_,_,rs,t,ok,window,by exact_mod_cast full,by exact_mod_cast first,
    by exact_mod_cast second⟩

end UdpBalancer.WrrFairness
