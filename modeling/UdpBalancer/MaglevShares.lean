import UdpBalancer.MaglevRebuild
import UdpBalancer.MaglevTurns

/-! How many of the table's slots `Maglev::rebuild_table` gives each backend: the
turns of the block of entries that its rounded weight ratio fills. -/
namespace UdpBalancer.MaglevShares
open Backends MaglevTable MaglevRebuild TurnQuota

section
variable (host : Host) {pool : Pool} (indices : List pool.Index)

def reps (i : pool.Index) : Nat :=
  repetitions host (pool.weight i) ((minWeight pool indices).getD 1)

def entryCount : Nat := size (reps host indices) indices

def ahead (i : pool.Index) : Nat := size (reps host indices) (indices.takeWhile (· ≠ i))

def share (i : pool.Index) : Nat :=
  quota tableSize (entryCount host indices) (ahead host indices i) (reps host indices i)

variable {indices}

theorem entriesBlocks (nonempty : indices ≠ []) : buildWeightedEntries host pool indices =
    blocks (reps host indices) (entry host pool) indices := by
  obtain ⟨least,found,positive⟩ := minWeightPositive nonempty
  simp only [buildWeightedEntries,found,not_le.mpr positive,if_false,blocks,reps,Option.getD_some]

theorem entriesLength (nonempty : indices ≠ []) :
    (buildWeightedEntries host pool indices).length = entryCount host indices := by
  rw [entriesBlocks host nonempty,blocksLength,entryCount]

theorem entriesOwners (nonempty : indices ≠ []) :
    (buildWeightedEntries host pool indices).map Entry.backendIdx =
      blocks (reps host indices) Fin.val indices := by
  simp only [entriesBlocks host nonempty,blocks,List.map_flatMap,List.map_replicate]
  rfl

theorem repsPos (i : pool.Index) : 0 < reps host indices i := repetitionsPos host _ _

theorem aheadOf {before later : List pool.Index} {i} (split : indices = before ++ i::later)
    (fresh : i ∉ before) : ahead host indices i = size (reps host indices) before := by
  have front : indices.takeWhile (· ≠ i) = before := by
    rw [split,List.takeWhile_append_of_pos]
    · simp
    · intro j mem
      exact decide_eq_true fun same => fresh (same ▸ mem)
  rw [ahead,front]

theorem blockFits {i} (mem : i ∈ indices) :
    ahead host indices i+reps host indices i ≤ entryCount host indices := by
  obtain ⟨before,later,split,fresh⟩ := List.eq_append_cons_of_mem mem
  have whole := congrArg (size (reps host indices)) split
  simp only [size,List.map_append,List.map_cons,List.sum_append,List.sum_cons] at whole
  rw [aheadOf host split fresh]
  simp only [entryCount,size]
  omega

theorem ownerBlock (distinct : indices.Nodup) {i} (mem : i ∈ indices) (t : Nat) :
    turnOwner (buildWeightedEntries host pool indices) t = i.val ↔
      ahead host indices i ≤ t % entryCount host indices ∧
        t % entryCount host indices < ahead host indices i+reps host indices i := by
  have nonempty : indices ≠ [] := List.ne_nil_of_mem mem
  obtain ⟨before,later,split,fresh⟩ := List.eq_append_cons_of_mem mem
  have apart : ∀ j ∈ before ++ later, j.val ≠ i.val := by
    intro j inside same
    rw [split,List.nodup_middle] at distinct
    exact distinct.notMem (Fin.ext same ▸ inside)
  have block := blocksAt (reps host indices) Fin.val apart (t % entryCount host indices)
  rw [← aheadOf host split fresh,← split,← entriesOwners host nonempty,List.getElem?_map] at block
  rw [← block,turnOwner,entriesLength host nonempty]
  have named : usizeMax ≠ i.val := (Nat.ne_of_lt (indexLt pool i)).symm
  cases ((buildWeightedEntries host pool indices)[t % entryCount host indices]?).map
      Entry.backendIdx with
  | none => simpa using named
  | some v => simp

theorem tableShare (distinct : indices.Nodup) {i} (mem : i ∈ indices) {table}
    (built : tableFor host pool indices = some table) :
    table.count i.val = share host indices i := by
  have nonempty : indices ≠ [] := List.ne_nil_of_mem mem
  rw [tableForPopulates host nonempty] at built
  rw [tableCount (weightedEntriesNonempty host nonempty) built,share,
    ← blockTurns tableSize (blockFits host mem)]
  simp only [ownerBlock host distinct mem]

theorem tableHolds (distinct : indices.Nodup) {i} (mem : i ∈ indices) {table}
    (built : tableFor host pool indices = some table) :
    i.val ∈ table ↔ ahead host indices i < tableSize := by
  rw [← List.count_pos_iff,tableShare host distinct mem built,share,
    quotaPos tableSize (repsPos host i) (blockFits host mem)]

end

theorem aliveDistinct {pool : Pool} (alive : Alive pool) : (aliveIndices alive).Nodup :=
  (List.nodup_finRange _).filter _

/- Starvation: a backend has a slot just when its block starts inside the first
`tableSize` entries, and the last alive backend starts last. -/
section
variable (host : Host) {pool : Pool} (alive : Alive pool)

def NoneStarved : Prop := ∃ table, tableFor host pool (aliveIndices alive) = some table ∧
  ∀ i, alive i = true → i.val ∈ table

theorem sizeAppend (f : pool.Index → Nat) (xs ys : List pool.Index) :
    size f (xs ++ ys) = size f xs+size f ys := by
  simp only [size,List.map_append,List.sum_append]

theorem aheadWithin {indices : List pool.Index} {i} (mem : i ∈ indices) :
    ahead host indices i ≤ size (reps host indices) indices.dropLast := by
  obtain ⟨before,later,split,fresh⟩ := List.eq_append_cons_of_mem mem
  have rest : indices.dropLast = before ++ (i::later).dropLast := by
    rw [split,List.dropLast_append_of_ne_nil (List.cons_ne_nil i later)]
  rw [aheadOf host split fresh,rest,sizeAppend]
  exact Nat.le_add_right _ _

theorem aheadOfLast {indices : List pool.Index} (distinct : indices.Nodup)
    (nonempty : indices ≠ []) :
    ahead host indices (indices.getLast nonempty) = size (reps host indices) indices.dropLast := by
  have split := (List.dropLast_concat_getLast nonempty).symm
  have fresh : indices.getLast nonempty ∉ indices.dropLast := by
    intro mem
    rw [split,List.nodup_append] at distinct
    exact distinct.2.2 _ mem _ List.mem_cons_self rfl
  exact aheadOf host split fresh

theorem noneStarvedExactly : NoneStarved host alive ↔
    size (reps host (aliveIndices alive)) (aliveIndices alive).dropLast < tableSize := by
  obtain ⟨table,built⟩ := tableForDefined host (aliveIndices alive)
  have holds := fun i (up : alive i = true) =>
    tableHolds host (aliveDistinct alive) (memAliveIndices.mpr up) built
  constructor
  · intro ⟨whole,ok,served⟩
    cases Option.some.inj (built.symm.trans ok)
    cases Classical.em (aliveIndices alive = []) with
    | inl empty =>
      rw [empty]
      exact Nat.succ_pos 65536
    | inr nonempty =>
      have up := memAliveIndices.mp (List.getLast_mem nonempty)
      have start := (holds _ up).mp (served _ up)
      rwa [aheadOfLast host (aliveDistinct alive) nonempty] at start
  · intro short
    refine ⟨table,built,fun i up => (holds i up).mpr ?_⟩
    exact (aheadWithin host (memAliveIndices.mpr up)).trans_lt short

end

theorem roundNat (n : Nat) : MaglevRebuild.round n = n := by
  have nonneg : (0 : ℚ) ≤ n := Nat.cast_nonneg n
  rw [MaglevRebuild.round,if_pos nonneg,Int.floor_eq_iff]
  constructor
  · push_cast
    linarith
  · push_cast
    linarith

theorem asUsizeNat (n : Nat) : asUsize n = min n usizeMax := by
  rw [asUsize,Int.toNat_natCast]

theorem repsMultiple {host : Host} (divides : ∀ x y, host.quotient x y = x/y) {pool : Pool}
    {indices : List pool.Index} {least : ℚ} (found : minWeight pool indices = some least)
    (pos : 0 < least) {i : pool.Index} {n : Nat} (exact : pool.weight i = n*least) :
    reps host indices i = max (min n usizeMax) 1 := by
  have quotient : host.quotient (pool.weight i) least = n := by
    rw [divides,exact,mul_div_cancel_right₀ _ pos.ne']
  rw [reps,found,Option.getD_some,repetitions,quotient,roundNat,asUsizeNat]

def lopsided : Pool where
  backends := [⟨localhost 20000,65537⟩,⟨localhost 20001,1⟩]
  positive := by
    intro b mem
    rcases List.mem_cons.mp mem with rfl | mem
    · norm_num
    · cases List.mem_singleton.mp mem
      exact one_pos
  addressable := by decide

def allUp (pool : Pool) : Alive pool := fun _ => true

theorem lopsidedStarves : ¬ NoneStarved exactHost (allUp lopsided) := by
  have listed : aliveIndices (allUp lopsided) = [⟨0,by decide⟩,⟨1,by decide⟩] := by decide
  have least : minWeight lopsided [⟨0,by decide⟩,⟨1,by decide⟩] = some 1 := by decide
  have weight : lopsided.weight ⟨0,by decide⟩ = (65537 : Nat)*1 := (mul_one (65537 : ℚ)).symm
  have divides : ∀ x y, exactHost.quotient x y = x/y := fun _ _ => rfl
  have heavy := repsMultiple divides least one_pos weight
  rw [noneStarvedExactly,listed]
  simp only [List.dropLast_cons_cons,List.dropLast_singleton,size,List.map_cons,List.map_nil,
    List.sum_cons,List.sum_nil,heavy]
  decide

section
variable (host : Host) {pool : Pool} (alive : Alive pool) (d : pool.Index)

def without : Alive pool := setAlive alive d false

def SharesKept : Prop := ∃ before after,
  tableFor host pool (aliveIndices alive) = some before ∧
  tableFor host pool (aliveIndices (without alive d)) = some after ∧
  ∀ i, alive i = true → i ≠ d → before.count i.val ≤ after.count i.val

theorem withoutIndices :
    aliveIndices (without alive d) = (aliveIndices alive).filter (· ≠ d) := by
  rw [aliveIndices,aliveIndices,List.filter_filter]
  apply List.filter_congr
  intro i _
  cases Classical.em (i = d) with
  | inl same => simp [without,setAlive,same]
  | inr other => simp [without,setAlive,other]

theorem withoutUp {i : pool.Index} (up : alive i = true) (other : i ≠ d) :
    without alive d i = true := by
  rw [without,setAlive,Function.update_of_ne other,up]

theorem minWeightLe {indices : List pool.Index} {least : ℚ}
    (found : minWeight pool indices = some least) :
    (∃ i ∈ indices, pool.weight i = least) ∧ ∀ i ∈ indices, least ≤ pool.weight i := by
  obtain ⟨i,mem,same⟩ := List.mem_map.mp (List.min?_mem found)
  refine ⟨⟨i,mem,same⟩,fun j inside => ?_⟩
  exact (List.le_min?_iff found).mp (le_refl least) _ (List.mem_map_of_mem inside)

theorem minWeightKept {indices : List pool.Index} {d e : pool.Index} (mem : e ∈ indices)
    (other : e ≠ d) (light : pool.weight e ≤ pool.weight d) :
    minWeight pool (indices.filter (· ≠ d)) = minWeight pool indices := by
  have stays : e ∈ indices.filter (· ≠ d) := List.mem_filter.mpr ⟨mem,decide_eq_true other⟩
  obtain ⟨least,found,_⟩ := minWeightPositive (List.ne_nil_of_mem mem)
  obtain ⟨left,remains,_⟩ := minWeightPositive (List.ne_nil_of_mem stays)
  obtain ⟨⟨i,inside,atI⟩,low⟩ := minWeightLe found
  obtain ⟨⟨j,within,atJ⟩,bound⟩ := minWeightLe remains
  have above : least ≤ left := atJ ▸ low j (List.mem_filter.mp within).1
  have below : left ≤ least := by
    cases Classical.em (i = d) with
    | inl same => exact (bound e stays).trans (light.trans (by rw [← atI,same]))
    | inr apart => exact atI ▸ bound i (List.mem_filter.mpr ⟨inside,decide_eq_true apart⟩)
  rw [found,remains,le_antisymm below above]

theorem sizeSublist (f : pool.Index → Nat) {xs ys : List pool.Index} (sub : xs.Sublist ys) :
    size f xs ≤ size f ys := by
  unfold size
  exact (sub.map f).sum_le_sum fun _ _ => Nat.zero_le _

theorem shareGrows {indices : List pool.Index} {d i : pool.Index} (mem : i ∈ indices)
    (other : i ≠ d)
    (same : minWeight pool (indices.filter (· ≠ d)) = minWeight pool indices) :
    share host indices i ≤ share host (indices.filter (· ≠ d)) i := by
  have reps : reps host (indices.filter (· ≠ d)) = reps host indices := by
    funext j
    rw [reps,reps,same]
  have stays : i ∈ indices.filter (· ≠ d) := List.mem_filter.mpr ⟨mem,decide_eq_true other⟩
  obtain ⟨before,later,split,fresh⟩ := List.eq_append_cons_of_mem mem
  have remains : indices.filter (· ≠ d) =
      before.filter (· ≠ d) ++ i::later.filter (· ≠ d) := by
    rw [split,List.filter_append,List.filter_cons_of_pos (by simpa using other)]
  have front : ahead host (indices.filter (· ≠ d)) i ≤ ahead host indices i := by
    rw [aheadOf host split fresh,aheadOf host remains fun inside =>
      fresh (List.mem_filter.mp inside).1,reps]
    exact sizeSublist _ List.filter_sublist
  have fewer : entryCount host (indices.filter (· ≠ d)) ≤ entryCount host indices := by
    rw [entryCount,entryCount,reps]
    exact sizeSublist _ List.filter_sublist
  have pos := (repsPos host i).trans_le
    ((Nat.le_add_left _ _).trans (blockFits host stays))
  rw [share,share,reps]
  exact quotaMono tableSize pos fewer front _

/- No survivor's share shrinks just when no survivor's block of turns does. This
is so whenever another alive backend is at most as heavy as the lost one. -/
theorem sharesKeptExactly :
    (SharesKept host alive d ↔ ∀ i, alive i = true → i ≠ d →
      share host (aliveIndices alive) i ≤ share host (aliveIndices (without alive d)) i) ∧
    ((∃ e, alive e = true ∧ e ≠ d ∧ pool.weight e ≤ pool.weight d) →
      SharesKept host alive d) := by
  obtain ⟨before,built⟩ := tableForDefined host (aliveIndices alive)
  obtain ⟨after,rebuilt⟩ := tableForDefined host (aliveIndices (without alive d))
  have counts : ∀ i, alive i = true → i ≠ d →
      before.count i.val = share host (aliveIndices alive) i ∧
        after.count i.val = share host (aliveIndices (without alive d)) i := by
    intro i up other
    exact ⟨tableShare host (aliveDistinct alive) (memAliveIndices.mpr up) built,
      tableShare host (aliveDistinct _) (memAliveIndices.mpr (withoutUp alive d up other)) rebuilt⟩
  have exactly : SharesKept host alive d ↔ ∀ i, alive i = true → i ≠ d →
      share host (aliveIndices alive) i ≤ share host (aliveIndices (without alive d)) i := by
    constructor
    · intro ⟨x,y,xBuilt,yBuilt,kept⟩ i up other
      cases Option.some.inj (built.symm.trans xBuilt)
      cases Option.some.inj (rebuilt.symm.trans yBuilt)
      have kept := kept i up other
      rwa [(counts i up other).1,(counts i up other).2] at kept
    · intro grows
      refine ⟨before,after,built,rebuilt,fun i up other => ?_⟩
      rw [(counts i up other).1,(counts i up other).2]
      exact grows i up other
  refine ⟨exactly,fun ⟨e,live,other,light⟩ => exactly.mpr fun i up apart => ?_⟩
  rw [withoutIndices]
  exact shareGrows host (memAliveIndices.mpr up) apart
    (minWeightKept (memAliveIndices.mpr live) other light)

end

theorem repsRounded {pool : Pool} {indices : List pool.Index} {least : ℚ}
    (found : minWeight pool indices = some least) {i : pool.Index} {n : Nat} (pos : 0 < n)
    (small : n ≤ usizeMax) (low : (n : ℚ)-1/2 ≤ pool.weight i/least)
    (high : pool.weight i/least < n+1/2) : reps exactHost indices i = n := by
  have one : (1 : ℚ) ≤ n := by exact_mod_cast pos
  have nonneg : 0 ≤ pool.weight i/least := by linarith
  have rounded : MaglevRebuild.round (exactHost.quotient (pool.weight i) least) = n := by
    show MaglevRebuild.round (pool.weight i/least) = n
    rw [MaglevRebuild.round,if_pos nonneg,Int.floor_eq_iff]
    constructor
    · push_cast
      linarith
    · push_cast
      linarith
  rw [reps,found,Option.getD_some,repetitions,rounded,asUsizeNat,min_eq_left small,
    max_eq_left pos]

def uneven : Pool where
  backends := [⟨localhost 20000,4⟩,⟨localhost 20001,6⟩,⟨localhost 20002,5⟩,⟨localhost 20003,5⟩]
  positive := by
    intro b mem
    simp only [List.mem_cons,List.not_mem_nil,or_false] at mem
    rcases mem with rfl | rfl | rfl | rfl <;> norm_num
  addressable := by decide

def unevenAt (i : Fin 4) : uneven.Index := i

def unevenAll : List uneven.Index := [unevenAt 0,unevenAt 1,unevenAt 2,unevenAt 3]

def unevenRest : List uneven.Index := [unevenAt 1,unevenAt 2,unevenAt 3]

theorem unevenAlive : aliveIndices (allUp uneven) = unevenAll ∧
    aliveIndices (without (allUp uneven) (unevenAt 0)) = unevenRest := by decide

theorem unevenBefore : unevenAll.map (reps exactHost unevenAll) = [1,2,1,1] := by
  have least : minWeight uneven unevenAll = some 4 := by decide
  have reps0 : reps exactHost unevenAll (unevenAt 0) = 1 := by
    apply repsRounded least <;> norm_num [usizeMax,show uneven.weight (unevenAt 0) = 4 from rfl]
  have reps1 : reps exactHost unevenAll (unevenAt 1) = 2 := by
    apply repsRounded least <;> norm_num [usizeMax,show uneven.weight (unevenAt 1) = 6 from rfl]
  have reps2 : reps exactHost unevenAll (unevenAt 2) = 1 := by
    apply repsRounded least <;> norm_num [usizeMax,show uneven.weight (unevenAt 2) = 5 from rfl]
  have reps3 : reps exactHost unevenAll (unevenAt 3) = 1 := by
    apply repsRounded least <;> norm_num [usizeMax,show uneven.weight (unevenAt 3) = 5 from rfl]
  show [_,_,_,_] = _
  rw [reps0,reps1,reps2,reps3]

theorem unevenAfter : unevenRest.map (reps exactHost unevenRest) = [1,1,1] := by
  have least : minWeight uneven unevenRest = some 5 := by decide
  have reps1 : reps exactHost unevenRest (unevenAt 1) = 1 := by
    apply repsRounded least <;> norm_num [usizeMax,show uneven.weight (unevenAt 1) = 6 from rfl]
  have reps2 : reps exactHost unevenRest (unevenAt 2) = 1 := by
    apply repsRounded least <;> norm_num [usizeMax,show uneven.weight (unevenAt 2) = 5 from rfl]
  have reps3 : reps exactHost unevenRest (unevenAt 3) = 1 := by
    apply repsRounded least <;> norm_num [usizeMax,show uneven.weight (unevenAt 3) = 5 from rfl]
  show [_,_,_] = _
  rw [reps1,reps2,reps3]

theorem unevenShrinks :
    entryCount exactHost (aliveIndices (allUp uneven)) = 5 ∧
    entryCount exactHost (aliveIndices (without (allUp uneven) (unevenAt 0))) = 3 ∧
    ¬ SharesKept exactHost (allUp uneven) (unevenAt 0) := by
  have count : entryCount exactHost unevenAll = 5 := by rw [entryCount,size,unevenBefore]; rfl
  have fewer : entryCount exactHost unevenRest = 3 := by rw [entryCount,size,unevenAfter]; rfl
  obtain ⟨one,two,_⟩ := List.cons.inj unevenBefore |>.imp id List.cons.inj
  have first := (List.cons.inj unevenAfter).1
  have before : unevenAll = [unevenAt 0] ++ unevenAt 1::[unevenAt 2,unevenAt 3] := rfl
  have front : ahead exactHost unevenAll (unevenAt 1) = 1 := by
    rw [aheadOf exactHost before (by decide)]
    simp [size,one]
  have rest : unevenRest = [] ++ unevenAt 1::[unevenAt 2,unevenAt 3] := rfl
  have start : ahead exactHost unevenRest (unevenAt 1) = 0 := by
    rw [aheadOf exactHost rest (by decide)]
    rfl
  rw [unevenAlive.1,unevenAlive.2]
  refine ⟨count,fewer,fun kept => ?_⟩
  have grows := (sharesKeptExactly exactHost (allUp uneven) (unevenAt 0)).1.mp kept
    (unevenAt 1) rfl (by decide)
  rw [unevenAlive.1,unevenAlive.2,share,share,count,fewer,front,start,two,first] at grows
  exact absurd grows (by decide)

structure Multiples {pool : Pool} (alive : Alive pool) where
  least : ℚ
  smallest : minWeight pool (aliveIndices alive) = some least
  ratio : pool.Index → Nat
  exact : ∀ i, alive i = true → pool.weight i = ratio i*least

namespace Multiples
variable {pool : Pool} {alive : Alive pool} (m : Multiples alive)

def total : Nat := size m.ratio (aliveIndices alive)

theorem leastPos : 0 < m.least := by
  obtain ⟨⟨i,_,same⟩,_⟩ := minWeightLe m.smallest
  exact same ▸ weightPositive pool i

theorem ratioPos {i} (up : alive i = true) : 0 < m.ratio i := by
  have weight := m.exact i up
  have pos := weightPositive pool i
  cases zero : m.ratio i with
  | zero =>
    rw [zero,Nat.cast_zero,zero_mul] at weight
    rw [weight] at pos
    exact absurd pos (lt_irrefl 0)
  | succ n => exact Nat.succ_pos n

theorem minSize (f : pool.Index → Nat) (c : Nat) (xs : List pool.Index) :
    min (size f xs) c ≤ size (fun i => min (f i) c) xs := by
  induction xs with
  | nil => exact Nat.min_le_left _ _
  | cons x xs ih =>
    simp only [size,List.map_cons,List.sum_cons] at ih ⊢
    omega

theorem ratioLe {i} (up : alive i = true) : m.ratio i ≤ m.total :=
  List.single_le_sum (fun _ _ => Nat.zero_le _) _
    (List.mem_map_of_mem (memAliveIndices.mpr up))

section
variable {host : Host} (divides : ∀ x y, host.quotient x y = x/y)
include divides

theorem repsRatio {i} (up : alive i = true) :
    reps host (aliveIndices alive) i = min (m.ratio i) usizeMax := by
  have pos := m.ratioPos up
  rw [repsMultiple divides m.smallest m.leastPos (m.exact i up),max_eq_left]
  exact le_min pos (by decide)

theorem entryCountRatio : entryCount host (aliveIndices alive) =
    size (fun i => min (m.ratio i) usizeMax) (aliveIndices alive) := by
  unfold entryCount size
  congr 1
  apply List.map_congr_left
  exact fun i mem => m.repsRatio divides (memAliveIndices.mp mem)

theorem shareBounds {i} (up : alive i = true) :
    m.ratio i*(tableSize/m.total) ≤ share host (aliveIndices alive) i ∧
      share host (aliveIndices alive) i ≤ m.ratio i*((tableSize+m.total-1)/m.total) := by
  have pos := (m.ratioPos up).trans_le (m.ratioLe up)
  have reps := m.repsRatio divides up
  have count := m.entryCountRatio divides
  have limit : 0 < tableSize ∧ tableSize < usizeMax := by decide
  rw [share]
  rcases Nat.lt_or_ge usizeMax m.total with many | few
  · have large : usizeMax ≤ entryCount host (aliveIndices alive) := by
      rw [count]
      exact (le_min many.le (le_refl _)).trans (minSize m.ratio usizeMax (aliveIndices alive))
    generalize entryCount host (aliveIndices alive) = n at large
    have once : (tableSize+n-1)/n < 2 := (Nat.div_lt_iff_lt_mul (by omega)).mpr (by omega)
    have round : 0 < (tableSize+m.total-1)/m.total := Nat.div_pos (by omega) pos
    rw [Nat.div_eq_of_lt (limit.2.trans many),Nat.mul_zero,reps]
    refine ⟨Nat.zero_le _,?_⟩
    calc quota tableSize n (ahead host (aliveIndices alive) i) (min (m.ratio i) usizeMax)
        ≤ min (m.ratio i) usizeMax*((tableSize+n-1)/n) := quotaUpper tableSize (by omega) _ _
      _ ≤ m.ratio i*((tableSize+m.total-1)/m.total) :=
        Nat.mul_le_mul (Nat.min_le_left _ _) (by omega)
  · have exact : entryCount host (aliveIndices alive) = m.total := by
      rw [count,total,size,size]
      congr 1
      apply List.map_congr_left
      intro j mem
      exact min_eq_left ((m.ratioLe (memAliveIndices.mp mem)).trans few)
    rw [reps,exact,min_eq_left ((m.ratioLe up).trans few)]
    exact ⟨quotaLower tableSize _ _ _,quotaUpper tableSize pos _ _⟩

end

end Multiples

/- Entry `j` claims as many slots as turns are its own, and whole weight ratios
divide the slots in proportion, up to the cut-off last round, whatever the hash. -/
theorem slotShares {entries : List Entry} (nonempty : entries ≠ []) {host : Host}
    (divides : ∀ x y, host.quotient x y = x/y) {pool : Pool} {alive : Alive pool}
    (m : Multiples alive) :
    (∃ table, populateTable entries = some table ∧
      ((claims entries).map Prod.snd).Perm (List.range tableSize) ∧
      (∀ x ∈ claims entries, ∃ e, entries[x.1]? = some e ∧ table[x.2]? = some e.backendIdx) ∧
      ∀ j, j < entries.length → (claims entries).countP (fun x => decide (x.1 = j)) =
        turns tableSize entries.length j) ∧
    ∃ table, tableFor host pool (aliveIndices alive) = some table ∧
      ∀ i, alive i = true → m.ratio i*(tableSize/m.total) ≤ table.count i.val ∧
        table.count i.val ≤ m.ratio i*((tableSize+m.total-1)/m.total) := by
  obtain ⟨filled,populated,_⟩ := populateComplete nonempty
  obtain ⟨table,built⟩ := tableForDefined host (aliveIndices alive)
  refine ⟨⟨filled,populated,claimSlots nonempty,claimOwners nonempty populated,
    fun j _ => claimCount nonempty j⟩,table,built,fun i up => ?_⟩
  rw [tableShare host (aliveDistinct alive) (memAliveIndices.mpr up) built]
  exact m.shareBounds divides up

def tripled : Pool where
  backends := [⟨localhost 20000,3⟩,⟨localhost 20001,1⟩]
  positive := by
    intro b mem
    rcases List.mem_cons.mp mem with rfl | mem
    · norm_num
    · cases List.mem_singleton.mp mem
      exact one_pos
  addressable := by decide

def tripledRatio : Multiples (allUp tripled) where
  least := 1
  smallest := by decide
  ratio i := if i.val = 0 then 3 else 1
  exact i _ := by
    cases i using Fin.cases with
    | zero => exact (mul_one (3 : ℚ)).symm
    | succ i => cases i using Fin.cases with
      | zero => exact (mul_one (1 : ℚ)).symm
      | succ i => exact i.elim0

def tripledEntries : List Entry :=
  [entry exactHost tripled ⟨0,Nat.two_pos⟩,entry exactHost tripled ⟨1,Nat.one_lt_two⟩]

theorem tripledShares :
    (∃ table, populateTable tripledEntries = some table ∧
      ((claims tripledEntries).map Prod.snd).Perm (List.range tableSize) ∧
      (∀ x ∈ claims tripledEntries,
        ∃ e, tripledEntries[x.1]? = some e ∧ table[x.2]? = some e.backendIdx) ∧
      ∀ j, j < tripledEntries.length → (claims tripledEntries).countP (fun x => decide (x.1 = j)) =
        turns tableSize tripledEntries.length j) ∧
    ∃ table, tableFor exactHost tripled (aliveIndices (allUp tripled)) = some table ∧
      ∀ i, allUp tripled i = true →
        tripledRatio.ratio i*(tableSize/tripledRatio.total) ≤ table.count i.val ∧
        table.count i.val ≤
          tripledRatio.ratio i*((tableSize+tripledRatio.total-1)/tripledRatio.total) :=
  slotShares (List.cons_ne_nil _ _) (fun _ _ => rfl) tripledRatio

end UdpBalancer.MaglevShares
