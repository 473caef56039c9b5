import UdpBalancer.MaglevTable

/-! `Maglev::rebuild_table` and what it calls: the alive indices, the weighted
entries and the finished lookup table. The hasher and the float quotient of two
weights come from outside the repository and are parameters of the host. -/
namespace UdpBalancer.MaglevRebuild
open Backends MaglevTable

/- `fnv` is `finish` of a fresh `FnvHasher` after these bytes were written.
`quotient` is the rounded `weight / min_weight`; exact arithmetic takes `w/m`. -/
structure Host where
  fnv : Bytes → UInt64
  quotient : ℚ → ℚ → ℚ

def exactHost : Host := ⟨fnv1a,fun weight minWeight => weight/minWeight⟩

-- `f64::round`: to the nearest integer, halves away from zero
def round (x : ℚ) : ℤ := if 0 ≤ x then ⌊x+1/2⌋ else ⌈x-1/2⌉

def asUsize (n : ℤ) : Nat := min n.toNat usizeMax

variable (host : Host) (pool : Pool)

def repetitions (weight minWeight : ℚ) : Nat :=
  max (asUsize (round (host.quotient weight minWeight))) 1

def permutation (i : pool.Index) : Nat × Nat :=
  let addrBytes := (pool.backend i).address.display
  let h1 := host.fnv addrBytes
  let h2 := host.fnv (addrBytes ++ [0xFF])
  (h1.toNat % tableSize,h2.toNat % (tableSize-1)+1)

def entry (i : pool.Index) : Entry where
  backendIdx := i.val
  offset := (permutation host pool i).1
  skip := (permutation host pool i).2
  indexed := indexLt pool i
  offsetLt := Nat.mod_lt _ (by decide)
  skipPos := Nat.succ_pos _
  skipLt := Nat.add_lt_of_lt_sub (Nat.mod_lt _ (by decide))

-- the fold of `f64::min` from infinity; `none` is the infinity of an empty list
def minWeight (indices : List pool.Index) : Option ℚ := (indices.map pool.weight).min?

def buildWeightedEntries (indices : List pool.Index) : List Entry :=
  match minWeight pool indices with
  | none => []
  | some least =>
      if least ≤ 0 then [] else
        indices.flatMap fun i =>
          List.replicate (repetitions host (pool.weight i) least) (entry host pool i)

def tableFor (indices : List pool.Index) : Option (List Nat) :=
  if indices = [] then some [] else
    let entries := buildWeightedEntries host pool indices
    if entries = [] then some [] else populateTable entries

variable {pool}

theorem repetitionsPos (weight least : ℚ) : 0 < repetitions host weight least :=
  Nat.lt_of_lt_of_le Nat.one_pos (Nat.le_max_right _ 1)

theorem minWeightPositive {indices : List pool.Index} (nonempty : indices ≠ []) :
    ∃ least, minWeight pool indices = some least ∧ 0 < least := by
  cases h : minWeight pool indices with
  | none =>
    have empty := List.min?_eq_none_iff.mp h
    exact absurd (List.map_eq_nil_iff.mp empty) nonempty
  | some least =>
    obtain ⟨i,_,same⟩ := List.mem_map.mp (List.min?_mem h)
    exact ⟨least,rfl,same ▸ weightPositive pool i⟩

theorem weightedEntries {indices : List pool.Index} (nonempty : indices ≠ []) :
    ∃ least, 0 < least ∧ buildWeightedEntries host pool indices = indices.flatMap fun i =>
      List.replicate (repetitions host (pool.weight i) least) (entry host pool i) := by
  obtain ⟨least,found,positive⟩ := minWeightPositive nonempty
  refine ⟨least,positive,?_⟩
  simp only [buildWeightedEntries,found,not_le.mpr positive,if_false]

theorem memWeightedEntries {indices : List pool.Index} (nonempty : indices ≠ []) {e : Entry} :
    e ∈ buildWeightedEntries host pool indices ↔ ∃ i ∈ indices, e = entry host pool i := by
  obtain ⟨least,_,same⟩ := weightedEntries host nonempty
  have one := fun i : pool.Index => (repetitionsPos host (pool.weight i) least).ne'
  simp only [same,List.mem_flatMap,List.mem_replicate,ne_eq,one,not_false_eq_true,true_and]

theorem weightedEntriesNonempty {indices : List pool.Index} (nonempty : indices ≠ []) :
    buildWeightedEntries host pool indices ≠ [] := by
  obtain ⟨i,mem⟩ := List.exists_mem_of_ne_nil _ nonempty
  exact List.ne_nil_of_mem ((memWeightedEntries host nonempty).mpr ⟨i,mem,rfl⟩)

theorem tableForNil : tableFor host pool [] = some [] := rfl

theorem tableForPopulates {indices : List pool.Index} (nonempty : indices ≠ []) :
    tableFor host pool indices = populateTable (buildWeightedEntries host pool indices) := by
  simp only [tableFor,nonempty,weightedEntriesNonempty host nonempty,if_false]

theorem tableForComplete {indices : List pool.Index} (nonempty : indices ≠ []) :
    ∃ table, tableFor host pool indices = some table ∧ table.length = tableSize ∧
      ∀ v ∈ table, ∃ i ∈ indices, v = i.val := by
  obtain ⟨table,ok,size,owners⟩ := populateComplete (weightedEntriesNonempty host nonempty)
  refine ⟨table,(tableForPopulates host nonempty).trans ok,size,fun v mem => ?_⟩
  obtain ⟨e,inEntries,named⟩ := owners v mem
  obtain ⟨i,inIndices,rfl⟩ := (memWeightedEntries host nonempty).mp inEntries
  exact ⟨i,inIndices,named⟩

theorem tableForDefined (indices : List pool.Index) :
    ∃ table, tableFor host pool indices = some table := by
  by_cases empty : indices = []
  · exact ⟨[],by rw [empty,tableForNil]⟩
  · obtain ⟨table,ok,_⟩ := tableForComplete host empty
    exact ⟨table,ok⟩

theorem equalEntries (equal : ∀ i, pool.weight i = 1) (once : repetitions host 1 1 = 1)
    {indices : List pool.Index} (nonempty : indices ≠ []) :
    buildWeightedEntries host pool indices = indices.map (entry host pool) := by
  have least : minWeight pool indices = some 1 := by
    obtain ⟨least,found,_⟩ := minWeightPositive nonempty
    obtain ⟨i,_,same⟩ := List.mem_map.mp (List.min?_mem found)
    rw [found,← same,equal]
  have positive : ¬ (1 : ℚ) ≤ 0 := by norm_num
  simp only [buildWeightedEntries,least,positive,if_false,equal,once,List.replicate_one]
  exact List.map_eq_flatMap.symm

end UdpBalancer.MaglevRebuild
