import Mathlib.Analysis.SpecialFunctions.Pow.Real
import UdpBalancer.Backends
import UdpBalancer.F64
import UdpBalancer.FirstMax

/-! `RendezvousHashing`: every alive backend scores the key and the first best
score wins. The arithmetic of the scores and the hash values are parameters, so
the results hold for the machine's floats as for exact numbers. -/
namespace UdpBalancer.Rendezvous
open Backends (Bytes SocketAddr localhost fnv1a)

structure WeightedBackend (R : Type u) where
  address : SocketAddr
  weight : F64 R

/- `hash as f64`, division, `ln` and `powf` of the arithmetic in use. -/
structure Arith (R : Type u) where
  ofU64 : UInt64 → F64 R
  div : F64 R → F64 R → F64 R
  ln : F64 R → F64 R
  powf : F64 R → F64 R → F64 R

def hashWithBackend (fnv : Bytes → UInt64) (key addr : Bytes) : UInt64 := fnv (key ++ addr)

def u64Max : UInt64 := 0xFFFFFFFFFFFFFFFF

variable {R : Type u} [Field R] [LinearOrder R]

def weightedHash (a : Arith R) (hash : UInt64) (weight : F64 R) : F64 R :=
  let normalized := a.div (a.ofU64 hash) (a.ofU64 u64Max)
  if F64.le normalized (.fin 0) || F64.le weight (.fin 0) then .negInf else
    let logUniform := F64.neg (a.ln normalized)
    a.powf logUniform (a.div (.fin 1) weight)

abbrev Index (backends : List (WeightedBackend R)) : Type := Fin backends.length

def score (a : Arith R) (hash : Bytes → Bytes → UInt64) (backends : List (WeightedBackend R))
    (key : Bytes) (i : Index backends) : F64 R :=
  weightedHash a (hash key backends[i].address.display) backends[i].weight

def visit (a : Arith R) (hash : Bytes → Bytes → UInt64) (backends : List (WeightedBackend R))
    (alive : Index backends → Bool) (key : Bytes) (best : Option (Index backends) × F64 R)
    (i : Index backends) : Option (Index backends) × F64 R :=
  if !alive i then best else
    if F64.gt (score a hash backends key i) best.2 then (some i,score a hash backends key i)
    else best

def next (a : Arith R) (hash : Bytes → Bytes → UInt64) (backends : List (WeightedBackend R))
    (alive : Index backends → Bool) (key : Bytes) : Option (Index backends) :=
  if backends = [] then none else
    ((List.finRange _).foldl (visit a hash backends alive key) (none,.negInf)).1

variable (a : Arith R) (hash : Bytes → Bytes → UInt64) (backends : List (WeightedBackend R))

def ranking (key : Bytes) : FirstMax.Ranking (Index backends) (F64 R) :=
  ⟨score a hash backends key,F64.gt,.negInf⟩

theorem rankingLawful (key : Bytes) : FirstMax.Lawful (ranking a hash backends key) where
  irrefl := F64.gtIrrefl
  trans := F64.gtTrans
  split := by
    intro x y z above ranked
    apply F64.gtSplit above
    rcases ranked with rfl | high
    · exact fun same => by contradiction
    · exact F64.gtNumber high

theorem nextScan (alive : Index backends → Bool) (key : Bytes) :
    next a hash backends alive key =
      (FirstMax.scan (ranking a hash backends key) ((List.finRange _).filter alive)).1 := by
  have skips : ∀ (rest : List (Index backends)) (best : Option (Index backends) × F64 R),
      rest.foldl (visit a hash backends alive key) best =
        (rest.filter alive).foldl (FirstMax.scanStep (ranking a hash backends key)) best := by
    intro rest
    induction rest with
    | nil => exact fun best => rfl
    | cons i rest ih =>
      intro best
      rw [List.foldl_cons,ih]
      cases up : alive i with
      | false => simp only [visit,up,Bool.not_false,if_true,List.filter_cons,Bool.false_eq_true,if_false]
      | true =>
        rw [List.filter_cons_of_pos up,List.foldl_cons]
        simp only [visit,up,Bool.not_true,Bool.false_eq_true,if_false]
        rfl
  unfold next
  split
  · rename_i empty
    subst empty
    rfl
  · rw [skips]
    rfl

theorem nextAlive {alive : Index backends → Bool} {key i}
    (chosen : next a hash backends alive key = some i) : alive i = true := by
  rw [nextScan] at chosen
  exact (List.mem_filter.mp (FirstMax.scanMem (rankingLawful a hash backends key) chosen)).2

theorem nextUnbeaten {alive : Index backends → Bool} {key i j}
    (chosen : next a hash backends alive key = some i) (up : alive j = true) :
    F64.gt (score a hash backends key j) (score a hash backends key i) = false := by
  rw [nextScan] at chosen
  exact FirstMax.scanUnbeaten (rankingLawful a hash backends key) chosen j
    (List.mem_filter.mpr ⟨List.mem_finRange j,up⟩)

theorem nextRanked {alive : Index backends → Bool} {key j} (up : alive j = true)
    (ranked : F64.gt (score a hash backends key j) .negInf = true) :
    ∃ i, next a hash backends alive key = some i := by
  rw [nextScan]
  exact FirstMax.scanRanked (rankingLawful a hash backends key)
    (List.mem_filter.mpr ⟨List.mem_finRange j,up⟩) ranked

theorem filterWithin {n : Nat} {A B : Fin n → Bool} (sub : ∀ i, B i = true → A i = true) :
    (List.finRange n).filter B = ((List.finRange n).filter A).filter B := by
  rw [List.filter_filter]
  apply List.filter_congr
  intro i _
  cases live : B i with
  | false => rfl
  | true => rw [sub i live]; rfl

/- Between alive sets `B ⊆ A` only the keys of backends outside `B` move, and
what moves on the way back moves to a backend that `B` lacks. -/
theorem onlyFailedMove {A B : Index backends → Bool} (sub : ∀ i, B i = true → A i = true)
    (key : Bytes) :
    (∀ i, next a hash backends A key = some i → B i = true →
      next a hash backends B key = some i) ∧
    (next a hash backends A key ≠ next a hash backends B key →
      ∃ i, next a hash backends A key = some i ∧ A i = true ∧ B i = false) := by
  have lawful := rankingLawful a hash backends key
  have stays : ∀ i, next a hash backends A key = some i → B i = true →
      next a hash backends B key = some i := by
    intro i chosen kept
    rw [nextScan] at chosen
    rw [nextScan,filterWithin sub]
    exact FirstMax.scanFilter lawful B chosen kept
  refine ⟨stays,fun moved => ?_⟩
  cases chosen : next a hash backends A key with
  | none =>
    have nowhere := chosen
    rw [nextScan] at nowhere
    have still := FirstMax.scanNone lawful B nowhere
    rw [← filterWithin sub,← nextScan] at still
    exact absurd (chosen.trans still.symm) moved
  | some i =>
    refine ⟨i,rfl,nextAlive a hash backends chosen,?_⟩
    cases kept : B i with
    | false => rfl
    | true => exact absurd (chosen.trans (stays i chosen kept).symm) moved

noncomputable def exactArith : Arith ℝ where
  ofU64 hash := .fin hash.toNat
  div
    | .fin x,.fin y => .fin (x/y)
    | _,_ => .nan
  ln
    | .fin x => .fin (Real.log x)
    | _ => .nan
  powf
    | .fin x,.fin y => .fin (x^y)
    | _,_ => .nan

def localBackend (port : UInt16) (weight : R) : WeightedBackend R :=
  ⟨localhost port,.fin weight⟩

noncomputable def locals : List (WeightedBackend ℝ) :=
  [localBackend 20000 1,localBackend 20001 3,localBackend 20002 5]

def secondDown (i : Index locals) : Bool := decide (i.val ≠ 1)

noncomputable def localNext (alive : Index locals → Bool) : Option (Index locals) :=
  next exactArith (hashWithBackend fnv1a) locals alive [1]

theorem onlyFailedMoveLocal :
    (∀ i, localNext (fun _ => true) = some i → secondDown i = true →
      localNext secondDown = some i) ∧
    (localNext (fun _ => true) ≠ localNext secondDown →
      ∃ i, localNext (fun _ => true) = some i ∧ true = true ∧ secondDown i = false) :=
  onlyFailedMove exactArith (hashWithBackend fnv1a) locals (B := secondDown)
    (fun _ _ => rfl) [1]

end UdpBalancer.Rendezvous
