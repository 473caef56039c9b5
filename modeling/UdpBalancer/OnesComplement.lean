import Mathlib.Algebra.Ring.Nat
import UdpBalancer.Loop

/-! One's-complement sums of big-endian 16-bit words, kept in a 32-bit accumulator
and folded at the end, as Internet checksums are computed; and the sum with
end-around carry that a receiver checks. Both agree with the residue below. -/
namespace UdpBalancer.OnesComplement

def word (high low : UInt8) : UInt32 := high.toUInt32 <<< 8 ||| low.toUInt32

def words : List UInt8 → List UInt32
  | high::low::rest => word high low::words rest
  | [high] => [high.toUInt32 <<< 8]
  | [] => []

def addWords (sum : UInt32) (bytes : List UInt8) : UInt32 := (words bytes).foldl (· + ·) sum

def foldStep (sum : UInt32) : Loop.Turn UInt32 UInt32 :=
  if sum >>> 16 ≠ 0 then .more ((sum &&& (0xFFFF : UInt32))+(sum >>> 16)) else .done sum

def fold (sum : UInt32) : Option UInt32 := Loop.run foldStep 3 sum

def complement (sum : UInt32) : UInt16 := (~~~sum).toUInt16

def value : List UInt8 → Nat
  | high::low::rest => 256*high.toNat+low.toNat+value rest
  | [high] => 256*high.toNat
  | [] => 0

def residue (n : Nat) : Nat := if n = 0 then 0 else (n-1) % 65535+1

theorem wordNat (high low : UInt8) : (word high low).toNat = 256*high.toNat+low.toNat := by
  have bound := high.toNat_lt
  have lower : low.toNat < 2^8 := low.toNat_lt
  have small : high.toNat <<< 8 < 2^32 := by
    rw [Nat.shiftLeft_eq]
    omega
  have shifted : (high.toUInt32 <<< 8).toNat = high.toNat <<< 8 := by
    rw [UInt32.toNat_shiftLeft,UInt8.toNat_toUInt32]
    exact Nat.mod_eq_of_lt small
  rw [word,UInt32.toNat_or,shifted,UInt8.toNat_toUInt32,← Nat.shiftLeft_add_eq_or_of_lt lower,
    Nat.shiftLeft_eq]
  omega

theorem wordLt (high low : UInt8) : 256*high.toNat+low.toNat < 65536 := by
  have bound := high.toNat_lt
  have lower := low.toNat_lt
  omega

theorem wordsSum (bytes : List UInt8) : ((words bytes).map UInt32.toNat).sum = value bytes := by
  induction bytes using words.induct with
  | case1 high low rest ih => simp only [words,List.map_cons,List.sum_cons,wordNat,ih,value]
  | case2 high =>
    have padded := wordNat high 0
    have plain : word high 0 = high.toUInt32 <<< 8 := UInt32.or_zero
    rw [plain] at padded
    simpa [words,value] using padded
  | case3 => rfl

theorem addNat (terms : List UInt32) (sum : UInt32) :
    (terms.foldl (· + ·) sum).toNat = (sum.toNat+(terms.map UInt32.toNat).sum) % 2^32 := by
  induction terms generalizing sum with
  | nil => exact (Nat.mod_eq_of_lt sum.toNat_lt).symm
  | cons term terms ih =>
    rw [List.foldl_cons,ih,UInt32.toNat_add,List.map_cons,List.sum_cons]
    omega

theorem addWordsNat (sum : UInt32) (bytes : List UInt8) :
    (addWords sum bytes).toNat = (sum.toNat+value bytes) % 2^32 := by
  rw [addWords,addNat,wordsSum]

theorem valueBound (bytes : List UInt8) : value bytes ≤ 65535*((bytes.length+1)/2) := by
  induction bytes using words.induct with
  | case1 high low rest ih =>
    have bound := wordLt high low
    simp only [value,List.length_cons]
    omega
  | case2 high =>
    have bound := wordLt high 0
    simp only [value,List.length_cons,List.length_nil]
    omega
  | case3 => exact Nat.zero_le _

theorem valueAppend {front : List UInt8} (even : front.length % 2 = 0) (rear : List UInt8) :
    value (front ++ rear) = value front+value rear := by
  induction front using words.induct with
  | case1 high low rest ih =>
    have even : rest.length % 2 = 0 := by
      simp only [List.length_cons] at even
      omega
    simp only [List.cons_append,value,ih even,Nat.add_assoc]
  | case2 high => simp at even
  | case3 => simp only [List.nil_append,value,Nat.zero_add]

theorem residueSmall {n : Nat} (small : n < 65536) : residue n = n := by
  unfold residue
  split
  · omega
  · omega

theorem residueFold (high low : Nat) : residue (65536*high+low) = residue (high+low) := by
  unfold residue
  split
  · rename_i zero
    rw [if_pos (by omega)]
  · rename_i some
    rw [if_neg (by omega)]
    omega

theorem residueTop {n : Nat} : residue n = 65535 ↔ 0 < n ∧ n % 65535 = 0 := by
  unfold residue
  split
  · omega
  · omega

theorem foldDone {sum : UInt32} (small : sum.toNat < 65536) : foldStep sum = .done sum := by
  have high : sum >>> 16 = 0 := by
    apply UInt32.toNat.inj
    rw [UInt32.toNat_shiftRight]
    exact Nat.shiftRight_eq_zero _ _ small
  rw [foldStep,if_neg (not_not.mpr high)]

theorem sumHalves (sum : UInt32) : (sum >>> 16).toNat = sum.toNat/65536 ∧
    (sum &&& (0xFFFF : UInt32)).toNat = sum.toNat % 65536 := by
  constructor
  · rw [UInt32.toNat_shiftRight]
    exact Nat.shiftRight_eq_div_pow _ _
  · rw [UInt32.toNat_and]
    exact Nat.and_two_pow_sub_one_eq_mod _ 16

theorem foldMore {sum : UInt32} (large : 65536 ≤ sum.toNat) :
    ∃ t, foldStep sum = .more t ∧ t.toNat = sum.toNat/65536+sum.toNat % 65536 := by
  have bound := sum.toNat_lt
  obtain ⟨high,low⟩ := sumHalves sum
  refine ⟨_,if_pos fun zero => ?_,?_⟩
  · rw [zero] at high
    have : (0 : UInt32).toNat = 0 := rfl
    omega
  · rw [UInt32.toNat_add,high,low]
    omega

theorem foldExact (sum : UInt32) : ∃ r, fold sum = some r ∧ r.toNat = residue sum.toNat := by
  have bound := sum.toNat_lt
  have split := residueFold (sum.toNat/65536) (sum.toNat % 65536)
  rw [Nat.div_add_mod] at split
  rcases Nat.lt_or_ge sum.toNat 65536 with small | large
  · exact ⟨sum,Loop.runDone (foldDone small) _,(residueSmall small).symm⟩
  · obtain ⟨t,first,tNat⟩ := foldMore large
    have turned := Loop.runMore first 2
    have again := residueFold (t.toNat/65536) (t.toNat % 65536)
    rw [Nat.div_add_mod] at again
    rcases Nat.lt_or_ge t.toNat 65536 with short | long
    · refine ⟨t,turned.trans (Loop.runDone (foldDone short) _),?_⟩
      rw [split,← tNat,residueSmall short]
    · obtain ⟨u,second,uNat⟩ := foldMore long
      have little : u.toNat < 65536 := by omega
      refine ⟨u,turned.trans ((Loop.runMore second 1).trans (Loop.runDone (foldDone little) _)),?_⟩
      rw [split,← tNat,again,← uNat,residueSmall little]

theorem complementNat {sum : UInt32} (small : sum.toNat < 65536) :
    (complement sum).toNat = 65535-sum.toNat := by
  have size : UInt32.size = 4294967296 := rfl
  rw [complement,UInt32.toNat_toUInt16,UInt32.toNat_not,size]
  omega

/- The receiver adds the words one by one, each carry back in at the end. -/
def carryAdd (sum term : Nat) : Nat :=
  if sum+term < 65536 then sum+term else sum+term-65535

def onesSum (terms : List Nat) : Nat := terms.foldl carryAdd 0

theorem carryResidue (n : Nat) {term : Nat} (small : term < 65536) :
    carryAdd (residue n) term = residue (n+term) := by
  unfold carryAdd residue
  split <;> split <;> split <;> omega

theorem onesSumResidue {terms : List Nat} (small : ∀ t ∈ terms, t < 65536) :
    onesSum terms = residue terms.sum := by
  have start : ∀ n, terms.foldl carryAdd (residue n) = residue (n+terms.sum) := by
    induction terms with
    | nil => exact fun n => rfl
    | cons term terms ih =>
      intro n
      rw [List.foldl_cons,carryResidue n (small term List.mem_cons_self),
        ih (fun t mem => small t (List.mem_cons_of_mem term mem)),List.sum_cons,Nat.add_assoc]
  have whole := start 0
  rwa [Nat.zero_add] at whole

theorem wordsSmall (bytes : List UInt8) : ∀ t ∈ (words bytes).map UInt32.toNat, t < 65536 := by
  induction bytes using words.induct with
  | case1 high low rest ih =>
    intro t mem
    rcases List.mem_cons.mp mem with rfl | tail
    · rw [wordNat]
      exact wordLt high low
    · exact ih t tail
  | case2 high =>
    intro t mem
    cases List.mem_singleton.mp mem
    have plain : word high 0 = high.toUInt32 <<< 8 := UInt32.or_zero
    rw [← plain,wordNat]
    exact wordLt high 0
  | case3 => exact fun t mem => absurd mem List.not_mem_nil

theorem pairsNat {left right : List UInt32} (same : left.length = right.length) (sum : UInt32) :
    ((left.zip right).foldl (fun sum pair => sum+pair.1+pair.2) sum).toNat =
      (sum.toNat+(left.map UInt32.toNat).sum+(right.map UInt32.toNat).sum) % 2^32 := by
  induction left generalizing right sum with
  | nil =>
    cases right with
    | nil => exact (Nat.mod_eq_of_lt sum.toNat_lt).symm
    | cons y right => contradiction
  | cons x left ih =>
    cases right with
    | nil => contradiction
    | cons y right =>
      simp only [List.zip_cons_cons,List.foldl_cons,ih (Nat.succ.inj same),UInt32.toNat_add,
        List.map_cons,List.sum_cons]
      omega

/- The checksum field that makes a sum verify: the complement of the folded sum,
with the all-ones pattern in place of zero. -/
def closing (sum : UInt32) : Option UInt16 := do
  let folded ← fold sum
  let result := complement folded
  some (if result = 0 then 0xFFFF else result)

theorem closingExact (sum : UInt32) : ∃ c, closing sum = some c ∧ 0 < c.toNat ∧
    (sum.toNat+c.toNat) % 65535 = 0 := by
  obtain ⟨r,folded,exact⟩ := foldExact sum
  have small : residue sum.toNat < 65536 := by
    unfold residue
    split <;> omega
  have nat := complementNat (exact ▸ small)
  have flipped : (sum.toNat+(65535-r.toNat)) % 65535 = 0 := by
    rw [exact]
    unfold residue
    split <;> omega
  have atTop : complement r = 0 → r.toNat = 65535 := by
    intro zero
    rw [zero] at nat
    have : (0 : UInt16).toNat = 0 := rfl
    omega
  refine ⟨if complement r = 0 then 0xFFFF else complement r,?_,?_,?_⟩
  · simp only [closing,folded,bind,Option.bind]
  · split
    · decide
    · rename_i some
      exact Nat.pos_of_ne_zero fun zero => some (UInt16.toNat.inj zero)
  · split
    · rename_i zero
      have full : (0xFFFF : UInt16).toNat = 65535 := rfl
      have top := atTop zero
      rw [full]
      omega
    · rw [nat,flipped]

def checkedAdd (a b : UInt32) : Option UInt32 :=
  if a.toNat+b.toNat < 2^32 then some (a+b) else none

def addChecked (sum : UInt32) (bytes : List UInt8) : Option UInt32 :=
  (words bytes).foldlM checkedAdd sum

def foldTurn (sum : UInt32) : Loop.Turn UInt32 (Option UInt32) :=
  if sum >>> 16 ≠ 0 then
    match checkedAdd (sum &&& (0xFFFF : UInt32)) (sum >>> 16) with
    | some t => .more t
    | none => .done none
  else .done (some sum)

def foldChecked (sum : UInt32) : Option UInt32 := (Loop.run foldTurn 3 sum).join

def closingChecked (sum : UInt32) : Option UInt16 := do
  let folded ← foldChecked sum
  let result := complement folded
  some (if result = 0 then 0xFFFF else result)

theorem checkedFits {a b : UInt32} (fits : a.toNat+b.toNat < 2^32) :
    checkedAdd a b = some (a+b) ∧ (a+b).toNat = a.toNat+b.toNat := by
  refine ⟨if_pos fits,?_⟩
  rw [UInt32.toNat_add]
  exact Nat.mod_eq_of_lt fits

theorem checkedSum (terms : List UInt32) (sum : UInt32)
    (fits : sum.toNat+(terms.map UInt32.toNat).sum < 2^32) :
    terms.foldlM checkedAdd sum = some (terms.foldl (· + ·) sum) := by
  induction terms generalizing sum with
  | nil => rfl
  | cons term rest ih =>
    simp only [List.map_cons,List.sum_cons] at fits
    obtain ⟨added,nat⟩ := checkedFits (a := sum) (b := term) (by omega)
    rw [List.foldlM_cons,added]
    exact ih _ (by omega)

theorem addCheckedFits (sum : UInt32) (bytes : List UInt8)
    (fits : sum.toNat+value bytes < 2^32) :
    addChecked sum bytes = some (addWords sum bytes) ∧
      (addWords sum bytes).toNat = sum.toNat+value bytes := by
  refine ⟨checkedSum (words bytes) sum (by rwa [wordsSum]),?_⟩
  rw [addWordsNat]
  exact Nat.mod_eq_of_lt fits

theorem foldTurnSame (sum : UInt32) : foldTurn sum = (foldStep sum).image id some := by
  obtain ⟨high,low⟩ := sumHalves sum
  have bound := sum.toNat_lt
  unfold foldTurn foldStep
  split
  · rw [(checkedFits (by omega)).1]
    rfl
  · rfl

theorem foldCheckedSame (sum : UInt32) : foldChecked sum = fold sum := by
  have runs := Loop.runImage (f := id) (fun _ => True) (fun s _ => foldTurnSame s)
    (fun _ _ _ _ => trivial) (s := sum) trivial 3
  rw [foldChecked,show Loop.run foldTurn 3 sum = _ from runs,fold]
  cases Loop.run foldStep 3 sum with
  | none => rfl
  | some r => rfl

theorem closingCheckedSame (sum : UInt32) : closingChecked sum = closing sum := by
  rw [closingChecked,closing,foldCheckedSame]

theorem foldEnds (sum : UInt32) : ∃ r, Loop.Returns foldStep sum r := by
  obtain ⟨r,folded,_⟩ := foldExact sum
  exact ⟨r,_,folded⟩

end UdpBalancer.OnesComplement
