import Mathlib.Algebra.Ring.Nat
import Mathlib.Data.List.Basic

/-! Readers that take characters off the front of a text or fail without taking
any: how much a reader takes, and what it reads back of a printed number. -/
namespace UdpBalancer

abbrev Reader (α : Type) : Type := List Char → Option (α × List Char)

namespace Reader
variable {α β : Type}

def given (target : Char) : Reader Unit
  | [] => none
  | c::rest => if c = target then some ((),rest) else none

def separated (separator : Char) (index : Nat) (inner : Reader α) : Reader α := fun s =>
  if 0 < index then do
    let (_,s) ← given separator s
    inner s
  else inner s

def parts (separator : Char) (inner : Reader α) : (index count : Nat) → Reader (List α)
  | _, 0 => fun s => some ([],s)
  | index, count+1 => fun s => do
      let (x,s) ← separated separator index inner s
      let (xs,s) ← parts separator inner (index+1) count s
      some (x::xs,s)

def toDigit (radix : Nat) (c : Char) : Option Nat :=
  let digit := if '0' ≤ c ∧ c ≤ '9' then some (c.toNat - '0'.toNat)
    else if 'a' ≤ c ∧ c ≤ 'z' then some (c.toNat - 'a'.toNat+10)
    else if 'A' ≤ c ∧ c ≤ 'Z' then some (c.toNat - 'A'.toNat+10)
    else none
  digit.filter (· < radix)

/- The digits in front, with what the loop has read of them: their number and the
number they write. A run that is too long, or a value past the limit, fails. -/
def digitRun (radix : Nat) (maxDigits : Option Nat) (limit : Nat) :
    (result count : Nat) → List Char → Option ((Nat × Nat) × List Char)
  | result, count, [] => some ((result,count),[])
  | result, count, c::rest => match toDigit radix c with
    | none => some ((result,count),c::rest)
    | some digit =>
        let result := result*radix+digit
        let fails := match maxDigits with
          | some most => decide (most < count+1)
          | none => decide (limit < result)
        if fails then none else digitRun radix maxDigits limit result (count+1) rest

def number (radix : Nat) (maxDigits : Option Nat) (allowZeroPrefix : Bool) (limit : Nat) :
    Reader Nat := fun s => do
  let ((result,count),rest) ← digitRun radix maxDigits limit 0 0 s
  if count = 0 then none
  else if !allowZeroPrefix && s.head? == some '0' && decide (1 < count) then none
  else if limit < result then none
  else some (result,rest)

def Takes (most : Nat) (inner : Reader α) : Prop :=
  ∀ {s x rest}, inner s = some (x,rest) → s.length ≤ rest.length+most

theorem givenTakes (target : Char) : Takes 1 (given target) := by
  intro s x rest taken
  cases s with
  | nil => contradiction
  | cons c s =>
    simp only [given] at taken
    split at taken
    · cases taken
      exact Nat.le_refl _
    · contradiction

theorem separatedTakes (separator : Char) (index : Nat) {inner : Reader α} {most : Nat}
    (bound : Takes most inner) : Takes (most+min index 1) (separated separator index inner) := by
  intro s x rest taken
  unfold separated at taken
  split at taken
  · simp only [bind,Option.bind_eq_some_iff] at taken
    obtain ⟨⟨_,t⟩,sep,taken⟩ := taken
    have first := givenTakes separator sep
    have second := bound (s := t) taken
    omega
  · have whole := bound taken
    omega

theorem partsTakes (separator : Char) {inner : Reader α} {most : Nat} (bound : Takes most inner)
    (index count : Nat) : Takes (count*(most+1)) (parts separator inner index count) := by
  induction count generalizing index with
  | zero =>
    intro s x rest taken
    cases taken
    omega
  | succ count ih =>
    intro s x rest taken
    simp only [parts,bind,Option.bind_eq_some_iff] at taken
    obtain ⟨⟨y,t⟩,head,⟨ys,u⟩,tail,last⟩ := taken
    cases last
    have first := separatedTakes separator index bound head
    have later := ih (index+1) (s := t) tail
    show s.length ≤ u.length+(count+1)*(most+1)
    rw [Nat.succ_mul]
    omega

theorem partsTakesFirst (separator : Char) {inner : Reader α} {most : Nat}
    (bound : Takes most inner) (count : Nat) :
    Takes (most+count*(most+1)) (parts separator inner 0 (count+1)) := by
  intro s x rest taken
  simp only [parts,bind,Option.bind_eq_some_iff] at taken
  obtain ⟨⟨y,t⟩,head,⟨ys,u⟩,tail,last⟩ := taken
  cases last
  have first := separatedTakes separator 0 bound head
  have later := partsTakes separator bound 1 count (s := t) tail
  show s.length ≤ u.length+(most+count*(most+1))
  omega

theorem digitRunTakes {radix most limit result count : Nat} {s : List Char} {n m : Nat}
    {rest : List Char}
    (taken : digitRun radix (some most) limit result count s = some ((n,m),rest))
    (within : count ≤ most) : s.length+count ≤ rest.length+most := by
  induction s generalizing result count with
  | nil =>
    cases taken
    omega
  | cons c s ih =>
    unfold digitRun at taken
    split at taken
    · cases taken
      omega
    · simp only at taken
      split at taken
      · contradiction
      · rename_i few
        have few : ¬ most < count+1 := by simpa using few
        have later := ih taken (by omega)
        rw [List.length_cons]
        omega

theorem numberTakes (radix most : Nat) (allowZeroPrefix : Bool) (limit : Nat) :
    Takes most (number radix (some most) allowZeroPrefix limit) := by
  intro s x rest taken
  simp only [number,bind,Option.bind_eq_some_iff] at taken
  obtain ⟨⟨⟨n,m⟩,t⟩,run,last⟩ := taken
  have bound := digitRunTakes run (Nat.zero_le most)
  split at last
  · contradiction
  · split at last
    · contradiction
    · split at last
      · contradiction
      · cases last
        exact bound

def Ends (radix : Nat) (s : List Char) : Prop := ∀ c ∈ s.head?, toDigit radix c = none

theorem endsAt {radix : Nat} {c : Char} (other : toDigit radix c = none) (s : List Char) :
    Ends radix (c::s) := by
  intro d mem
  cases mem
  exact other

theorem endsNil (radix : Nat) : Ends radix [] := by
  intro c mem
  contradiction

structure Prints (radix : Nat) : Prop where
  base : 1 < radix
  most : radix ≤ 16

theorem decimal : Prints 10 := ⟨by decide,by decide⟩

theorem hexadecimal : Prints 16 := ⟨by decide,by decide⟩

theorem toDigitOfDigitChar : ∀ radix ≤ 16, ∀ d < radix,
    toDigit radix (Nat.digitChar d) = some d := by decide

theorem printedDigit {radix n : Nat} (base : 1 < radix) {c : Char}
    (mem : c ∈ Nat.toDigits radix n) : ∃ d < radix, c = Nat.digitChar d := by
  induction n using Nat.strongRecOn with
  | ind n ih =>
    rcases Nat.lt_or_ge n radix with small | large
    · rw [Nat.toDigits_of_lt_base small,List.mem_singleton] at mem
      exact ⟨n,small,mem⟩
    · rw [Nat.toDigits_of_base_le base large,List.mem_append,List.mem_singleton] at mem
      rcases mem with before | last
      · exact ih (n/radix) (Nat.div_lt_self (by omega) base) before
      · exact ⟨n%radix,Nat.mod_lt n (by omega),last⟩

theorem printedRead {radix n : Nat} (prints : Prints radix) {c : Char}
    (mem : c ∈ Nat.toDigits radix n) : (toDigit radix c).isSome := by
  obtain ⟨d,small,rfl⟩ := printedDigit prints.base mem
  rw [toDigitOfDigitChar radix prints.most d small]
  exact rfl

theorem printedHead {radix : Nat} (prints : Prints radix) (n : Nat) (rest : List Char) :
    ∃ c ∈ (Nat.toDigits radix n ++ rest).head?, (toDigit radix c).isSome := by
  cases printed : Nat.toDigits radix n with
  | nil => exact absurd printed Nat.toDigits_ne_nil
  | cons c more => exact ⟨c,rfl,printedRead prints (printed ▸ List.mem_cons_self)⟩

theorem printedZero {radix n : Nat} (base : 1 < radix)
    (zero : (Nat.toDigits radix n).head? = some '0') : n = 0 := by
  induction n using Nat.strongRecOn with
  | ind n ih =>
    rcases Nat.lt_or_ge n radix with small | large
    · rw [Nat.toDigits_of_lt_base small] at zero
      exact Nat.digitChar_eq_zero.1 (Option.some.inj zero)
    · rw [Nat.toDigits_of_base_le base large,
        List.head?_append_of_ne_nil _ Nat.toDigits_ne_nil] at zero
      have none := ih (n/radix) (Nat.div_lt_self (by omega) base) zero
      have some := Nat.div_pos large (by omega)
      omega

structure Fits (radix : Nat) (maxDigits : Option Nat) (limit n : Nat) : Prop where
  few : ∀ most ∈ maxDigits, (Nat.toDigits radix n).length ≤ most
  bound : maxDigits = none → n ≤ limit

theorem fitsDiv {radix limit n : Nat} {maxDigits : Option Nat} (base : 1 < radix)
    (large : radix ≤ n) (fits : Fits radix maxDigits limit n) :
    Fits radix maxDigits limit (n/radix) where
  few := by
    intro most mem
    have bound := fits.few most mem
    rw [Nat.toDigits_of_base_le base large,List.length_append] at bound
    omega
  bound := fun free => Nat.le_trans (Nat.div_le_self n radix) (fits.bound free)

theorem fitsFew {radix most limit n : Nat} (base : 1 < radix) (some : 0 < most)
    (small : n < radix^most) : Fits radix (Option.some most) limit n where
  few := by
    intro m mem
    cases mem
    exact (Nat.length_toDigits_le_iff base some).2 small
  bound := fun free => by contradiction

theorem fitsFree {radix limit n : Nat} (bound : n ≤ limit) : Fits radix none limit n where
  few := fun most mem => by contradiction
  bound := fun _ => bound

theorem digitRunStep {radix limit result count d : Nat} {maxDigits : Option Nat}
    {rest : List Char} (most : radix ≤ 16) (small : d < radix)
    (few : ∀ most ∈ maxDigits, count+1 ≤ most)
    (bound : maxDigits = none → result*radix+d ≤ limit) :
    digitRun radix maxDigits limit result count (Nat.digitChar d::rest) =
      digitRun radix maxDigits limit (result*radix+d) (count+1) rest := by
  rw [digitRun,toDigitOfDigitChar radix most d small]
  cases maxDigits with
  | none => exact if_neg (by simpa using bound rfl)
  | some most => exact if_neg (by simpa using few most rfl)

theorem digitRunPrinted {radix limit n : Nat} {maxDigits : Option Nat} (prints : Prints radix)
    (fits : Fits radix maxDigits limit n) (rest : List Char) :
    digitRun radix maxDigits limit 0 0 (Nat.toDigits radix n ++ rest) =
      digitRun radix maxDigits limit n (Nat.toDigits radix n).length rest := by
  obtain ⟨base,most⟩ := prints
  induction n using Nat.strongRecOn generalizing rest with
  | ind n ih =>
    have few := fits.few
    rcases Nat.lt_or_ge n radix with small | large
    · rw [Nat.toDigits_of_lt_base small] at few ⊢
      rw [List.singleton_append,digitRunStep most small (by simpa using few)]
      · simp
      · simpa using fits.bound
    · have shorter := Nat.div_lt_self (show 0 < n by omega) base
      have last : n%radix < radix := Nat.mod_lt n (by omega)
      have whole : n/radix*radix+n%radix = n := Nat.div_add_mod' n radix
      rw [Nat.toDigits_of_base_le base large,List.length_append] at few ⊢
      rw [List.append_assoc,List.singleton_append,
        ih (n/radix) shorter (fitsDiv base large fits),digitRunStep most last few,whole]
      · simp
      · exact whole.symm ▸ fits.bound

theorem digitRunEnds {radix limit result count : Nat} {maxDigits : Option Nat}
    {rest : List Char} (ends : Ends radix rest) :
    digitRun radix maxDigits limit result count rest = some ((result,count),rest) := by
  cases rest with
  | nil => rfl
  | cons c rest => rw [digitRun,ends c rfl]

theorem numberPrinted {radix limit n : Nat} {maxDigits : Option Nat} (prints : Prints radix)
    (allowZeroPrefix : Bool) (fits : Fits radix maxDigits limit n) (bound : n ≤ limit)
    {rest : List Char} (ends : Ends radix rest) :
    number radix maxDigits allowZeroPrefix limit (Nat.toDigits radix n ++ rest) =
      some (n,rest) := by
  have some : 0 < (Nat.toDigits radix n).length := List.length_pos_iff.2 Nat.toDigits_ne_nil
  have plain : (!allowZeroPrefix && (Nat.toDigits radix n ++ rest).head? == Option.some '0' &&
      decide (1 < (Nat.toDigits radix n).length)) = false := by
    rw [List.head?_append_of_ne_nil _ Nat.toDigits_ne_nil]
    by_cases zero : (Nat.toDigits radix n).head? = Option.some '0'
    · simp [printedZero prints.base zero]
    · simp [zero]
  simp only [number,digitRunPrinted prints fits,digitRunEnds ends,bind,Option.bind,plain]
  rw [if_neg (by omega),if_neg (by simp),if_neg (by omega)]

/- Parts written one after another, each but the first with the separator in front,
are read one after another. -/
def later (separator : Char) (write : α → List Char) (xs : List α) : List Char :=
  xs.flatMap fun x => separator::write x

variable {separator : Char} {write : α → List Char} {inner : Reader α} {stops : List Char → Prop}

theorem separatedLater (index : Nat) (s : List Char) :
    separated separator (index+1) inner (separator::s) = inner s := by
  simp [separated,given]

theorem stopsLater (separates : ∀ rest, stops (separator::rest)) {rest : List Char}
    (stop : stops rest) (xs : List α) : stops (later separator write xs ++ rest) := by
  cases xs with
  | nil => exact stop
  | cons x xs => exact separates _

theorem partsLater (separates : ∀ rest, stops (separator::rest)) (index : Nat) {xs : List α}
    (reads : ∀ x ∈ xs, ∀ rest, stops rest → inner (write x ++ rest) = some (x,rest))
    {rest : List Char} (stop : stops rest) :
    parts separator inner (index+1) xs.length (later separator write xs ++ rest) =
      some (xs,rest) := by
  induction xs generalizing index with
  | nil => rfl
  | cons x xs ih =>
    have first := reads x List.mem_cons_self (later separator write xs ++ rest)
      (stopsLater separates stop xs)
    have others := ih (index+1) fun y mem => reads y (List.mem_cons_of_mem x mem)
    have text : later separator write (x::xs) ++ rest =
        separator::(write x ++ (later separator write xs ++ rest)) := by simp [later]
    rw [text,List.length_cons,parts]
    simp only [separatedLater,first,bind,Option.bind,others]

theorem partsWritten (separates : ∀ rest, stops (separator::rest)) {x : α} {xs : List α}
    (reads : ∀ y ∈ x::xs, ∀ rest, stops rest → inner (write y ++ rest) = some (y,rest))
    {rest : List Char} (stop : stops rest) :
    parts separator inner 0 (xs.length+1) (write x ++ (later separator write xs ++ rest)) =
      some (x::xs,rest) := by
  have first := reads x List.mem_cons_self (later separator write xs ++ rest)
    (stopsLater separates stop xs)
  have others := partsLater separates 0 (fun y mem => reads y (List.mem_cons_of_mem x mem)) stop
  simp only [parts,separated,Nat.lt_irrefl,if_false,first,bind,Option.bind,others]

end Reader
end UdpBalancer
