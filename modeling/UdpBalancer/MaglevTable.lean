import Mathlib.Data.ZMod.Basic
import Mathlib.FieldTheory.Finite.Basic
import Mathlib.Tactic.NormNum.Prime
import UdpBalancer.Loop
import UdpBalancer.Backends

/-! `Maglev::populate_table`: weighted entries take turns along their own probe
sequences until every slot is claimed. `none` stands for a panic or for a loop
that does not end; the results below say that neither happens. -/
namespace UdpBalancer.MaglevTable
open Backends (usizeMax)

def tableSize : Nat := 65537

structure Entry where
  backendIdx : Nat
  offset : Nat
  skip : Nat
  indexed : backendIdx < usizeMax
  offsetLt : offset < tableSize
  skipPos : 0 < skip
  skipLt : skip < tableSize
  deriving DecidableEq

def slot (e : Entry) (next : Nat) : Nat := (e.offset+next*e.skip) % 2^64 % tableSize

def Free (table : List Nat) (e : Entry) (next : Nat) : Prop :=
  table[slot e next]? = some usizeMax

structure Fill where
  table : List Nat
  next : List Nat
  filled : Nat

def probeStep (table : List Nat) (e : Entry) (next : Nat) : Loop.Turn Nat (Option Nat) :=
  match table[slot e next]? with
  | none => .done none
  | some owner => if owner ≠ usizeMax then .more (next+1) else .done (some next)

def claim (s : Fill) (entryIdx : Nat) (e : Entry) : Option Fill := do
  let start ← s.next[entryIdx]?
  let next ← (Loop.run (probeStep s.table e) (tableSize+1) start).join
  some ⟨s.table.set (slot e next) e.backendIdx,s.next.set entryIdx (next+1),s.filled+1⟩

-- one pass of the `for` over the entries, with its early break
def fillRound : List (Entry × Nat) → Fill → Option Fill
  | [], s => some s
  | (e,entryIdx)::rest, s => do
      let t ← claim s entryIdx e
      if tableSize ≤ t.filled then some t else fillRound rest t

def fillStep (entries : List Entry) (s : Fill) : Loop.Turn Fill (Option (List Nat)) :=
  if s.filled < tableSize then
    match fillRound entries.zipIdx s with
    | some t => .more t
    | none => .done none
  else .done (some s.table)

def start (entries : List Entry) : Fill :=
  ⟨List.replicate tableSize usizeMax,List.replicate entries.length 0,0⟩

def populateTable (entries : List Entry) : Option (List Nat) :=
  (Loop.run (fillStep entries) (tableSize+1) (start entries)).join

/- The probe sequence of an entry visits every slot, because the table size is
a prime and the skip is not a multiple of it. -/
theorem progressionCovers {p a d c : Nat} (prime : p.Prime) (pos : 0 < d) (lt : d < p)
    (inside : c < p) : ∃ j, j < p ∧ (a+j*d) % p = c := by
  have := Fact.mk prime
  have unit : (d : ZMod p) ≠ 0 := by
    rw [Ne,ZMod.natCast_eq_zero_iff]
    exact fun dvd => absurd (Nat.le_of_dvd pos dvd) (by omega)
  refine ⟨(((c : ZMod p)-a)*(d : ZMod p)⁻¹).val,ZMod.val_lt _,?_⟩
  rw [← Nat.mod_eq_of_lt inside,← ZMod.natCast_eq_natCast_iff']
  push_cast
  rw [ZMod.natCast_zmod_val,Nat.mod_eq_of_lt inside,inv_mul_cancel_right₀ unit]
  ring

theorem tableSizePrime : tableSize.Prime := by norm_num [tableSize]

theorem slotSmall (e : Entry) {next} (bound : next ≤ tableSize) :
    e.offset+next*e.skip < 2^64 := by
  have offset := e.offsetLt
  have product : next*e.skip ≤ tableSize*tableSize :=
    Nat.mul_le_mul bound (Nat.le_of_lt e.skipLt)
  simp only [tableSize] at offset product
  omega

theorem slotExact (e : Entry) {next} (bound : next ≤ tableSize) :
    slot e next = (e.offset+next*e.skip) % tableSize := by
  rw [slot,Nat.mod_eq_of_lt (slotSmall e bound)]

theorem slotLt (e : Entry) (next : Nat) : slot e next < tableSize :=
  Nat.mod_lt _ (by decide)

theorem slotCovers (e : Entry) {c} (inside : c < tableSize) : ∃ j, j < tableSize ∧ slot e j = c := by
  obtain ⟨j,lt,same⟩ := progressionCovers tableSizePrime e.skipPos e.skipLt (a := e.offset) inside
  exact ⟨j,lt,by rw [slotExact e (Nat.le_of_lt lt),same]⟩

/- What every turn of the fill keeps. `seen` ties an entry's counter to the
slots it has already found filled, so no free slot lies behind it. -/
structure Inv (entries : List Entry) (s : Fill) : Prop where
  size : s.table.length = tableSize
  counters : s.next.length = entries.length
  balance : s.table.count usizeMax + s.filled = tableSize
  seen : ∀ {i : Nat} {e : Entry} {n : Nat}, entries[i]? = some e → s.next[i]? = some n →
    n ≤ tableSize ∧ ∀ j, j < n → s.table[slot e j]? ≠ some usizeMax
  owners : ∀ v ∈ s.table, v = usizeMax ∨ ∃ e ∈ entries, v = e.backendIdx

theorem startInv (entries : List Entry) : Inv entries (start entries) where
  size := List.length_replicate
  counters := List.length_replicate
  balance := by simp [start]
  seen := by
    intro i e n atEntry atCounter
    obtain ⟨_,zero⟩ := List.getElem?_eq_some_iff.mp atCounter
    simp only [start,List.getElem_replicate] at zero
    subst zero
    exact ⟨Nat.zero_le _,fun j lt => absurd lt (Nat.not_lt_zero j)⟩
  owners := fun v mem => Or.inl (List.eq_of_mem_replicate mem)

theorem probeSearch {table : List Nat} (size : table.length = tableSize) (e : Entry) :
    Loop.Searches (probeStep table e) id (Free table e) some := by
  intro j
  have lt : slot e j < table.length := by rw [size]; exact slotLt e j
  have present := List.getElem?_eq_getElem lt
  refine ⟨fun free => ?_,fun taken => ?_⟩
  · unfold Free at free
    simp only [probeStep,id,free,ne_eq,not_true_eq_false,if_false]
  · simp only [Free,present,Option.some.injEq] at taken
    simp only [probeStep,id,present,ne_eq,taken,not_false_eq_true,if_true]

theorem freeSlot {entries s} (inv : Inv entries s) (room : s.filled < tableSize) :
    ∃ c, c < tableSize ∧ s.table[c]? = some usizeMax := by
  have balance := inv.balance
  have positive : 0 < s.table.count usizeMax := by omega
  obtain ⟨c,lt,same⟩ := List.mem_iff_getElem.mp (List.count_pos_iff.mp positive)
  exact ⟨c,inv.size ▸ lt,by rw [List.getElem?_eq_getElem lt,same]⟩

structure Claimed (s : Fill) (i : Nat) (e : Entry) (t : Fill) (n j : Nat) : Prop where
  counter : s.next[i]? = some n
  first : Loop.FirstFrom (Free s.table e) n j
  bound : j < tableSize
  result : t = ⟨s.table.set (slot e j) e.backendIdx,s.next.set i (j+1),s.filled+1⟩

theorem claimDefined {entries s i e} (inv : Inv entries s) (room : s.filled < tableSize)
    (atEntry : entries[i]? = some e) : ∃ t n j, claim s i e = some t ∧ Claimed s i e t n j := by
  obtain ⟨lt,_⟩ := List.getElem?_eq_some_iff.mp atEntry
  obtain ⟨n,counter⟩ : ∃ n, s.next[i]? = some n :=
    ⟨_,List.getElem?_eq_getElem (inv.counters ▸ lt : i < s.next.length)⟩
  have behind := inv.seen atEntry counter
  obtain ⟨c,inside,free⟩ := freeSlot inv room
  obtain ⟨k,kLt,there⟩ := slotCovers e inside
  have ahead : n ≤ k := by
    by_contra short
    exact behind.2 k (by omega) (there ▸ free)
  have reached : Free s.table e k := by unfold Free; rw [there,free]
  obtain ⟨j,first,le⟩ := Loop.firstFromExists ahead reached
  have found := Loop.searchRun (probeSearch inv.size e) first (tableSize+1) (by omega)
  simp only [id] at found
  refine ⟨_,n,j,?_,counter,first,by omega,rfl⟩
  simp only [claim,counter,found,bind,Option.bind,Option.join_some]

theorem claimKeeps {s i e t n j} (claimed : Claimed s i e t n j) {c v : Nat}
    (owned : s.table[c]? = some v) (taken : v ≠ usizeMax) : t.table[c]? = some v := by
  have apart : slot e j ≠ c := by
    intro same
    subst same
    exact taken (Option.some.inj (owned.symm.trans claimed.first.2.1))
  rw [claimed.result]
  simp only [List.getElem?_set,apart,if_false,owned]

theorem claimOwns {entries s i e t n j} (inv : Inv entries s) (claimed : Claimed s i e t n j) :
    t.table[slot e j]? = some e.backendIdx := by
  rw [claimed.result]
  simp only [List.getElem?_set,if_true,inv.size,slotLt]

theorem claimInv {entries s i e t n j} (inv : Inv entries s) (atEntry : entries[i]? = some e)
    (claimed : Claimed s i e t n j) : Inv entries t := by
  have keeps : ∀ c v : Nat, s.table[c]? = some v → v ≠ usizeMax → t.table[c]? = some v :=
    fun _ _ => claimKeeps claimed
  have lt : slot e j < s.table.length := by rw [inv.size]; exact slotLt e j
  have free : s.table[slot e j] = usizeMax := by
    have h : s.table[slot e j]? = some usizeMax := claimed.first.2.1
    rwa [List.getElem?_eq_getElem lt,Option.some.injEq] at h
  have named : e.backendIdx ≠ usizeMax := Nat.ne_of_lt e.indexed
  have stays : ∀ c, s.table[c]? ≠ some usizeMax → c < tableSize → t.table[c]? ≠ some usizeMax := by
    intro c taken inside
    have present := List.getElem?_eq_getElem (inv.size ▸ inside : c < s.table.length)
    rw [present,Ne,Option.some.injEq] at taken
    rw [keeps c _ present taken]
    simpa using taken
  have size : t.table.length = tableSize := by rw [claimed.result]; simp [inv.size]
  refine ⟨size,?_,?_,?_,?_⟩
  · rw [claimed.result]; simp [inv.counters]
  · have one : 0 < s.table.count usizeMax :=
      List.count_pos_iff.mpr (free ▸ List.getElem_mem lt)
    have balance := inv.balance
    rw [claimed.result]
    simp only [List.count_set lt,free,beq_self_eq_true,if_true,beq_iff_eq,named,if_false]
    omega
  · intro i' e' n' atEntry' atCounter'
    by_cases same : i = i'
    · subst same
      have eq : e = e' := Option.some.inj (atEntry.symm.trans atEntry')
      subst eq
      obtain ⟨short,_⟩ := List.getElem?_eq_some_iff.mp atCounter'
      have now : n' = j+1 := by
        rw [claimed.result] at atCounter' short
        simp only [List.getElem?_set,if_true] at atCounter'
        rw [if_pos (by simpa using short)] at atCounter'
        exact (Option.some.inj atCounter').symm
      have behind := inv.seen atEntry claimed.counter
      subst now
      refine ⟨claimed.bound,fun k kLt => ?_⟩
      rcases Nat.lt_succ_iff_lt_or_eq.mp kLt with before | rfl
      · rcases Nat.lt_or_ge k n with old | probed
        · exact stays _ (behind.2 k old) (slotLt e k)
        · exact stays _ (claimed.first.2.2 k probed before) (slotLt e k)
      · rw [claimOwns inv claimed]
        simpa using named
    · have before : s.next[i']? = some n' := by
        rw [claimed.result] at atCounter'
        simpa only [List.getElem?_set,same,if_false] using atCounter'
      have behind := inv.seen atEntry' before
      exact ⟨behind.1,fun k kLt => stays _ (behind.2 k kLt) (slotLt e' k)⟩
  · intro v mem
    rw [claimed.result] at mem
    rcases List.mem_or_eq_of_mem_set mem with old | rfl
    · exact inv.owners v old
    · exact Or.inr ⟨e,List.mem_of_getElem? atEntry,rfl⟩

def Extends (s t : Fill) : Prop :=
  ∀ c v : Nat, s.table[c]? = some v → v ≠ usizeMax → t.table[c]? = some v

theorem extendsTrans {s t u} (left : Extends s t) (right : Extends t u) : Extends s u :=
  fun c v owned taken => right c v (left c v owned taken) taken

theorem roundDefined {entries : List Entry} {rest : List (Entry × Nat)}
    (members : ∀ x ∈ rest, entries[x.2]? = some x.1) {s} (inv : Inv entries s)
    (room : s.filled < tableSize) :
    ∃ t, fillRound rest s = some t ∧ Inv entries t ∧ Extends s t ∧
      s.filled ≤ t.filled ∧ (rest ≠ [] → s.filled < t.filled) := by
  induction rest generalizing s with
  | nil => exact ⟨s,rfl,inv,fun _ _ owned _ => owned,Nat.le_refl _,fun empty => absurd rfl empty⟩
  | cons head rest ih =>
    obtain ⟨e,i⟩ := head
    have atEntry := members (e,i) List.mem_cons_self
    obtain ⟨t,n,j,ok,claimed⟩ := claimDefined inv room atEntry
    have tInv := claimInv inv atEntry claimed
    have keeps : Extends s t := fun c v => claimKeeps claimed
    have grows : t.filled = s.filled+1 := by rw [claimed.result]
    simp only [fillRound,ok,bind,Option.bind]
    split
    · exact ⟨t,rfl,tInv,keeps,by omega,fun _ => by omega⟩
    · have tail := ih (fun x mem => members x (List.mem_cons_of_mem _ mem)) tInv (by omega)
      obtain ⟨u,run,uInv,later,le,_⟩ := tail
      exact ⟨u,run,uInv,extendsTrans keeps later,by omega,fun _ => by omega⟩

theorem zipIdxMembers (entries : List Entry) :
    ∀ x ∈ entries.zipIdx, entries[x.2]? = some x.1 := by
  intro ⟨e,i⟩ mem
  exact List.mk_mem_zipIdx_iff_getElem?.mp mem

theorem fillFrom {entries : List Entry} (nonempty : entries ≠ []) {s} (inv : Inv entries s)
    (fuel : Nat) (enough : tableSize-s.filled < fuel) :
    ∃ t, (Loop.run (fillStep entries) fuel s).join = some t.table ∧ Inv entries t ∧
      Extends s t ∧ t.filled = tableSize := by
  induction fuel generalizing s with
  | zero => omega
  | succ fuel ih =>
    by_cases room : s.filled < tableSize
    · obtain ⟨t,round,tInv,keeps,_,grows⟩ := roundDefined (zipIdxMembers entries) inv room
      have progress := grows (by simpa using nonempty)
      have turn : fillStep entries s = .more t := by simp only [fillStep,room,if_true,round]
      rw [Loop.runMore turn]
      obtain ⟨u,run,uInv,later,full⟩ := ih tInv (by omega)
      exact ⟨u,run,uInv,extendsTrans keeps later,full⟩
    · have turn : fillStep entries s = .done (some s.table) := by
        simp only [fillStep,room,if_false]
      have balance := inv.balance
      rw [Loop.runDone turn]
      exact ⟨s,rfl,inv,fun _ _ owned _ => owned,by omega⟩

theorem populateExtends {entries : List Entry} (nonempty : entries ≠ []) :
    ∃ t, populateTable entries = some t.table ∧ Inv entries t ∧ t.filled = tableSize := by
  obtain ⟨t,run,inv,_,full⟩ := fillFrom nonempty (startInv entries)
    (tableSize+1) (by simp [start])
  exact ⟨t,run,inv,full⟩

theorem populateComplete {entries : List Entry} (nonempty : entries ≠ []) :
    ∃ table, populateTable entries = some table ∧ table.length = tableSize ∧
      ∀ v ∈ table, ∃ e ∈ entries, v = e.backendIdx := by
  obtain ⟨t,run,inv,full⟩ := populateExtends nonempty
  refine ⟨t.table,run,inv.size,fun v mem => ?_⟩
  have balance := inv.balance
  rcases inv.owners v mem with free | owned
  · exact absurd (free ▸ mem) (List.count_eq_zero.mp (by omega))
  · exact owned

theorem startFree (entries : List Entry) (e : Entry) (j : Nat) :
    Free (start entries).table e j := by
  simp only [Free,start,List.getElem?_replicate,slotLt,if_true]

theorem firstClaim (e : Entry) (rest : List Entry) :
    ∃ t, claim (start (e::rest)) 0 e = some t ∧ Claimed (start (e::rest)) 0 e t 0 0 := by
  have startRoom : (start (e::rest)).filled < tableSize := Nat.succ_pos 65536
  obtain ⟨t,n,j,ok,claimed⟩ := claimDefined (startInv (e::rest)) startRoom (i := 0) (e := e) rfl
  have zero : n = 0 := (Option.some.inj claimed.counter).symm
  subst zero
  have first : Loop.FirstFrom (Free (start (e::rest)).table e) 0 0 :=
    ⟨Nat.le_refl 0,startFree _ e 0,fun j _ lt => absurd lt (Nat.not_lt_zero j)⟩
  cases Loop.firstFromUnique claimed.first first
  exact ⟨t,ok,claimed⟩

theorem freeAfterFirst {e : Entry} {rest : List Entry} {t}
    (claimed : Claimed (start (e::rest)) 0 e t 0 0) (f : Entry) (j : Nat) :
    Free t.table f j ↔ slot f j ≠ slot e 0 := by
  have named : e.backendIdx ≠ usizeMax := Nat.ne_of_lt e.indexed
  have free := startFree (e::rest) f j
  unfold Free at free ⊢
  rw [claimed.result]
  simp only [List.getElem?_set]
  split
  · rename_i same
    simp [named,same]
  · rename_i apart
    simp only [free,true_iff]
    exact fun same => apart same.symm

theorem firstTwoOwned {e f : Entry} {rest : List Entry} {j table}
    (ok : populateTable (e::f::rest) = some table)
    (later : Loop.FirstFrom (fun k => slot f k ≠ slot e 0) 0 j) :
    table[slot e 0]? = some e.backendIdx ∧ table[slot f j]? = some f.backendIdx := by
  have inv := startInv (e::f::rest)
  obtain ⟨t,tOk,tClaimed⟩ := firstClaim e (f::rest)
  have tInv := claimInv inv rfl tClaimed
  have one : t.filled = 1 := by rw [tClaimed.result]; rfl
  obtain ⟨u,n,k,uOk,uClaimed⟩ := claimDefined tInv (by rw [one]; decide) (i := 1) (e := f) rfl
  have uInv := claimInv tInv rfl uClaimed
  have two : u.filled = 2 := by rw [uClaimed.result,one]
  have zero : n = 0 := by
    have counter := uClaimed.counter
    rw [tClaimed.result] at counter
    exact (Option.some.inj counter).symm
  subst zero
  have same : k = j := by
    have free : Free t.table f = fun k => slot f k ≠ slot e 0 :=
      funext fun k => propext (freeAfterFirst tClaimed f k)
    exact Loop.firstFromUnique (free ▸ uClaimed.first) later
  subst same
  have members : ∀ x ∈ rest.zipIdx 2, (e::f::rest)[x.2]? = some x.1 := by
    intro x mem
    exact zipIdxMembers (e::f::rest) x (List.mem_cons_of_mem _ (List.mem_cons_of_mem _ mem))
  obtain ⟨v,vOk,vInv,vLater,grown,_⟩ := roundDefined members uInv (by rw [two]; decide)
  have round : fillRound (e::f::rest).zipIdx (start (e::f::rest)) = some v := by
    simp only [List.zipIdx_cons,fillRound,tOk,uOk,bind,Option.bind,one,two]
    exact vOk
  have turn : fillStep (e::f::rest) (start (e::f::rest)) = .more v := by
    simp only [fillStep,round]
    rfl
  obtain ⟨w,run,_,wLater,_⟩ := fillFrom (List.cons_ne_nil e (f::rest)) vInv tableSize
    (by rw [two] at grown; simp only [tableSize]; omega)
  rw [populateTable,Loop.runMore turn,run] at ok
  cases Option.some.inj ok
  have kept := extendsTrans vLater wLater
  refine ⟨kept _ _ (claimKeeps uClaimed (claimOwns inv tClaimed) (Nat.ne_of_lt e.indexed))
    (Nat.ne_of_lt e.indexed),kept _ _ (claimOwns tInv uClaimed) (Nat.ne_of_lt f.indexed)⟩

end UdpBalancer.MaglevTable
