import UdpBalancer.MaglevTable
import UdpBalancer.TurnQuota

/-! Which entry claims which slot of the Maglev table. The claims of a fill are
logged in order; turn `t` belongs to entry `t % n`, and every slot is claimed
once, so the table is a rearrangement of the turns. -/
namespace UdpBalancer.MaglevTable
open Backends (usizeMax)

def claimSlot (s : Fill) (entryIdx : Nat) (e : Entry) : Option Nat := do
  let start ← s.next[entryIdx]?
  let next ← (Loop.run (probeStep s.table e) (tableSize+1) start).join
  some (slot e next)

def roundClaims : List (Entry × Nat) → Fill → List (Nat × Nat)
  | [], _ => []
  | (e,entryIdx)::rest, s => match claimSlot s entryIdx e,claim s entryIdx e with
    | some c,some t => (entryIdx,c)::if tableSize ≤ t.filled then [] else roundClaims rest t
    | _,_ => []

def claims (entries : List Entry) : List (Nat × Nat) :=
  Loop.logged (fillStep entries) (roundClaims entries.zipIdx) (tableSize+1) (start entries)

theorem claimSlotDefined {entries s i e} (inv : Inv entries s) (room : s.filled < tableSize)
    (atEntry : entries[i]? = some e) : ∃ t n j, claim s i e = some t ∧ Claimed s i e t n j ∧
      claimSlot s i e = some (slot e j) := by
  obtain ⟨t,n,j,ok,claimed⟩ := claimDefined inv room atEntry
  have found := Loop.searchRun (probeSearch inv.size e) claimed.first (tableSize+1)
    (by have := claimed.bound; omega)
  simp only [id] at found
  refine ⟨t,n,j,ok,claimed,?_⟩
  simp only [claimSlot,claimed.counter,found,bind,Option.bind,Option.join_some]

structure Log (entries : List Entry) (s t : Fill) (log : List (Nat × Nat)) : Prop where
  filled : t.filled = s.filled+log.length
  turns : log.map Prod.fst = (List.range' s.filled log.length).map (· % entries.length)
  free : ∀ x ∈ log, s.table[x.2]? = some usizeMax
  owned : ∀ x ∈ log, ∃ e, entries[x.1]? = some e ∧ t.table[x.2]? = some e.backendIdx
  distinct : (log.map Prod.snd).Nodup
  keeps : Extends s t

theorem logNil (entries : List Entry) (s : Fill) : Log entries s s [] where
  filled := rfl
  turns := rfl
  free := fun _ mem => absurd mem List.not_mem_nil
  owned := fun _ mem => absurd mem List.not_mem_nil
  distinct := List.nodup_nil
  keeps := fun _ _ owned _ => owned

theorem logClaim {entries s i e t n j} (inv : Inv entries s) (atEntry : entries[i]? = some e)
    (turn : s.filled % entries.length = i) (claimed : Claimed s i e t n j) :
    Log entries s t [(i,slot e j)] where
  filled := by rw [claimed.result]; rfl
  turns := by simp [turn]
  free := by
    intro x mem
    cases List.mem_singleton.mp mem
    exact claimed.first.2.1
  owned := by
    intro x mem
    cases List.mem_singleton.mp mem
    exact ⟨e,atEntry,claimOwns inv claimed⟩
  distinct := List.nodup_singleton _
  keeps := fun _ _ => claimKeeps claimed

theorem freeEarlier {entries s t} (sInv : Inv entries s) (tInv : Inv entries t)
    (keeps : Extends s t) {c : Nat} (free : t.table[c]? = some usizeMax) :
    s.table[c]? = some usizeMax := by
  obtain ⟨inside,_⟩ := List.getElem?_eq_some_iff.mp free
  have inside : c < s.table.length := by rwa [sInv.size,← tInv.size]
  have present := List.getElem?_eq_getElem inside
  by_contra taken
  have named : s.table[c] ≠ usizeMax := fun same => taken (by rw [present,same])
  rw [keeps c _ present named] at free
  exact named (Option.some.inj free)

theorem logAppend {entries s t u left right} (sInv : Inv entries s) (tInv : Inv entries t)
    (first : Log entries s t left) (second : Log entries t u right) :
    Log entries s u (left ++ right) where
  filled := by rw [second.filled,first.filled,List.length_append,Nat.add_assoc]
  turns := by
    rw [List.map_append,first.turns,second.turns,first.filled,List.length_append,← List.map_append,
      ← List.range'_append_1]
  free := by
    intro x mem
    rcases List.mem_append.mp mem with early | late
    · exact first.free x early
    · exact freeEarlier sInv tInv first.keeps (second.free x late)
  owned := by
    intro x mem
    rcases List.mem_append.mp mem with early | late
    · obtain ⟨e,atEntry,there⟩ := first.owned x early
      exact ⟨e,atEntry,second.keeps x.2 _ there (Nat.ne_of_lt e.indexed)⟩
    · exact second.owned x late
  distinct := by
    rw [List.map_append,List.nodup_append]
    refine ⟨first.distinct,second.distinct,fun a left b right same => ?_⟩
    subst same
    obtain ⟨x,early,rfl⟩ := List.mem_map.mp left
    obtain ⟨y,late,same⟩ := List.mem_map.mp right
    obtain ⟨e,_,there⟩ := first.owned x early
    have free := second.free y late
    rw [same,there] at free
    exact absurd (Option.some.inj free) (Nat.ne_of_lt e.indexed)
  keeps := extendsTrans first.keeps second.keeps

/- One pass: its claims are the next turns, and it stops early only when full. -/
theorem roundLog {entries : List Entry} {rest : List (Entry × Nat)} {s}
    (members : ∀ k x, rest[k]? = some x →
      entries[x.2]? = some x.1 ∧ (s.filled+k) % entries.length = x.2)
    (inv : Inv entries s) (room : s.filled < tableSize) :
    ∃ t, fillRound rest s = some t ∧ Inv entries t ∧ Log entries s t (roundClaims rest s) ∧
      t.filled ≤ tableSize ∧ (t.filled = tableSize ∨ t.filled = s.filled+rest.length) := by
  induction rest generalizing s with
  | nil => exact ⟨s,rfl,inv,logNil entries s,room.le,.inr rfl⟩
  | cons head rest ih =>
    obtain ⟨e,i⟩ := head
    obtain ⟨atEntry,turn⟩ := members 0 (e,i) rfl
    obtain ⟨t,n,j,ok,claimed,written⟩ := claimSlotDefined inv room atEntry
    have tInv := claimInv inv atEntry claimed
    have one := logClaim inv atEntry turn claimed
    have grows : t.filled = s.filled+1 := one.filled
    simp only [fillRound,roundClaims,ok,written,bind,Option.bind]
    split
    · rename_i full
      exact ⟨t,rfl,tInv,one,by omega,.inl (by omega)⟩
    · have later : ∀ k x, rest[k]? = some x →
          entries[x.2]? = some x.1 ∧ (t.filled+k) % entries.length = x.2 := by
        intro k x found
        rw [grows,Nat.add_assoc,Nat.add_comm 1]
        exact members (k+1) x found
      obtain ⟨u,round,uInv,log,le,stop⟩ := ih later tInv (by omega)
      refine ⟨u,round,uInv,logAppend inv tInv one log,le,?_⟩
      rw [List.length_cons]
      omega

theorem roundMembers {entries : List Entry} {s : Fill} (aligned : s.filled % entries.length = 0)
    (k : Nat) (x : Entry × Nat) (found : entries.zipIdx[k]? = some x) :
    entries[x.2]? = some x.1 ∧ (s.filled+k) % entries.length = x.2 := by
  rw [List.getElem?_zipIdx,Nat.zero_add,Option.map_eq_some_iff] at found
  obtain ⟨e,atEntry,rfl⟩ := found
  obtain ⟨inside,_⟩ := List.getElem?_eq_some_iff.mp atEntry
  refine ⟨atEntry,?_⟩
  rw [Nat.add_mod,aligned,Nat.zero_add,Nat.mod_mod,Nat.mod_eq_of_lt inside]

theorem fillLog {entries : List Entry} (nonempty : entries ≠ []) {s} (inv : Inv entries s)
    (bound : s.filled ≤ tableSize)
    (aligned : s.filled = tableSize ∨ s.filled % entries.length = 0) (fuel : Nat)
    (enough : tableSize-s.filled < fuel) :
    ∃ t, (Loop.run (fillStep entries) fuel s).join = some t.table ∧ Inv entries t ∧
      t.filled = tableSize ∧
      Log entries s t (Loop.logged (fillStep entries) (roundClaims entries.zipIdx) fuel s) := by
  induction fuel generalizing s with
  | zero => omega
  | succ fuel ih =>
    rcases Nat.eq_or_lt_of_le bound with full | room
    · have turn : fillStep entries s = .done (some s.table) := by
        simp only [fillStep,full,Nat.lt_irrefl,if_false]
      rw [Loop.runDone turn,Loop.loggedDone turn]
      exact ⟨s,rfl,inv,full,logNil entries s⟩
    · have aligned : s.filled % entries.length = 0 := by omega
      obtain ⟨t,round,tInv,log,le,stop⟩ := roundLog (roundMembers aligned) inv room
      have turn : fillStep entries s = .more t := by simp only [fillStep,room,if_true,round]
      have some : 0 < entries.length := List.length_pos_of_ne_nil nonempty
      rw [List.length_zipIdx] at stop
      have next : t.filled = tableSize ∨ t.filled % entries.length = 0 := by
        rcases stop with full | pass
        · exact .inl full
        · rw [pass,Nat.add_mod_right]
          exact .inr aligned
      obtain ⟨u,run,uInv,full,later⟩ := ih tInv le next (by omega)
      rw [Loop.runMore turn,Loop.loggedMore turn]
      exact ⟨u,run,uInv,full,logAppend inv tInv log later⟩

theorem populateLog {entries : List Entry} (nonempty : entries ≠ []) :
    ∃ t, populateTable entries = some t.table ∧ Inv entries t ∧ (claims entries).length = tableSize ∧
      Log entries (start entries) t (claims entries) := by
  obtain ⟨t,run,inv,full,log⟩ := fillLog nonempty (startInv entries) (Nat.zero_le _)
    (.inr (Nat.zero_mod _)) (tableSize+1) (by simp [start])
  refine ⟨t,run,inv,?_,log⟩
  have filled := log.filled
  rw [full] at filled
  exact (filled.trans (Nat.zero_add _)).symm

theorem claimTurns {entries : List Entry} (nonempty : entries ≠ []) :
    (claims entries).map Prod.fst = (List.range tableSize).map (· % entries.length) := by
  obtain ⟨t,_,_,size,log⟩ := populateLog nonempty
  rw [log.turns,size,List.range_eq_range']
  rfl

theorem claimSlots {entries : List Entry} (nonempty : entries ≠ []) :
    ((claims entries).map Prod.snd).Perm (List.range tableSize) := by
  obtain ⟨t,_,_,size,log⟩ := populateLog nonempty
  have within : ∀ c ∈ (claims entries).map Prod.snd, c ∈ List.range tableSize := by
    intro c mem
    obtain ⟨x,inside,rfl⟩ := List.mem_map.mp mem
    obtain ⟨lt,_⟩ := List.getElem?_eq_some_iff.mp (log.free x inside)
    rw [(startInv entries).size] at lt
    exact List.mem_range.mpr lt
  apply (log.distinct.subperm within).perm_of_length_le
  rw [List.length_map,size,List.length_range]

theorem claimOwners {entries : List Entry} (nonempty : entries ≠ []) {table}
    (ok : populateTable entries = some table) :
    ∀ x ∈ claims entries, ∃ e, entries[x.1]? = some e ∧ table[x.2]? = some e.backendIdx := by
  obtain ⟨t,run,_,_,log⟩ := populateLog nonempty
  cases Option.some.inj (run.symm.trans ok)
  exact log.owned

theorem claimCount {entries : List Entry} (nonempty : entries ≠ []) (j : Nat) :
    (claims entries).countP (fun x => decide (x.1 = j)) =
      TurnQuota.turns tableSize entries.length j := by
  have mapped : (claims entries).countP (fun x => decide (x.1 = j)) =
      ((claims entries).map Prod.fst).countP (fun i => decide (i = j)) := by
    rw [List.countP_map]
    rfl
  rw [mapped,claimTurns nonempty,List.countP_map]
  exact TurnQuota.countRange (fun t => t % entries.length = j) tableSize

def turnOwner (entries : List Entry) (t : Nat) : Nat :=
  ((entries[t % entries.length]?).map Entry.backendIdx).getD usizeMax

theorem populatePerm {entries : List Entry} (nonempty : entries ≠ []) {table}
    (ok : populateTable entries = some table) :
    table.Perm ((List.range tableSize).map (turnOwner entries)) := by
  obtain ⟨whole,run,size,_⟩ := populateComplete nonempty
  cases Option.some.inj (run.symm.trans ok)
  have listed : table = (List.range tableSize).map fun c => (table[c]?).getD usizeMax := by
    apply List.ext_getElem
    · rw [size,List.length_map,List.length_range]
    · intro c left right
      simp [List.getElem?_eq_getElem left]
  have turns : (claims entries).map (fun x => (table[x.2]?).getD usizeMax) =
      (List.range tableSize).map (turnOwner entries) := by
    have owners : (claims entries).map (fun x => (table[x.2]?).getD usizeMax) =
        ((claims entries).map Prod.fst).map
          fun i => ((entries[i]?).map Entry.backendIdx).getD usizeMax := by
      rw [List.map_map]
      apply List.map_congr_left
      intro x mem
      obtain ⟨e,atEntry,there⟩ := claimOwners nonempty ok x mem
      simp only [Function.comp,atEntry,there,Option.map_some]
    rw [owners,claimTurns nonempty,List.map_map]
    rfl
  rw [← turns]
  have slots := (claimSlots nonempty).map fun c => (table[c]?).getD usizeMax
  rw [List.map_map,← listed] at slots
  exact slots.symm

theorem tableCount {entries : List Entry} (nonempty : entries ≠ []) {table}
    (ok : populateTable entries = some table) (v : Nat) :
    table.count v = Nat.count (fun t => turnOwner entries t = v) tableSize := by
  rw [(populatePerm nonempty ok).count_eq,List.count,List.countP_map]
  exact TurnQuota.countRange (fun t => turnOwner entries t = v) tableSize

end UdpBalancer.MaglevTable
