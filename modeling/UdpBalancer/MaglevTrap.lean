import UdpBalancer.MaglevTable

/-! `Maglev::populate_table` with its machine checks made visible: a counter past
the table size, a `u64` computation that wraps and an index out of bounds all
stop the trapping fill. It never stops, and computes what the plain one does. -/
namespace UdpBalancer.MaglevTrap
open Backends (usizeMax)
open MaglevTable

def checkedSlot (e : Entry) (next : Nat) : Option Nat :=
  if next ≤ tableSize ∧ e.offset+next*e.skip < 2^64 then
    some ((e.offset+next*e.skip) % tableSize)
  else none

def checkedProbe (table : List Nat) (e : Entry) (next : Nat) : Loop.Turn Nat (Option Nat) :=
  match checkedSlot e next with
  | none => .done none
  | some c => match table[c]? with
    | none => .done none
    | some owner => if owner ≠ usizeMax then .more (next+1) else .done (some next)

def checkedClaim (s : Fill) (entryIdx : Nat) (e : Entry) : Option Fill := do
  let start ← s.next[entryIdx]?
  let next ← (Loop.run (checkedProbe s.table e) (tableSize+1) start).join
  let c ← checkedSlot e next
  if c < s.table.length ∧ next+1 ≤ tableSize then
    some ⟨s.table.set c e.backendIdx,s.next.set entryIdx (next+1),s.filled+1⟩
  else none

section
variable (claim : Fill → Nat → Entry → Option Fill)

def roundBy : List (Entry × Nat) → Fill → Option Fill
  | [], s => some s
  | (e,entryIdx)::rest, s => do
      let t ← claim s entryIdx e
      if tableSize ≤ t.filled then some t else roundBy rest t

def stepBy (entries : List Entry) (s : Fill) : Loop.Turn Fill (Option (List Nat)) :=
  if s.filled < tableSize then
    match roundBy claim entries.zipIdx s with
    | some t => .more t
    | none => .done none
  else .done (some s.table)

def populateBy (entries : List Entry) : Option (List Nat) :=
  (Loop.run (stepBy claim entries) (tableSize+1) (start entries)).join

end

theorem roundByClaim (rest : List (Entry × Nat)) (s : Fill) :
    roundBy claim rest s = fillRound rest s := by
  induction rest generalizing s with
  | nil => rfl
  | cons head rest ih => simp only [roundBy,fillRound,ih]

theorem populateByClaim (entries : List Entry) :
    populateBy claim entries = populateTable entries := by
  have same : stepBy claim entries = fillStep entries := by
    funext s
    have round := roundByClaim entries.zipIdx s
    cases outcome : fillRound entries.zipIdx s with
    | none => simp only [stepBy,fillStep,round,outcome]
    | some t => simp only [stepBy,fillStep,round,outcome]
  rw [populateBy,populateTable,same]

def checkedPopulate (entries : List Entry) : Option (List Nat) := populateBy checkedClaim entries

theorem checkedSlotExact (e : Entry) {next} (bound : next ≤ tableSize) :
    checkedSlot e next = some (slot e next) := by
  rw [checkedSlot,if_pos ⟨bound,slotSmall e bound⟩,slotExact e bound]

theorem checkedProbeExact (table : List Nat) (e : Entry) {next} (bound : next ≤ tableSize) :
    checkedProbe table e next = probeStep table e next := by
  simp only [checkedProbe,checkedSlotExact e bound]
  rfl

theorem checkedClaimExact {entries s i e} (inv : Inv entries s) (room : s.filled < tableSize)
    (atEntry : entries[i]? = some e) : checkedClaim s i e = claim s i e := by
  obtain ⟨t,n,j,ok,claimed⟩ := claimDefined inv room atEntry
  have bound := claimed.bound
  have search : ∀ m, n ≤ m → m ≤ j →
      (Free s.table e m → checkedProbe s.table e m = .done (some m)) ∧
        (¬ Free s.table e m → checkedProbe s.table e m = .more (m+1)) := by
    intro m _ high
    rw [checkedProbeExact s.table e (by omega)]
    exact probeSearch inv.size e m
  have found := Loop.searchWithin (f := id) search claimed.first (tableSize+1) (by omega)
  have inside : slot e j < s.table.length := by rw [inv.size]; exact slotLt e j
  simp only [id] at found
  rw [ok,claimed.result]
  simp only [checkedClaim,claimed.counter,found,checkedSlotExact e (Nat.le_of_lt bound),bind,
    Option.bind,Option.join_some,inside,Nat.succ_le_of_lt bound,and_self,if_true]

theorem roundExact {entries : List Entry} {rest : List (Entry × Nat)}
    (members : ∀ x ∈ rest, entries[x.2]? = some x.1) {s} (inv : Inv entries s)
    (room : s.filled < tableSize) : roundBy checkedClaim rest s = fillRound rest s := by
  induction rest generalizing s with
  | nil => rfl
  | cons head rest ih =>
    obtain ⟨e,i⟩ := head
    have atEntry := members (e,i) List.mem_cons_self
    obtain ⟨t,n,j,ok,claimed⟩ := claimDefined inv room atEntry
    simp only [roundBy,fillRound,checkedClaimExact inv room atEntry,ok,bind,Option.bind]
    split
    · rfl
    · exact ih (fun x mem => members x (List.mem_cons_of_mem _ mem))
        (claimInv inv atEntry claimed) (by omega)

theorem stepExact {entries : List Entry} {s} (inv : Inv entries s) :
    stepBy checkedClaim entries s = fillStep entries s := by
  rcases Nat.lt_or_ge s.filled tableSize with room | full
  · have round := roundExact (zipIdxMembers entries) inv room
    cases outcome : fillRound entries.zipIdx s with
    | none => simp only [stepBy,fillStep,round,outcome]
    | some t => simp only [stepBy,fillStep,round,outcome]
  · simp only [stepBy,fillStep,not_lt.mpr full,if_false]

theorem stepInv {entries : List Entry} {s t} (inv : Inv entries s)
    (goes : fillStep entries s = .more t) : Inv entries t := by
  unfold fillStep at goes
  split at goes
  · rename_i room
    obtain ⟨u,round,kept,_⟩ := roundDefined (zipIdxMembers entries) inv room
    rw [round] at goes
    cases goes
    exact kept
  · contradiction

theorem checkedPopulateExact (entries : List Entry) :
    checkedPopulate entries = populateTable entries := by
  rw [checkedPopulate,populateBy,populateTable,Loop.runAgree (Inv entries) (fun s => stepExact)
    (fun s t => stepInv) (startInv entries)]

/- Population ends without a trap in a full table of the entries' indices. -/
theorem populateSafe {entries : List Entry} (nonempty : entries ≠ []) :
    ∃ table, checkedPopulate entries = some table ∧ populateTable entries = some table ∧
      table.length = tableSize ∧
      ∀ v ∈ table, v ≠ usizeMax ∧ ∃ e ∈ entries, v = e.backendIdx := by
  obtain ⟨table,ok,size,owners⟩ := populateComplete nonempty
  refine ⟨table,(checkedPopulateExact entries).trans ok,ok,size,fun v mem => ?_⟩
  obtain ⟨e,inside,same⟩ := owners v mem
  exact ⟨same ▸ Nat.ne_of_lt e.indexed,e,inside,same⟩

def twin : Entry where
  backendIdx := 0
  offset := 65536
  skip := 65536
  indexed := by decide
  offsetLt := by decide
  skipPos := by decide
  skipLt := by decide

theorem twinsSafe : ∃ table, checkedPopulate [twin,twin] = some table ∧
    populateTable [twin,twin] = some table ∧ table.length = 65537 ∧
    ∀ v ∈ table, v ≠ usizeMax ∧ ∃ e ∈ [twin,twin], v = e.backendIdx :=
  populateSafe (List.cons_ne_nil twin [twin])

end UdpBalancer.MaglevTrap
