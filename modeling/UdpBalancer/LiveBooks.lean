import UdpBalancer.BooksBalance
import UdpBalancer.Writers

/-! The books of a node while it works. Every worker counts the packet it has in hand one
statement at a time, and all workers, with whoever reads the registry, do so at once. -/
namespace UdpBalancer.NodeBooks
open Backends Forwarding App Ledger Writers
open Mirroring (Copy)

inductive Point where
  | packetsReceived (addr : String)
  | bytesReceived (addr : String)
  | packetsSent (addr : String)
  | bytesSent (addr : String)
  | backendSent (label : Label)
  | backendBytes (label : Label)
  | backendFailed (label : Label)
  | responses (label : Label)
  | responseBytes (label : Label)
  | mirrorSent (label : Label)
  | mirrorBytes (label : Label)
  | mirrorFailed (label : Label)
  deriving DecidableEq

structure Entry where
  point : Point
  amount : Nat

def Books.figure (books : Books) : Point → Nat
  | .packetsReceived addr => books.packetsReceived addr
  | .bytesReceived addr => books.bytesReceived addr
  | .packetsSent addr => books.packetsSent addr
  | .bytesSent addr => books.bytesSent addr
  | .backendSent label => books.balancer.packetsSent label
  | .backendBytes label => books.balancer.bytesSent label
  | .backendFailed label => books.balancer.packetsFailed label
  | .responses label => books.balancer.responsesReceived label
  | .responseBytes label => books.balancer.responseBytesReceived label
  | .mirrorSent label => books.mirror.packetsSent label
  | .mirrorBytes label => books.mirror.bytesSent label
  | .mirrorFailed label => books.mirror.packetsFailed label

def Entry.post (books : Books) : Entry → Books
  | ⟨.packetsReceived addr,n⟩ =>
      {books with packetsReceived := inc books.packetsReceived addr n}
  | ⟨.bytesReceived addr,n⟩ => {books with bytesReceived := inc books.bytesReceived addr n}
  | ⟨.packetsSent addr,n⟩ => {books with packetsSent := inc books.packetsSent addr n}
  | ⟨.bytesSent addr,n⟩ => {books with bytesSent := inc books.bytesSent addr n}
  | ⟨.backendSent label,n⟩ => {books with balancer :=
      {books.balancer with packetsSent := incBy books.balancer.packetsSent label n}}
  | ⟨.backendBytes label,n⟩ => {books with balancer :=
      {books.balancer with bytesSent := incBy books.balancer.bytesSent label n}}
  | ⟨.backendFailed label,n⟩ => {books with balancer :=
      {books.balancer with packetsFailed := incBy books.balancer.packetsFailed label n}}
  | ⟨.responses label,n⟩ => {books with balancer :=
      {books.balancer with responsesReceived := incBy books.balancer.responsesReceived label n}}
  | ⟨.responseBytes label,n⟩ => {books with balancer := {books.balancer with
      responseBytesReceived := incBy books.balancer.responseBytesReceived label n}}
  | ⟨.mirrorSent label,n⟩ => {books with mirror :=
      {books.mirror with packetsSent := incBy books.mirror.packetsSent label n}}
  | ⟨.mirrorBytes label,n⟩ => {books with mirror :=
      {books.mirror with bytesSent := incBy books.mirror.bytesSent label n}}
  | ⟨.mirrorFailed label,n⟩ => {books with mirror :=
      {books.mirror with packetsFailed := incBy books.mirror.packetsFailed label n}}

/- The counting statements that a packet passes, in their order. -/
def Receipt.opening (r : Receipt) : List Entry :=
  [⟨.packetsReceived r.listener,1⟩,⟨.bytesReceived r.listener,r.length⟩]

def Fate.sends : Fate → List Entry
  | .refused | .unsent _ => []
  | .failed label => [⟨.backendFailed label,1⟩]
  | .sent label bytes _ => [⟨.backendSent label,1⟩,⟨.backendBytes label,bytes⟩]

def Fate.answers : Fate → List Entry
  | .sent label _ (some buf) => [⟨.responses label,1⟩,⟨.responseBytes label,buf.length⟩]
  | _ => []

def Receipt.sends (r : Receipt) : List Entry := r.fate.elim [] Fate.sends

def Receipt.answers (r : Receipt) : List Entry := r.fate.elim [] Fate.answers

def Receipt.deliveries (r : Receipt) : List Entry :=
  match r.response with
  | some response => if r.delivered then
      [⟨.packetsSent r.listener,1⟩,⟨.bytesSent r.listener,response.length⟩] else []
  | none => []

def copyEntries : Label × Copy → List Entry
  | (_,.skipped) => []
  | (label,.failed) => [⟨.mirrorFailed label,1⟩]
  | (label,.sent bytes) => [⟨.mirrorSent label,1⟩,⟨.mirrorBytes label,bytes⟩]

def Receipt.entries (r : Receipt) : List Entry :=
  r.opening ++ (r.sends ++ (r.answers ++ (r.deliveries ++ r.copies.flatMap copyEntries)))

theorem openingPosts (r : Receipt) (books : Books) :
    r.opening.foldl Entry.post books = books.countReceived r.listener r.length := rfl

theorem fatePosts (r : Receipt) (books : Books) : (r.sends ++ r.answers).foldl Entry.post books =
    {books with balancer := r.fate.elim books.balancer (Fate.post books.balancer)} := by
  unfold Receipt.sends Receipt.answers
  cases r.fate with
  | none => exact rfl
  | some f =>
    cases f with
    | refused => exact rfl
    | unsent label => exact rfl
    | failed label => exact rfl
    | sent label bytes response => cases response with
      | none => exact rfl
      | some buf => exact rfl

theorem deliveriesPost (r : Receipt) (books : Books) :
    r.deliveries.foldl Entry.post books = match r.response with
      | some response => if r.delivered then books.countAnswered r.listener response.length
          else books
      | none => books := by
  unfold Receipt.deliveries
  cases r.response with
  | none => exact rfl
  | some response => cases r.delivered <;> exact rfl

theorem copiesPost (copies : List (Label × Copy)) (books : Books) :
    (copies.flatMap copyEntries).foldl Entry.post books = postCopies copies books := by
  induction copies generalizing books with
  | nil => exact rfl
  | cons entry rest ih =>
    rw [List.flatMap_cons,List.foldl_append,ih]
    obtain ⟨label,copy⟩ := entry
    cases copy <;> exact rfl

theorem entriesPost (r : Receipt) (books : Books) :
    r.entries.foldl Entry.post books = Receipt.post books r := by
  have grouped : r.entries = r.opening ++ ((r.sends ++ r.answers) ++
      (r.deliveries ++ r.copies.flatMap copyEntries)) := by
    rw [Receipt.entries,List.append_assoc r.sends]
  rw [grouped,List.foldl_append,List.foldl_append,List.foldl_append,openingPosts,fatePosts,
    deliveriesPost,copiesPost]
  exact rfl

def counts (point : Point) (entry : Entry) : Nat := if entry.point = point then entry.amount else 0

theorem pointRaises (point : Point) :
    Raises Entry.post (fun books => books.figure point) (counts point) := by
  intro books entry
  obtain ⟨at_,n⟩ := entry
  cases at_ with
  | _ key => cases point <;> simp [counts,Entry.post,Books.figure,inc,incBy,updateAmount]

theorem booksExt {one two : Books} (same : ∀ point, one.figure point = two.figure point) :
    one = two := by
  obtain ⟨_,_,_,_,⟨_,_,_,_,_⟩,⟨_,_,_⟩⟩ := one
  obtain ⟨_,_,_,_,⟨_,_,_,_,_⟩,⟨_,_,_⟩⟩ := two
  congr
  · exact funext fun addr => same (.packetsReceived addr)
  · exact funext fun addr => same (.bytesReceived addr)
  · exact funext fun addr => same (.packetsSent addr)
  · exact funext fun addr => same (.bytesSent addr)
  · exact funext fun label => same (.backendSent label)
  · exact funext fun label => same (.backendBytes label)
  · exact funext fun label => same (.backendFailed label)
  · exact funext fun label => same (.responses label)
  · exact funext fun label => same (.responseBytes label)
  · exact funext fun label => same (.mirrorSent label)
  · exact funext fun label => same (.mirrorBytes label)
  · exact funext fun label => same (.mirrorFailed label)

theorem entriesCount {figure : Books → Nat} {amount : Entry → Nat} {whole : Receipt → Nat}
    (raises : Raises Entry.post figure amount) (posts : Raises Receipt.post figure whole)
    (r : Receipt) : total amount r.entries = whole r := by
  have piecewise := raisesTotal raises r.entries blank
  rw [entriesPost,posts] at piecewise
  exact (Nat.add_left_cancel piecewise).symm

variable {ε : Type} {node : List Listener}

def tried (node : List Listener) (addr : String) (books : Books) : Nat :=
  ∑ label ∈ labelsAt node addr,
    (books.balancer.packetsSent label+books.balancer.packetsFailed label)

def answeredAt (node : List Listener) (addr : String) (books : Books) : Nat :=
  ∑ label ∈ labelsAt node addr, books.balancer.responsesReceived label

def answeredBytes (node : List Listener) (addr : String) (books : Books) : Nat :=
  ∑ label ∈ labelsAt node addr, books.balancer.responseBytesReceived label

def triedCount (node : List Listener) (addr : String) (entry : Entry) : Nat :=
  ∑ label ∈ labelsAt node addr,
    (counts (.backendSent label) entry+counts (.backendFailed label) entry)

def answeredCount (node : List Listener) (addr : String) (entry : Entry) : Nat :=
  ∑ label ∈ labelsAt node addr, counts (.responses label) entry

def answeredBytesCount (node : List Listener) (addr : String) (entry : Entry) : Nat :=
  ∑ label ∈ labelsAt node addr, counts (.responseBytes label) entry

theorem triedPoints (node : List Listener) (addr : String) :
    Raises Entry.post (tried node addr) (triedCount node addr) :=
  raisesSum (fun label => raisesAdd (pointRaises (.backendSent label))
    (pointRaises (.backendFailed label))) _

theorem answeredPoints (node : List Listener) (addr : String) :
    Raises Entry.post (answeredAt node addr) (answeredCount node addr) :=
  raisesSum (fun label => pointRaises (.responses label)) _

theorem answeredBytesPoints (node : List Listener) (addr : String) :
    Raises Entry.post (answeredBytes node addr) (answeredBytesCount node addr) :=
  raisesSum (fun label => pointRaises (.responseBytes label)) _

section issued
variable {l : Listener} {r : Receipt} (inside : l ∈ node) (issued : Issued l r)
include inside issued

theorem triedTotal (addr : String) : total (triedCount node addr) r.entries =
    if r.listener = addr ∧ r.tried.isSome = true then 1 else 0 := by
  rw [entriesCount (triedPoints node addr) (raisesSum triedRaises _) r,sumOwner]
  cases tried : r.tried with
  | none => simp
  | some label =>
    have here := triedHere inside issued tried addr
    simp [here]

theorem answeredTotal (addr : String) : total (answeredCount node addr) r.entries =
    if r.listener = addr ∧ r.response.isSome = true then 1 else 0 := by
  rw [entriesCount (answeredPoints node addr) (raisesSum responsesRaises _) r,sumOwner]
  simp only [answeredHere inside issued addr]

theorem answeredBytesTotal (addr : String) : total (answeredBytesCount node addr) r.entries =
    if r.listener = addr ∧ r.response.isSome = true then r.answer else 0 := by
  rw [entriesCount (answeredBytesPoints node addr) (raisesSum responseBytesRaise _) r,sumOwner]
  simp only [answeredHere inside issued addr]

end issued

def Point.stage : Point → Nat
  | .packetsReceived _ | .bytesReceived _ => 0
  | .backendSent _ | .backendBytes _ | .backendFailed _ => 1
  | .responses _ | .responseBytes _ => 2
  | .packetsSent _ | .bytesSent _ => 3
  | .mirrorSent _ | .mirrorBytes _ | .mirrorFailed _ => 4

def Within (low high : Nat) (entries : List Entry) : Prop :=
  ∀ entry ∈ entries, low ≤ entry.point.stage ∧ entry.point.stage ≤ high

theorem withinAppend {low high : Nat} {one two : List Entry} (first : Within low high one)
    (second : Within low high two) : Within low high (one ++ two) := by
  intro entry mem
  rcases List.mem_append.mp mem with here | there
  · exact first entry here
  · exact second entry there

theorem withinWider {low high less more : Nat} {entries : List Entry}
    (within : Within low high entries) (below : less ≤ low) (above : high ≤ more) :
    Within less more entries :=
  fun entry mem => ⟨below.trans (within entry mem).1,(within entry mem).2.trans above⟩

theorem openingWithin (r : Receipt) : Within 0 0 r.opening := by
  intro entry mem
  simp only [Receipt.opening,List.mem_cons,List.not_mem_nil,or_false] at mem
  rcases mem with rfl | rfl <;> exact ⟨Nat.le_refl _,Nat.le_refl _⟩

theorem sendsWithin (r : Receipt) : Within 1 1 r.sends := by
  intro entry mem
  obtain ⟨_,_,fate,_,_⟩ := r
  cases fate with
  | none => cases mem
  | some f =>
    cases f with
    | refused => cases mem
    | unsent label => cases mem
    | failed label =>
      cases List.mem_singleton.mp mem
      exact ⟨Nat.le_refl _,Nat.le_refl _⟩
    | sent label bytes response =>
      simp only [Receipt.sends,Option.elim_some,Fate.sends,List.mem_cons,List.not_mem_nil,
        or_false] at mem
      rcases mem with rfl | rfl <;> exact ⟨Nat.le_refl _,Nat.le_refl _⟩

theorem answersWithin (r : Receipt) : Within 2 2 r.answers := by
  intro entry mem
  obtain ⟨_,_,fate,_,_⟩ := r
  cases fate with
  | none => cases mem
  | some f =>
    cases f with
    | refused => cases mem
    | unsent label => cases mem
    | failed label => cases mem
    | sent label bytes response =>
      cases response with
      | none => cases mem
      | some buf =>
        simp only [Receipt.answers,Option.elim_some,Fate.answers,List.mem_cons,List.not_mem_nil,
          or_false] at mem
        rcases mem with rfl | rfl <;> exact ⟨Nat.le_refl _,Nat.le_refl _⟩

theorem deliveriesWithin (r : Receipt) : Within 3 3 r.deliveries := by
  intro entry mem
  unfold Receipt.deliveries at mem
  split at mem
  · split at mem
    · simp only [List.mem_cons,List.not_mem_nil,or_false] at mem
      rcases mem with rfl | rfl <;> exact ⟨Nat.le_refl _,Nat.le_refl _⟩
    · cases mem
  · cases mem

theorem copiesWithin (copies : List (Label × Copy)) : Within 4 4 (copies.flatMap copyEntries) := by
  intro entry mem
  obtain ⟨⟨label,copy⟩,_,mem⟩ := List.mem_flatMap.mp mem
  cases copy with
  | skipped => cases mem
  | failed =>
    cases List.mem_singleton.mp mem
    exact ⟨Nat.le_refl _,Nat.le_refl _⟩
  | sent bytes =>
    simp only [copyEntries,List.mem_cons,List.not_mem_nil,or_false] at mem
    rcases mem with rfl | rfl <;> exact ⟨Nat.le_refl _,Nat.le_refl _⟩

theorem countsElsewhere {point : Point} {entry : Entry}
    (apart : entry.point.stage ≠ point.stage) : counts point entry = 0 :=
  if_neg fun same => apart (congrArg Point.stage same)

theorem entriesStages (r : Receipt) {s : Nat} (stage : s ≤ 2) :
    ∃ early late, r.entries = early ++ late ∧ Within 0 s early ∧ Within (s+1) 4 late := by
  have last := withinAppend (withinWider (deliveriesWithin r) (Nat.le_refl 3) (Nat.le_succ 3))
    (withinWider (copiesWithin r.copies) (Nat.le_succ 3) (Nat.le_refl 4))
  have third := withinAppend (withinWider (answersWithin r) (Nat.le_refl 2) (by decide : 2 ≤ 4))
    (withinWider last (Nat.le_succ 2) (Nat.le_refl 4))
  have second := withinAppend (withinWider (sendsWithin r) (Nat.le_refl 1) (by decide : 1 ≤ 4))
    (withinWider third (Nat.le_succ 1) (Nat.le_refl 4))
  have front := withinAppend (withinWider (openingWithin r) (Nat.le_refl 0) (Nat.le_succ 0))
    (withinWider (sendsWithin r) (Nat.zero_le 1) (Nat.le_refl 1))
  have middle := withinAppend (withinWider front (Nat.le_refl 0) (Nat.le_succ 1))
    (withinWider (answersWithin r) (Nat.zero_le 2) (Nat.le_refl 2))
  obtain rfl | rfl | rfl : s = 0 ∨ s = 1 ∨ s = 2 := by omega
  · exact ⟨_,_,rfl,openingWithin r,second⟩
  · exact ⟨_,_,(List.append_assoc ..).symm,front,third⟩
  · refine ⟨_,_,?_,middle,last⟩
    rw [Receipt.entries,List.append_assoc,List.append_assoc]

structure Crew (node : List Listener) where
  size : Nat
  owner : Fin size → Fin node.length

def work (event : NodeEvent ε node) : List Entry := event.2.receipt.elim [] Receipt.entries

def office (ε : Type) (crew : Crew node) : Office crew.size Books Entry (NodeEvent ε node) where
  start := blank
  post := Entry.post
  entries := work
  takes k event := decide (event.1 = crew.owner k)

abbrev Moment (ε : Type) (crew : Crew node) :=
  World crew.size Books Entry (NodeEvent ε node)

variable {crew : Crew node}

def busyAt (addr : String) (w : Moment ε crew) : Nat :=
  busy (fun k => decide ((node.get (crew.owner k)).addr = addr)) w

theorem workPosts (events : List (NodeEvent ε node)) (books : Books) :
    (events.flatMap work).foldl Entry.post books = (receipts events).foldl Receipt.post books := by
  induction events generalizing books with
  | nil => exact rfl
  | cons event rest ih =>
    rw [List.flatMap_cons,List.foldl_append,receipts,List.filterMap_cons,work]
    cases event.2.receipt with
    | none => exact ih books
    | some r =>
      rw [Option.elim_some,entriesPost]
      exact ih _

theorem workIssued {event : NodeEvent ε node} {r : Receipt} (given : event.2.receipt = some r) :
    Issued (node.get event.1) r := by
  obtain ⟨i,event⟩ := event
  cases event with
  | packet a => exact Option.some.inj given ▸ receiptIssued a
  | empty => contradiction
  | receiveError => contradiction

theorem workCovers {left right : Entry → Nat} {s : Nat} (stage : s ≤ 2)
    (lefts : ∀ entry, s < entry.point.stage → left entry = 0)
    (rights : ∀ entry, entry.point.stage ≤ s → right entry = 0)
    (enough : ∀ l ∈ node, ∀ r, Issued l r → total right r.entries ≤ total left r.entries)
    (event : NodeEvent ε node) : Covers left right 0 (work event) := by
  unfold work
  cases given : event.2.receipt with
  | none => exact trivial
  | some r =>
    have bound := enough _ (List.get_mem _ event.1) r (workIssued given)
    obtain ⟨early,late,split,before,after⟩ := entriesStages r stage
    rw [split] at bound
    rw [Option.elim_some,split]
    exact coversStages (fun entry mem => rights entry (before entry mem).2)
      (fun entry mem => lefts entry (after entry mem).1) bound

theorem triedCovers (addr : String) (event : NodeEvent ε node) :
    Covers (counts (.packetsReceived addr)) (triedCount node addr) 0 (work event) := by
  refine workCovers (Nat.zero_le 2) (fun entry later => ?_) (fun entry early => ?_)
    (fun l inside r issued => ?_) event
  · exact countsElsewhere (Nat.ne_of_gt later)
  · have stage := Nat.le_zero.mp early
    refine Finset.sum_eq_zero fun label _ => ?_
    have sent : counts (.backendSent label) entry = 0 := countsElsewhere (stage ▸ Nat.zero_ne_one)
    have failed : counts (.backendFailed label) entry = 0 :=
      countsElsewhere (stage ▸ Nat.zero_ne_one)
    omega
  · rw [triedTotal inside issued,entriesCount (pointRaises (.packetsReceived addr))
      (receivedRaises addr) r]
    split
    · next both => rw [if_pos both.1]
    · exact Nat.zero_le _

def Fate.sentTo : Fate → Option Label
  | .sent label _ _ => some label
  | _ => none

theorem sentToRaises (label : Label) : Raises Receipt.post
    (fun books => books.balancer.packetsSent label)
    fun r => if r.fate.bind Fate.sentTo = some label then 1 else 0 := by
  intro books r
  obtain ⟨_,_,fate,_,_⟩ := r
  simp only [postBalancer]
  cases fate with
  | none => exact rfl
  | some f =>
    cases f with
    | refused => exact rfl
    | unsent key => exact rfl
    | failed key => exact rfl
    | sent key bytes response =>
      simp only [Option.elim_some,Option.bind_some,Fate.sentTo,Option.some.injEq]
      cases response with
      | none => exact updateAmount ..
      | some buf => exact updateAmount ..

theorem answeredSent {r : Receipt} {label : Label} (answered : r.answered = some label) :
    r.fate.bind Fate.sentTo = some label := by
  unfold Receipt.answered at answered
  split at answered
  · next responded =>
    obtain ⟨_,_,fate,_,_⟩ := r
    cases fate with
    | none => cases answered
    | some f =>
      cases f with
      | refused => cases answered
      | unsent key => cases answered
      | failed key => cases responded
      | sent key bytes response => exact answered
  · contradiction

theorem answersCover (label : Label) (event : NodeEvent ε node) :
    Covers (counts (.backendSent label)) (counts (.responses label)) 0 (work event) := by
  refine workCovers (Nat.le_succ 1) (fun entry later => ?_) (fun entry early => ?_)
    (fun l inside r issued => ?_) event
  · exact countsElsewhere (Nat.ne_of_gt later)
  · exact countsElsewhere (Nat.ne_of_lt (Nat.lt_succ_of_le early))
  · rw [entriesCount (pointRaises (.responses label)) (responsesRaises label) r,
      entriesCount (pointRaises (.backendSent label)) (sentToRaises label) r]
    split
    · next answered => rw [if_pos (answeredSent answered)]
    · exact Nat.zero_le _

theorem deliveredLe (r : Receipt) (addr : String) (n : Nat) :
    (if r.listener = addr ∧ r.response.isSome = true ∧ r.delivered = true then n else 0) ≤
      if r.listener = addr ∧ r.response.isSome = true then n else 0 := by
  split
  · next sent => rw [if_pos ⟨sent.1,sent.2.1⟩]
  · exact Nat.zero_le _

theorem deliveriesCover (addr : String) (event : NodeEvent ε node) :
    Covers (answeredCount node addr) (counts (.packetsSent addr)) 0 (work event) := by
  refine workCovers (Nat.le_refl 2) (fun entry later => ?_) (fun entry early => ?_)
    (fun l inside r issued => ?_) event
  · exact Finset.sum_eq_zero fun label _ => countsElsewhere (Nat.ne_of_gt later)
  · exact countsElsewhere (Nat.ne_of_lt (Nat.lt_succ_of_le early))
  · rw [answeredTotal inside issued,entriesCount (pointRaises (.packetsSent addr))
      (sentRaises addr) r]
    exact deliveredLe r addr 1

theorem deliveredBytesCover (addr : String) (event : NodeEvent ε node) :
    Covers (answeredBytesCount node addr) (counts (.bytesSent addr)) 0 (work event) := by
  refine workCovers (Nat.le_refl 2) (fun entry later => ?_) (fun entry early => ?_)
    (fun l inside r issued => ?_) event
  · exact Finset.sum_eq_zero fun label _ => countsElsewhere (Nat.ne_of_gt later)
  · exact countsElsewhere (Nat.ne_of_lt (Nat.lt_succ_of_le early))
  · rw [answeredBytesTotal inside issued,entriesCount (pointRaises (.bytesSent addr))
      (sentBytesRaise addr) r]
    exact deliveredLe r addr r.answer

structure Live (crew : Crew node) (w : Moment ε crew) (addr : String) : Prop where
  tried : tried node addr w.ledger ≤ w.ledger.packetsReceived addr
  accounted : w.ledger.packetsReceived addr ≤ NodeBooks.tried node addr w.ledger+
    (received addr w.begun).countP Receipt.lost+busyAt addr w
  answered : ∀ label, w.ledger.balancer.responsesReceived label ≤
    w.ledger.balancer.packetsSent label
  delivered : w.ledger.packetsSent addr ≤ answeredAt node addr w.ledger
  undelivered : answeredAt node addr w.ledger ≤ w.ledger.packetsSent addr+
    (received addr w.begun).countP Receipt.undelivered+busyAt addr w
  deliveredBytes : w.ledger.bytesSent addr ≤ answeredBytes node addr w.ledger

theorem workOnce {amount : Entry → Nat} {addr : String}
    (once : ∀ l ∈ node, ∀ r, Issued l r →
      total amount r.entries ≤ if r.listener = addr then 1 else 0)
    (k : Fin crew.size) (event : NodeEvent ε node) (takes : (office ε crew).takes k event = true) :
    total amount (work event) ≤
      if decide ((node.get (crew.owner k)).addr = addr) = true then 1 else 0 := by
  unfold work
  have mine : event.1 = crew.owner k := of_decide_eq_true takes
  cases given : event.2.receipt with
  | none => exact Nat.zero_le _
  | some r =>
    have issued := workIssued given
    have bound := once _ (List.get_mem _ event.1) r issued
    rw [issued.listener,mine] at bound
    simpa only [Option.elim_some,decide_eq_true_eq] using bound

theorem live {w : Moment ε crew} (reach : Transition.Reachable (system (office ε crew)) w)
    (addr : String) : Live crew w addr := by
  have figures : ∀ {figure : Books → Nat} {amount : Entry → Nat},
      Raises Entry.post figure amount → figure w.ledger+total amount (pending w) =
        figure ((receipts w.begun).foldl Receipt.post blank) := by
    intro figure amount raises
    rw [← workPosts,raisesTotal raises]
    exact figureSplits (o := office ε crew) raises reach
  have balanced := booksBalanced w.begun addr
  have leftTried : total (triedCount node addr) (pending w) ≤ busyAt addr w := by
    refine pendingBusy (o := office ε crew) (workOnce fun l inside r issued => ?_) reach
    rw [triedTotal inside issued]
    split
    · next both => rw [if_pos both.1]
    · exact Nat.zero_le _
  have leftAnswered : total (counts (.packetsSent addr)) (pending w) ≤ busyAt addr w := by
    refine pendingBusy (o := office ε crew) (workOnce fun l inside r issued => ?_) reach
    rw [entriesCount (pointRaises (.packetsSent addr)) (sentRaises addr) r]
    split
    · next sent => rw [if_pos sent.1]
    · exact Nat.zero_le _
  have receivedNow := figures (pointRaises (.packetsReceived addr))
  have triedNow := figures (triedPoints node addr)
  have answeredNow := figures (answeredPoints node addr)
  have sentNow := figures (pointRaises (.packetsSent addr))
  have forwarded := balanced.forwarded
  have responded := balanced.answered
  exact {
    tried := staysAhead (o := office ε crew) (pointRaises (.packetsReceived addr))
      (triedPoints node addr) (triedCovers addr) (by simp [office,tried,blank,zero]) reach
    accounted := by
      simp only [Books.figure,NodeBooks.tried] at receivedNow triedNow ⊢
      omega
    answered := fun label => staysAhead (o := office ε crew) (pointRaises (.backendSent label))
      (pointRaises (.responses label)) (answersCover label) (Nat.le_refl _) reach
    delivered := staysAhead (o := office ε crew) (answeredPoints node addr)
      (pointRaises (.packetsSent addr)) (deliveriesCover addr) (Nat.zero_le _) reach
    undelivered := by
      simp only [Books.figure,answeredAt] at answeredNow sentNow ⊢
      omega
    deliveredBytes := staysAhead (o := office ε crew) (answeredBytesPoints node addr)
      (pointRaises (.bytesSent addr)) (deliveredBytesCover addr) (Nat.zero_le _) reach }

/- At every moment, whatever the workers do at once: with what those in the middle of a
packet have still to count, the books are those of the same packets one after the other;
and read as they are, each figure is behind the one it is a part of, by no more than
was lost and those workers. -/
theorem booksLive {w : Moment ε crew} (reach : Transition.Reachable (system (office ε crew)) w) :
    ∃ books, run w.begun blank = some books ∧
      (pending w).foldl Entry.post w.ledger = books ∧ ∀ addr, Live crew w addr := by
  refine ⟨_,runPosts w.begun blank,booksExt fun point => ?_,live reach⟩
  rw [← workPosts]
  exact pendingPosts (o := office ε crew) (pointRaises point) reach

def collector : Listener where
  address := localhost 2055
  addr := "127.0.0.1:2055"
  balancer := some mixed
  mirror := none
  balancerAddr _ set := Option.some.inj set ▸ rfl
  mirrorAddr _ set := nomatch set

def answeredCall : Call Unit mixed :=
  {fourBytes ⟨0,by decide⟩ (.ok ()) with recv := some (.ok [9])}

theorem workingWhole (buf : Bytes) (addr : SocketAddr) (n : Nat)
    (sent : working.sendTo buf addr = .ok n) : n = buf.length :=
  (Except.ok.inj sent).symm

def exported : Arrival Unit collector where
  srcAddr := answeredCall.srcAddr
  payload := answeredCall.payload
  nonempty := answeredCall.nonempty
  call _ set := Option.some.inj set ▸ ⟨answeredCall,rfl,rfl,rfl⟩
  reply := .ok ()
  envs _ := ⟨answeredCall.draw,working,answeredCall.whole,workingWhole,answeredCall.rawWhole⟩

def pair : Crew [collector] := ⟨2,fun _ => ⟨0,by decide⟩⟩

def first : Fin pair.size := ⟨0,by decide⟩

def second : Fin pair.size := ⟨1,by decide⟩

def overtaking : List (Writers.Label pair.size (NodeEvent Unit [collector])) :=
  [.begin first ⟨⟨0,by decide⟩,.packet exported⟩,.begin second ⟨⟨0,by decide⟩,.packet exported⟩,
    .post first] ++ List.replicate 8 (.post second)

def overtaken : Option (Moment Unit pair) :=
  overtaking.foldlM (step (office Unit pair)) (.new (office Unit pair))

theorem overtakingCounts : overtaken.map (fun w =>
    (w.ledger.packetsReceived "127.0.0.1:2055",
      w.ledger.packetsSent "127.0.0.1:2055",(pending w).length)) = some (2,1,7) := by
  decide +kernel

theorem overtakingLive : ∃ w, overtaken = some w ∧
    w.ledger.packetsReceived "127.0.0.1:2055" = 2 ∧ (pending w).length = 7 ∧
    ∃ books, run w.begun blank = some books ∧ (pending w).foldl Entry.post w.ledger = books ∧
      ∀ addr, Live pair w addr := by
  obtain ⟨w,ran,counted⟩ := Option.map_eq_some_iff.mp overtakingCounts
  obtain ⟨received,counted⟩ := Prod.mk.inj counted
  have reach := Transition.runReachable (.init (S := system (office Unit pair)) rfl) ran
  exact ⟨w,ran,received,(Prod.mk.inj counted).2,booksLive reach⟩

end UdpBalancer.NodeBooks
