import UdpBalancer.Ledger
import UdpBalancer.NodeBooks

/-! The books of a node balance: every packet a listener counts as received is counted
again as sent or failed under one backend or is one that the counters lose, and every
mirror target accounts for every packet of its listener. -/
namespace UdpBalancer.NodeBooks
open Backends Forwarding App Ledger
open Mirroring (Copy Env copied copies)

variable {ε : Type} {l : Listener}

def Fate.tried : Fate → Option Label
  | .failed label => some label
  | .sent label _ _ => some label
  | _ => none

def Fate.label : Fate → Option Label
  | .refused => none
  | .unsent label => some label
  | .failed label => some label
  | .sent label _ _ => some label

def Receipt.tried (r : Receipt) : Option Label := r.fate.bind Fate.tried

def Receipt.answered (r : Receipt) : Option Label := if r.response.isSome then r.tried else none

def Receipt.answer (r : Receipt) : Nat := (r.response.getD []).length

def Receipt.lost (r : Receipt) : Bool := r.tried.isNone

def Receipt.undelivered (r : Receipt) : Bool := r.response.isSome && !r.delivered

theorem updateAmount {κ : Type} [DecidableEq κ] (series : κ → Nat) (key other : κ) (n : Nat) :
    Function.update series key (series key+n) other =
      series other+if key = other then n else 0 := by
  by_cases same : key = other
  · subst same
    rw [Function.update_self,if_pos rfl]
  · rw [Function.update_of_ne (Ne.symm same),if_neg same,Nat.add_zero]

theorem fateKeeps (addr : String) (fate : Option Fate) (delivered : Bool) (books : Books) :
    (postFate addr fate delivered books).packetsReceived = books.packetsReceived ∧
      (postFate addr fate delivered books).bytesReceived = books.bytesReceived ∧
      (postFate addr fate delivered books).mirror = books.mirror ∧
      (postFate addr fate delivered books).balancer =
        fate.elim books.balancer (Fate.post books.balancer) := by
  unfold postFate
  cases fate.bind Fate.response with
  | none => exact ⟨rfl,rfl,rfl,rfl⟩
  | some response =>
    cases delivered with
    | true => exact ⟨rfl,rfl,rfl,rfl⟩
    | false => exact ⟨rfl,rfl,rfl,rfl⟩

theorem receivedRaises (addr : String) : Raises Receipt.post (fun b => b.packetsReceived addr)
    fun r => if r.listener = addr then 1 else 0 := by
  intro books r
  have kept := (fateKeeps r.listener r.fate r.delivered
    (books.countReceived r.listener r.length)).1
  simp only [Receipt.post,postCopies,kept]
  exact updateAmount ..

theorem bytesRaises (addr : String) : Raises Receipt.post (fun b => b.bytesReceived addr)
    fun r => if r.listener = addr then r.length else 0 := by
  intro books r
  have kept := (fateKeeps r.listener r.fate r.delivered
    (books.countReceived r.listener r.length)).2.1
  simp only [Receipt.post,postCopies,kept]
  exact updateAmount ..

theorem postBalancer (books : Books) (r : Receipt) :
    (r.post books).balancer = r.fate.elim books.balancer (Fate.post books.balancer) :=
  (fateKeeps r.listener r.fate r.delivered (books.countReceived r.listener r.length)).2.2.2

theorem triedRaises (label : Label) : Raises Receipt.post
    (fun b => b.balancer.packetsSent label+b.balancer.packetsFailed label)
    fun r => if r.tried = some label then 1 else 0 := by
  intro books r
  obtain ⟨_,_,fate,_,_⟩ := r
  simp only [postBalancer,Receipt.tried]
  cases fate with
  | none => exact rfl
  | some f =>
    have sent : ∀ key n, (countSent books.balancer key n).packetsSent label+
        books.balancer.packetsFailed label = books.balancer.packetsSent label+
          books.balancer.packetsFailed label+if key = label then 1 else 0 := by
      intro key n
      simp only [countSent,incBy,updateAmount]
      omega
    cases f with
    | refused => exact rfl
    | unsent key => exact rfl
    | failed key =>
      simp only [Option.elim_some,Fate.post,countFailed,incBy,updateAmount,Option.bind_some,
        Fate.tried,Option.some.injEq]
      omega
    | sent key bytes response =>
      simp only [Option.elim_some,Option.bind_some,Fate.tried,Option.some.injEq]
      cases response with
      | none => exact sent key bytes
      | some buf => exact sent key bytes

theorem responsesRaises (label : Label) : Raises Receipt.post
    (fun b => b.balancer.responsesReceived label)
    fun r => if r.answered = some label then 1 else 0 := by
  intro books r
  obtain ⟨_,_,fate,_,_⟩ := r
  simp only [postBalancer,Receipt.answered,Receipt.response,Receipt.tried]
  cases fate with
  | none => exact rfl
  | some f =>
    cases f with
    | refused => exact rfl
    | unsent key => exact rfl
    | failed key => exact rfl
    | sent key bytes response =>
      cases response with
      | none => exact rfl
      | some buf =>
        simp only [Option.elim_some,Option.bind_some,Fate.post,Fate.response,Fate.tried,
          Option.isSome_some,if_true,Option.some.injEq,countResponse,incBy]
        exact updateAmount ..

theorem responseBytesRaise (label : Label) : Raises Receipt.post
    (fun b => b.balancer.responseBytesReceived label)
    fun r => if r.answered = some label then r.answer else 0 := by
  intro books r
  obtain ⟨_,_,fate,_,_⟩ := r
  simp only [postBalancer,Receipt.answered,Receipt.answer,Receipt.response,Receipt.tried]
  cases fate with
  | none => exact rfl
  | some f =>
    cases f with
    | refused => exact rfl
    | unsent key => exact rfl
    | failed key => exact rfl
    | sent key bytes response =>
      cases response with
      | none => exact rfl
      | some buf =>
        simp only [Option.elim_some,Option.bind_some,Fate.post,Fate.response,Fate.tried,
          Option.isSome_some,if_true,Option.some.injEq,countResponse,incBy,Option.getD_some]
        exact updateAmount ..

theorem fateSends (addr key : String) (fate : Option Fate) (delivered : Bool) (books : Books) :
    (postFate addr fate delivered books).packetsSent key = books.packetsSent key+
        (if addr = key ∧ (fate.bind Fate.response).isSome ∧ delivered then 1 else 0) ∧
      (postFate addr fate delivered books).bytesSent key = books.bytesSent key+
        if addr = key ∧ (fate.bind Fate.response).isSome ∧ delivered
          then ((fate.bind Fate.response).getD []).length else 0 := by
  unfold postFate
  rcases (fate.bind Fate.response).eq_none_or_eq_some with none | ⟨response,some⟩
  · simp [none]
  · cases delivered with
    | false => simp [some]
    | true =>
      simp only [some,if_true,Books.countAnswered,inc,Option.isSome_some,and_true,Option.getD_some]
      exact ⟨updateAmount ..,updateAmount ..⟩

theorem sentRaises (addr : String) : Raises Receipt.post (fun b => b.packetsSent addr)
    fun r => if r.listener = addr ∧ r.response.isSome ∧ r.delivered then 1 else 0 :=
  fun books r => (fateSends r.listener addr r.fate r.delivered
    (books.countReceived r.listener r.length)).1

theorem sentBytesRaise (addr : String) : Raises Receipt.post (fun b => b.bytesSent addr)
    fun r => if r.listener = addr ∧ r.response.isSome ∧ r.delivered then r.answer else 0 :=
  fun books r => (fateSends r.listener addr r.fate r.delivered
    (books.countReceived r.listener r.length)).2

def Made (label : Label) (entry : Label × Copy) : Bool := entry.1 == label && entry.2 != .skipped

theorem copyRaises (label : Label) : Raises (fun c (entry : Label × Copy) =>
    Mirroring.post entry.1 c entry.2) (fun c => c.packetsSent label+c.packetsFailed label)
    fun entry => if Made label entry then 1 else 0 := by
  intro c entry
  obtain ⟨key,copy⟩ := entry
  cases copy with
  | skipped => simp [Mirroring.post,Made]
  | failed =>
    simp only [Mirroring.post,incBy,updateAmount,Made,Bool.and_eq_true,beq_iff_eq]
    simp only [bne_iff_ne,ne_eq,reduceCtorEq,not_false_eq_true,and_true]
    omega
  | sent bytes =>
    simp only [Mirroring.post,incBy,updateAmount,Made,Bool.and_eq_true,beq_iff_eq]
    simp only [bne_iff_ne,ne_eq,reduceCtorEq,not_false_eq_true,and_true]
    omega

theorem mirrorRaises (label : Label) : Raises Receipt.post
    (fun b => b.mirror.packetsSent label+b.mirror.packetsFailed label)
    fun r => r.copies.countP (Made label) := by
  intro books r
  have kept := (fateKeeps r.listener r.fate r.delivered
    (books.countReceived r.listener r.length)).2.2.1
  have total := raisesTotal (copyRaises label) r.copies books.mirror
  simp only [Receipt.post,postCopies,kept]
  rw [← countTotal]
  exact total

def Listener.labels (l : Listener) : List Label :=
  l.balancer.elim [] fun b => b.backends.map (labelOf b)

def Listener.targets (l : Listener) : List Label :=
  l.mirror.elim [] fun m => m.backends.map fun b => (m.listenerAddr,b.address.text)

theorem labelsAddr {l : Listener} {label : Label} (mem : label ∈ l.labels) : label.1 = l.addr := by
  unfold Listener.labels at mem
  cases set : l.balancer with
  | none =>
    rw [set] at mem
    contradiction
  | some b =>
    rw [set] at mem
    obtain ⟨backend,_,rfl⟩ := List.mem_map.mp mem
    exact l.balancerAddr b set

theorem triedLabel {f : Fate} {label : Label} (tried : f.tried = some label) :
    f.label = some label := by
  cases f with
  | refused => contradiction
  | unsent key => contradiction
  | failed key => exact tried
  | sent key bytes response => exact tried

theorem fateLabelled {b : Balancer} {call : Call ε b} {f : Fate} {label : Label}
    (fated : fate call = some f) (labelled : f.label = some label) :
    label ∈ b.backends.map (labelOf b) := by
  have sent : ∀ key response n, (sentFate key response n).label = some key := by
    intro key response n
    unfold sentFate
    split <;> exact rfl
  cases chosen : call.next (buildKey call) with
  | none =>
    simp only [fate,chosen,Option.some.injEq] at fated
    subst fated
    contradiction
  | some i =>
    have named : f.label = some (labelOf b (b.backends.get i)) := by
      cases mode : (b.backends.get i).mode with
      | standard =>
        cases session : call.session with
        | error e =>
          simp only [fate,chosen,mode,session,Option.some.injEq] at fated
          exact fated ▸ rfl
        | ok u =>
          cases answer : call.os.send call.payload with
          | error e =>
            simp only [fate,chosen,mode,session,answer,Option.some.injEq] at fated
            exact fated ▸ rfl
          | ok n =>
            simp only [fate,chosen,mode,session,answer,Option.some.injEq] at fated
            exact fated ▸ sent ..
      | _ =>
        simp only [fate,chosen,mode,bind,Option.bind_eq_some_iff] at fated
        obtain ⟨answer,_,ends⟩ := fated
        cases answer with
        | error e => exact (Option.some.inj ends) ▸ rfl
        | ok n => exact (Option.some.inj ends) ▸ sent ..
    cases Option.some.inj (labelled.symm.trans named)
    exact List.mem_map_of_mem (List.get_mem _ i)

structure Issued (l : Listener) (r : Receipt) : Prop where
  listener : r.listener = l.addr
  tried : ∀ label, r.tried = some label → label ∈ l.labels
  copies : r.copies.map Prod.fst = l.targets

theorem receiptIssued (a : Arrival ε l) : Issued l (receipt a) where
  listener := rfl
  tried := by
    intro label tried
    obtain ⟨f,fated,tried⟩ := Option.bind_eq_some_iff.mp tried
    have inside : ∀ (balancer : Option Balancer) (calls : ∀ b, balancer = some b → Call ε b),
        fateOf balancer calls = some f →
          label ∈ balancer.elim [] fun b => b.backends.map (labelOf b) := by
      intro balancer calls fated
      cases balancer with
      | none => contradiction
      | some b => exact fateLabelled fated (triedLabel tried)
    exact inside _ _ fated
  copies := by
    rw [receipt,copiesOf,Listener.targets]
    cases l.mirror with
    | none => exact rfl
    | some m =>
      calc (copies m.listenerAddr a.envs a.srcAddr a.payload 0 m.backends).map Prod.fst
          = ((m.backends.zipIdx 0).map Prod.fst).map fun b => (m.listenerAddr,b.address.text) := by
            rw [copies,List.map_map,List.map_map]
            exact rfl
        _ = m.backends.map fun b => (m.listenerAddr,b.address.text) := by rw [List.zipIdx_map_fst]

variable {node : List Listener}

theorem issued {events : List (NodeEvent ε node)} {r : Receipt} (mem : r ∈ receipts events) :
    ∃ l ∈ node, Issued l r := by
  obtain ⟨⟨i,event⟩,_,same⟩ := List.mem_filterMap.mp mem
  cases event with
  | packet a =>
    cases Option.some.inj same
    exact ⟨node.get i,List.get_mem _ i,receiptIssued a⟩
  | empty => contradiction
  | receiveError => contradiction

def labelsAt (node : List Listener) (addr : String) : Finset Label :=
  ((node.filter fun l => l.addr = addr).flatMap Listener.labels).toFinset

theorem triedHere {l : Listener} (inside : l ∈ node) {r : Receipt} (issued : Issued l r)
    {label : Label} (tried : r.tried = some label) (addr : String) :
    label ∈ labelsAt node addr ↔ r.listener = addr := by
  have own := issued.tried label tried
  rw [labelsAt,List.mem_toFinset,List.mem_flatMap,issued.listener]
  constructor
  · intro ⟨other,kept,mem⟩
    have here : other.addr = addr := of_decide_eq_true (List.mem_filter.mp kept).2
    rw [← labelsAddr own,labelsAddr mem,here]
  · intro here
    exact ⟨l,List.mem_filter.mpr ⟨inside,decide_eq_true here⟩,own⟩

theorem responseTried {r : Receipt} (responded : r.response.isSome = true) :
    ∃ label, r.tried = some label := by
  obtain ⟨buf,response⟩ := Option.isSome_iff_exists.mp responded
  obtain ⟨f,fated,response⟩ := Option.bind_eq_some_iff.mp response
  cases f with
  | sent label bytes given => exact ⟨label,Option.bind_eq_some_iff.mpr ⟨_,fated,rfl⟩⟩
  | refused => contradiction
  | unsent label => contradiction
  | failed label => contradiction

theorem answeredHere {l : Listener} (inside : l ∈ node) {r : Receipt} (issued : Issued l r)
    (addr : String) : (∃ label ∈ labelsAt node addr, r.answered = some label) ↔
      r.listener = addr ∧ r.response.isSome = true := by
  unfold Receipt.answered
  constructor
  · intro ⟨label,mem,answered⟩
    split at answered
    · next responded => exact ⟨(triedHere inside issued answered addr).mp mem,responded⟩
    · contradiction
  · intro ⟨here,responded⟩
    obtain ⟨label,tried⟩ := responseTried responded
    rw [if_pos responded]
    exact ⟨label,(triedHere inside issued tried addr).mpr here,tried⟩

theorem deliveredOrNot (r : Receipt) (addr : String) (n : Nat) :
    (if r.listener = addr ∧ r.response.isSome = true then n else 0) =
      (if r.listener = addr ∧ r.response.isSome = true ∧ r.delivered = true then n else 0)+
        if r.listener = addr ∧ r.undelivered = true then n else 0 := by
  rcases Bool.eq_false_or_eq_true r.delivered with delivered | lost
  · simp [Receipt.undelivered,delivered]
  · simp [Receipt.undelivered,lost]

def received (addr : String) (events : List (NodeEvent ε node)) : List Receipt :=
  (receipts events).filter fun r => r.listener = addr

structure Balanced (events : List (NodeEvent ε node)) (books : Books) (addr : String) : Prop where
  packets : books.packetsReceived addr = (received addr events).length
  bytes : books.bytesReceived addr = ((received addr events).map Receipt.length).sum
  forwarded : books.packetsReceived addr =
    ∑ label ∈ labelsAt node addr,
      (books.balancer.packetsSent label+books.balancer.packetsFailed label)+
    (received addr events).countP Receipt.lost
  answered : ∑ label ∈ labelsAt node addr, books.balancer.responsesReceived label =
    books.packetsSent addr+(received addr events).countP Receipt.undelivered
  answeredBytes : ∑ label ∈ labelsAt node addr, books.balancer.responseBytesReceived label =
    books.bytesSent addr+(((received addr events).filter Receipt.undelivered).map
      Receipt.answer).sum

theorem leakHere (addr : String) (p : Receipt → Bool) (events : List (NodeEvent ε node)) :
    ((receipts events).map fun r => if r.listener = addr ∧ p r then 1 else 0).sum =
      (received addr events).countP p := by
  rw [received,List.countP_filter,← countTotal]
  simp only [Bool.and_eq_true,decide_eq_true_eq,and_comm]

theorem booksBalanced (events : List (NodeEvent ε node)) (addr : String) :
    Balanced events ((receipts events).foldl Receipt.post blank) addr where
  packets := by
    have total := raisesTotal (receivedRaises addr) (receipts events) blank
    have mine := countTotal (fun r : Receipt => decide (r.listener = addr)) (receipts events)
    simp only [decide_eq_true_eq] at mine
    rw [total,mine,received,List.countP_eq_length_filter]
    exact Nat.zero_add _
  bytes := by
    have total := raisesTotal (bytesRaises addr) (receipts events) blank
    have mine := amountTotal (fun r : Receipt => decide (r.listener = addr)) Receipt.length
      (receipts events)
    simp only [decide_eq_true_eq] at mine
    rw [total,mine,received]
    exact Nat.zero_add _
  forwarded := by
    rw [← leakHere addr Receipt.lost events]
    refine raisesAgree (receivedRaises addr) (raisesSum triedRaises (labelsAt node addr))
      (fun r mem => ?_) (by simp [blank,zero])
    obtain ⟨l,inside,issued⟩ := issued mem
    rw [sumOwner]
    cases tried : r.tried with
    | none => simp [Receipt.lost,tried]
    | some label =>
      have here := triedHere inside issued tried addr
      simp [Receipt.lost,tried,here]
  answered := by
    rw [← leakHere addr Receipt.undelivered events]
    refine raisesAgree (raisesSum responsesRaises (labelsAt node addr)) (sentRaises addr)
      (fun r mem => ?_) (by simp [blank,zero])
    obtain ⟨l,inside,issued⟩ := issued mem
    rw [sumOwner]
    simp only [answeredHere inside issued addr]
    exact deliveredOrNot r addr _
  answeredBytes := by
    have leak : ((receipts events).map fun r =>
        if r.listener = addr ∧ r.undelivered then r.answer else 0).sum =
          (((received addr events).filter Receipt.undelivered).map Receipt.answer).sum := by
      rw [received,List.filter_filter,← amountTotal]
      simp only [Bool.and_eq_true,decide_eq_true_eq,and_comm]
    rw [← leak]
    refine raisesAgree (raisesSum responseBytesRaise (labelsAt node addr)) (sentBytesRaise addr)
      (fun r mem => ?_) (by simp [blank,zero])
    obtain ⟨l,inside,issued⟩ := issued mem
    rw [sumOwner]
    simp only [answeredHere inside issued addr]
    exact deliveredOrNot r addr _

/- The figures of one mirror target: every packet of a listener is offered to each of
its targets. -/
def Event.offers (label : Label) : Event ε l → Nat
  | .packet _ => l.targets.count label
  | _ => 0

def offered (events : List (NodeEvent ε node)) (label : Label) : Nat :=
  (events.map fun event => event.2.offers label).sum

def skipped (events : List (NodeEvent ε node)) (label : Label) : Nat :=
  ((receipts events).map fun r => r.copies.count (label,.skipped)).sum

def Certain (node : List Listener) (label : Label) : Prop :=
  ∀ l ∈ node, ∀ m, l.mirror = some m → ∀ b ∈ m.backends,
    (m.listenerAddr,b.address.text) = label → F64.le (.fin 1) b.probability = true

structure Mirrored (events : List (NodeEvent ε node)) (books : Books) (label : Label) : Prop where
  accounted : books.mirror.packetsSent label+books.mirror.packetsFailed label+
    skipped events label = offered events label
  certain : Certain node label → skipped events label = 0

theorem copiesSplit (entries : List (Label × Copy)) (label : Label) :
    entries.countP (Made label)+entries.count (label,.skipped) =
      (entries.map Prod.fst).count label := by
  induction entries with
  | nil => exact rfl
  | cons entry rest ih =>
    obtain ⟨key,copy⟩ := entry
    rw [List.countP_cons,List.count_cons,List.map_cons,List.count_cons,← ih]
    by_cases here : key = label
    · subst here
      cases copy with
      | skipped => simp [Made]; omega
      | failed => simp [Made]; omega
      | sent bytes => simp [Made]; omega
    · simp [Made,here]

theorem offeredTotal (events : List (NodeEvent ε node)) (label : Label) :
    ((receipts events).map fun r => (r.copies.map Prod.fst).count label).sum =
      offered events label := by
  induction events with
  | nil => exact rfl
  | cons event rest ih =>
    obtain ⟨i,event⟩ := event
    rw [offered,List.map_cons,List.sum_cons,receipts,List.filterMap_cons]
    cases event with
    | empty => exact ih.trans (Nat.zero_add _).symm
    | receiveError => exact ih.trans (Nat.zero_add _).symm
    | packet a =>
      simp only [Event.receipt,List.map_cons,List.sum_cons,(receiptIssued a).copies]
      exact congrArg _ ih

theorem certainCopies {l : Listener} (a : Arrival ε l) {label : Label}
    (certain : ∀ m, l.mirror = some m → ∀ b ∈ m.backends,
      (m.listenerAddr,b.address.text) = label → F64.le (.fin 1) b.probability = true) :
    (label,Copy.skipped) ∉ (receipt a).copies := by
  intro mem
  simp only [receipt,copiesOf] at mem
  cases set : l.mirror with
  | none =>
    rw [set] at mem
    contradiction
  | some m =>
    rw [set] at mem
    obtain ⟨⟨b,i⟩,inside,same⟩ := List.mem_map.mp mem
    obtain ⟨here,skips⟩ := Prod.mk.inj same
    have sends := certain m set b (List.fst_mem_of_mem_zipIdx inside) here
    have undrawn := (Mirroring.copiedSkipped b (a.envs i) a.srcAddr a.nonempty).mp skips
    simp only [UdpBackend.shouldSend,sends,if_true] at undrawn
    contradiction

theorem booksMirrored (events : List (NodeEvent ε node)) (label : Label) :
    Mirrored events ((receipts events).foldl Receipt.post blank) label where
  accounted := by
    rw [raisesTotal (mirrorRaises label),skipped,← offeredTotal,Nat.add_assoc,← List.sum_map_add]
    simp only [copiesSplit]
    exact Nat.zero_add _
  certain := by
    intro certain
    refine List.sum_eq_zero fun n mem => ?_
    obtain ⟨r,issued,rfl⟩ := List.mem_map.mp mem
    obtain ⟨⟨i,event⟩,_,same⟩ := List.mem_filterMap.mp issued
    cases event with
    | packet a =>
      cases Option.some.inj same
      exact List.count_eq_zero.mpr (certainCopies a (certain (node.get i) (List.get_mem _ i)))
    | empty => contradiction
    | receiveError => contradiction

theorem nodeBalances (node : List Listener) (events : List (NodeEvent ε node)) :
    ∃ books, run events blank = some books ∧ (∀ addr, Balanced events books addr) ∧
      ∀ label, Mirrored events books label :=
  ⟨_,runPosts events blank,booksBalanced events,booksMirrored events⟩

end UdpBalancer.NodeBooks
