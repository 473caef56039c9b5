import UdpBalancer.Mirror

/-! The books of a node: what the datagrams of all its listeners leave in the registry.
Each packet has a receipt, a function of what the packet met, and the listeners do no
more to the registry than to post the receipts. -/
namespace UdpBalancer.NodeBooks
open Backends Forwarding App
open Mirroring (Env Copy copies)

variable {ε : Type}

inductive Fate where
  | refused
  | unsent (label : Label)
  | failed (label : Label)
  | sent (label : Label) (bytes : Nat) (response : Option Bytes)

def Fate.post (c : Forwarding.Counters) : Fate → Forwarding.Counters
  | .refused | .unsent _ => c
  | .failed label => countFailed c label
  | .sent label bytes none => countSent c label bytes
  | .sent label bytes (some buf) => countResponse (countSent c label bytes) label buf.length

def Fate.response : Fate → Option Bytes
  | .sent _ _ response => response
  | _ => none

def answered (recv : Option (Except ε Bytes)) : Option Bytes :=
  match recv with
  | some (.ok buf) => if 0 < buf.length then some buf else none
  | _ => none

def sentFate (label : Label) (response : Option Bytes) (sent : Nat) : Fate :=
  if 0 < sent then .sent label sent response else .unsent label

def fate {b : Balancer} (call : Call ε b) : Option Fate :=
  match call.next (buildKey call) with
  | none => some .refused
  | some i =>
    let backend := b.backends.get i
    let label := labelOf b backend
    match backend.mode with
    | .standard => match call.session with
      | .error _ => some (.unsent label)
      | .ok () => match call.os.send call.payload with
        | .ok sent => some (sentFate label (answered call.recv) sent)
        | .error _ => some (.failed label)
    | _ => do
      match ← backend.send call.os call.draw call.srcAddr call.payload with
      | .ok sent => some (sentFate label none sent)
      | .error _ => some (.failed label)

structure Posts (call : Call ε b) (c : Forwarding.Counters) (f : Fate) : Prop where
  fated : fate call = some f
  forwards : ∃ r, forward call c = some (r,f.post c) ∧ ∀ buf, r = .ok (some buf) ↔
    f.response = some buf

theorem receivePosts (recv : Option (Except ε Bytes)) (label : Label) (c : Forwarding.Counters)
    (bytes : Nat) : receive recv label (countSent c label bytes) =
      (.ok (answered recv),(Fate.sent label bytes (answered recv)).post c) := by
  cases recv with
  | none => exact rfl
  | some answer =>
    cases answer with
    | error e => exact rfl
    | ok buf =>
      by_cases filled : 0 < buf.length
      · simp only [receive,answered,filled,if_true,Fate.post]
      · simp only [receive,answered,filled,if_false,Fate.post]

theorem standardPosts {b : Balancer} {call : Call ε b} {i}
    (chosen : call.next (buildKey call) = some i)
    (mode : (b.backends.get i).mode = .standard) (c : Forwarding.Counters) :
    ∃ f, Posts call c f := by
  cases session : call.session with
  | error e =>
    refine ⟨.unsent (labelOf b (b.backends.get i)),by simp only [fate,chosen,mode,session],
      .error ("failed to create session: " ++ call.os.text e),?_,fun buf => ?_⟩
    · simp only [forward,chosen,mode,session,Fate.post]
    · simp [Fate.response]
  | ok u =>
    cases answer : call.os.send call.payload with
    | error e =>
      refine ⟨.failed (labelOf b (b.backends.get i)),by simp only [fate,chosen,mode,session,answer],
        .error (call.os.text e),?_,fun buf => ?_⟩
      · simp only [forward,chosen,mode,session,answer,Fate.post]
      · simp [Fate.response]
    | ok n =>
      have whole := call.whole _ _ answer
      have filled : 0 < n := whole ▸ call.nonempty
      refine ⟨.sent (labelOf b (b.backends.get i)) n (answered call.recv),?_,
        .ok (answered call.recv),?_,fun buf => ?_⟩
      · simp only [fate,chosen,mode,session,answer,sentFate,filled,if_true]
      · simp only [forward,chosen,mode,session,answer,filled,if_true,receivePosts]
      · simp [Fate.response]

theorem rawPosts {b : Balancer} {call : Call ε b} {i}
    (chosen : call.next (buildKey call) = some i)
    (raw : (b.backends.get i).mode ≠ .standard) (c : Forwarding.Counters) :
    ∃ f, Posts call c f := by
  obtain ⟨answer,sent⟩ : ∃ answer, (b.backends.get i).send call.os call.draw call.srcAddr
      call.payload = some answer := by
    cases drawn : (b.backends.get i).shouldSend call.draw with
    | false => exact ⟨_,Mirroring.sendUndrawn call.os _ call.srcAddr call.payload drawn⟩
    | true =>
      have attempt := sendExact call.os raw drawn call.srcAddr call.payload
      cases packet : handed (b.backends.get i) call.srcAddr call.payload with
      | none =>
        obtain ⟨e,failed⟩ := attempt.none packet
        exact ⟨_,failed⟩
      | some p =>
        obtain ⟨_,f,sent⟩ := attempt.some p packet
        exact ⟨_,sent⟩
  cases answer with
  | error e =>
    refine ⟨.failed (labelOf b (b.backends.get i)),?_,.error (e.text call.os),?_,fun buf => ?_⟩
    · cases mode : (b.backends.get i).mode with
      | standard => exact absurd mode raw
      | _ => simp only [fate,chosen,mode,sent,bind,Option.bind]
    · cases mode : (b.backends.get i).mode with
      | standard => exact absurd mode raw
      | _ => simp only [forward,chosen,mode,sent,bind,Option.bind,Fate.post]
    · simp [Fate.response]
  | ok n =>
    have posts : (sentFate (labelOf b (b.backends.get i)) none n).post c =
        if 0 < n then countSent c (labelOf b (b.backends.get i)) n else c := by
      unfold sentFate
      split <;> exact rfl
    refine ⟨sentFate (labelOf b (b.backends.get i)) none n,?_,.ok none,?_,fun buf => ?_⟩
    · cases mode : (b.backends.get i).mode with
      | standard => exact absurd mode raw
      | _ => simp only [fate,chosen,mode,sent,bind,Option.bind]
    · rw [posts]
      cases mode : (b.backends.get i).mode with
      | standard => exact absurd mode raw
      | _ => simp only [forward,chosen,mode,sent,bind,Option.bind]
    · rw [sentFate]
      split <;> simp [Fate.response]

theorem forwardPosts {b : Balancer} (call : Call ε b) (c : Forwarding.Counters) :
    ∃ f, Posts call c f := by
  cases chosen : call.next (buildKey call) with
  | none =>
    refine ⟨.refused,by simp only [fate,chosen],.error "no available backends",?_,fun buf => ?_⟩
    · simp only [forward,chosen,Fate.post]
    · simp [Fate.response]
  | some i =>
    by_cases mode : (b.backends.get i).mode = .standard
    · exact standardPosts chosen mode c
    · exact rawPosts chosen mode c

structure Listener where
  address : SocketAddr
  addr : String
  balancer : Option Balancer
  mirror : Option Mirror
  balancerAddr : ∀ b, balancer = some b → b.listenerAddr = addr
  mirrorAddr : ∀ m, mirror = some m → m.listenerAddr = addr

structure Books where
  packetsReceived : String → Nat
  bytesReceived : String → Nat
  packetsSent : String → Nat
  bytesSent : String → Nat
  balancer : Forwarding.Counters
  mirror : Mirroring.Counters

def blank : Books :=
  ⟨fun _ => 0,fun _ => 0,fun _ => 0,fun _ => 0,zero,⟨fun _ => 0,fun _ => 0,fun _ => 0⟩⟩

def inc (series : String → Nat) (addr : String) (n : Nat) : String → Nat :=
  Function.update series addr (series addr+n)

namespace Books

def countReceived (books : Books) (addr : String) (len : Nat) : Books :=
  {books with packetsReceived := inc books.packetsReceived addr 1,
              bytesReceived := inc books.bytesReceived addr len}

def countAnswered (books : Books) (addr : String) (len : Nat) : Books :=
  {books with packetsSent := inc books.packetsSent addr 1,
              bytesSent := inc books.bytesSent addr len}

end Books

/- A packet and what it meets on its way: `forward`'s world, the answer of `send_to`
to a response, and one world for each mirror target. -/
structure Arrival (ε : Type) (l : Listener) where
  srcAddr : SocketAddr
  payload : Bytes
  nonempty : 0 < payload.length
  call : ∀ b, l.balancer = some b → {call : Call ε b //
    call.srcAddr = srcAddr ∧ call.dstAddr = l.address ∧ call.payload = payload}
  reply : Except ε Unit
  envs : Nat → Env ε

inductive Event (ε : Type) (l : Listener) where
  | empty
  | receiveError
  | packet (arrival : Arrival ε l)

def serve (balancer : Option Balancer) (calls : ∀ b, balancer = some b → Call ε b)
    (reply : Except ε Unit) (addr : String) (books : Books) : Option Books :=
  match balancer,calls with
  | none,_ => some books
  | some b,calls => do
    let (r,c) ← forward (calls b rfl) books.balancer
    match r,reply with
    | .ok (some response),.ok () =>
        some ({books with balancer := c}.countAnswered addr response.length)
    | _,_ => some {books with balancer := c}

def copyAll (mirror : Option Mirror) (envs : Nat → Env ε) (srcAddr : SocketAddr)
    (payload : Bytes) (books : Books) : Option Books :=
  match mirror with
  | none => some books
  | some m => (Mirroring.mirror m envs srcAddr payload books.mirror).map fun c =>
      {books with mirror := c}

variable {l : Listener}

def handlePacket (a : Arrival ε l) (books : Books) : Option Books := do
  let books ← serve l.balancer (fun b set => (a.call b set).1) a.reply l.addr books
  copyAll l.mirror a.envs a.srcAddr a.payload books

def receiveOne (books : Books) : Event ε l → Option Books
  | .packet a => handlePacket a (books.countReceived l.addr a.payload.length)
  | _ => some books

abbrev NodeEvent (ε : Type) (node : List Listener) := Σ i : Fin node.length, Event ε (node.get i)

def run {node : List Listener} (events : List (NodeEvent ε node)) (books : Books) : Option Books :=
  events.foldlM (fun books event => receiveOne books event.2) books

structure Receipt where
  listener : String
  length : Nat
  fate : Option Fate
  delivered : Bool
  copies : List (Label × Copy)

def Receipt.response (r : Receipt) : Option Bytes := r.fate.bind Fate.response

def postFate (addr : String) (fate : Option Fate) (delivered : Bool) (books : Books) : Books :=
  let books := {books with balancer := fate.elim books.balancer (Fate.post books.balancer)}
  match fate.bind Fate.response with
  | some response => if delivered then books.countAnswered addr response.length else books
  | none => books

def postCopies (copies : List (Label × Copy)) (books : Books) : Books :=
  {books with mirror := copies.foldl (fun c entry => Mirroring.post entry.1 c entry.2) books.mirror}

def Receipt.post (books : Books) (r : Receipt) : Books :=
  postCopies r.copies
    (postFate r.listener r.fate r.delivered (books.countReceived r.listener r.length))

def fateOf (balancer : Option Balancer) (calls : ∀ b, balancer = some b → Call ε b) :
    Option Fate :=
  match balancer,calls with
  | none,_ => none
  | some b,calls => fate (calls b rfl)

def copiesOf (mirror : Option Mirror) (envs : Nat → Env ε) (srcAddr : SocketAddr)
    (payload : Bytes) : List (Label × Copy) :=
  mirror.elim [] fun m => copies m.listenerAddr envs srcAddr payload 0 m.backends

def receipt (a : Arrival ε l) : Receipt where
  listener := l.addr
  length := a.payload.length
  fate := fateOf l.balancer fun b set => (a.call b set).1
  delivered := a.reply.isOk
  copies := copiesOf l.mirror a.envs a.srcAddr a.payload

def Event.receipt : Event ε l → Option Receipt
  | .packet a => some (NodeBooks.receipt a)
  | _ => none

def receipts {node : List Listener} (events : List (NodeEvent ε node)) : List Receipt :=
  events.filterMap fun event => event.2.receipt

theorem servePosts (balancer : Option Balancer) (calls : ∀ b, balancer = some b → Call ε b)
    (reply : Except ε Unit) (addr : String) (books : Books) :
    serve balancer calls reply addr books =
      some (postFate addr (fateOf balancer calls) reply.isOk books) := by
  cases balancer with
  | none => exact rfl
  | some b =>
    obtain ⟨f,fated,r,forwarded,answer⟩ := forwardPosts (calls b rfl) books.balancer
    simp only [serve,forwarded,fateOf,fated,postFate,bind,Option.bind_some,Option.elim_some]
    cases response : f.response with
    | none =>
      have silent : ∀ buf, r ≠ .ok (some buf) := by
        intro buf same
        have responded := (answer buf).mp same
        rw [response] at responded
        contradiction
      cases r with
      | error e => exact rfl
      | ok given =>
        cases given with
        | none => exact rfl
        | some buf => exact absurd rfl (silent buf)
    | some buf =>
      cases (answer buf).mpr response
      cases reply with
      | error e => exact rfl
      | ok u => exact rfl

theorem copyPosts (mirror : Option Mirror) (envs : Nat → Env ε) (srcAddr : SocketAddr)
    {payload : Bytes} (filled : 0 < payload.length) (books : Books) :
    copyAll mirror envs srcAddr payload books =
      some (postCopies (copiesOf mirror envs srcAddr payload) books) := by
  cases mirror with
  | none => exact rfl
  | some m =>
    rw [copyAll,Mirroring.mirror,Mirroring.mirrorFromPosts _ _ _ filled,Option.map_some]
    exact rfl

theorem handlePosts (a : Arrival ε l) (books : Books) :
    handlePacket a (books.countReceived l.addr a.payload.length) =
      some (Receipt.post books (receipt a)) := by
  rw [handlePacket,servePosts,Option.bind_eq_bind,Option.bind_some,copyPosts _ _ _ a.nonempty]
  exact rfl

theorem runPosts {node : List Listener} (events : List (NodeEvent ε node)) (books : Books) :
    run events books = some ((receipts events).foldl Receipt.post books) := by
  induction events generalizing books with
  | nil => exact rfl
  | cons event rest ih =>
    obtain ⟨i,event⟩ := event
    rw [run,List.foldlM_cons]
    cases event with
    | empty => exact ih books
    | receiveError => exact ih books
    | packet a =>
      rw [receiveOne,handlePosts]
      exact ih (Receipt.post books (receipt a))

end UdpBalancer.NodeBooks
