import UdpBalancer.HashKey
import UdpBalancer.RawPackets

/-! `Balancer::forward` and the counters it keeps for a backend. The choice of the
algorithm, the session and every system call answer anew in each call; the
counters only grow, so a run lists its calls in the order in which they end. -/
namespace UdpBalancer

def Backends.SocketAddr.text (address : Backends.SocketAddr) : String :=
  String.ofList (address.display.map fun byte => Char.ofNat byte.toNat)

def IoError.text {ε : Type} (os : Os ε) : IoError ε → String
  | .os error => os.text error
  | .other text => text

def BackendError.text {ε : Type} (os : Os ε) : BackendError ε → String
  | .socketCreation error => "failed to create socket: " ++ error.text os
  | .sendFailed error => "failed to send packet: " ++ error.text os
  | .rawSocketNotSupported => "raw socket not supported on this platform"

namespace Forwarding
open Backends Config RawSocket

abbrev Label := String × String

structure Counters where
  packetsSent : Label → Nat
  bytesSent : Label → Nat
  packetsFailed : Label → Nat
  responsesReceived : Label → Nat
  responseBytesReceived : Label → Nat

def zero : Counters := ⟨fun _ => 0,fun _ => 0,fun _ => 0,fun _ => 0,fun _ => 0⟩

def incBy (series : Label → Nat) (label : Label) (n : Nat) : Label → Nat :=
  Function.update series label (series label+n)

def countSent (c : Counters) (label : Label) (sent : Nat) : Counters :=
  {c with packetsSent := incBy c.packetsSent label 1,bytesSent := incBy c.bytesSent label sent}

def countFailed (c : Counters) (label : Label) : Counters :=
  {c with packetsFailed := incBy c.packetsFailed label 1}

def countResponse (c : Counters) (label : Label) (len : Nat) : Counters :=
  {c with responsesReceived := incBy c.responsesReceived label 1,
          responseBytesReceived := incBy c.responseBytesReceived label len}

structure Balancer where
  backends : List UdpBackend
  algorithmType : Algorithm
  hashKeyFields : List HashKeyField
  listenerAddr : String
  proxyTimeout : Nat

/- One call and what it meets: the algorithm's choice, the session manager's answer,
the random draw, the operating system and the answer of the backend, if one comes
before the timeout. What the system sends, it sends whole. -/
structure Call (ε : Type) (b : Balancer) where
  srcAddr : SocketAddr
  dstAddr : SocketAddr
  payload : Bytes
  next : Bytes → Option (Fin b.backends.length)
  session : Except ε Unit
  draw : ℚ
  os : Os ε
  recv : Option (Except ε Bytes)
  nonempty : 0 < payload.length
  whole : ∀ buf n, os.send buf = .ok n → n = buf.length
  rawWhole : ∀ buf addr n, os.rawSendTo buf addr = .ok n → n = buf.length

variable {ε : Type} {b : Balancer}

def receive (recv : Option (Except ε Bytes)) (label : Label) (c : Counters) :
    Except String (Option Bytes) × Counters :=
  match recv with
  | some (.ok buf) =>
      if 0 < buf.length then (.ok (some buf),countResponse c label buf.length) else (.ok none,c)
  | _ => (.ok none,c)

def buildKey (call : Call ε b) : Bytes :=
  HashKey.buildHashKey b.hashKeyFields call.srcAddr.ip call.dstAddr.ip call.srcAddr.port
    call.dstAddr.port call.payload

def labelOf (b : Balancer) (backend : UdpBackend) : Label :=
  (b.listenerAddr,backend.address.text)

def forward (call : Call ε b) (c : Counters) :
    Option (Except String (Option Bytes) × Counters) :=
  match call.next (buildKey call) with
  | none => some (.error "no available backends",c)
  | some i =>
    let backend := b.backends.get i
    let label := labelOf b backend
    match backend.mode with
    | .standard => match call.session with
      | .error e => some (.error ("failed to create session: " ++ call.os.text e),c)
      | .ok () => match call.os.send call.payload with
        | .ok sent => some (if 0 < sent then receive call.recv label (countSent c label sent)
            else (.ok none,c))
        | .error e => some (.error (call.os.text e),countFailed c label)
    | _ => do
      match ← backend.send call.os call.draw call.srcAddr call.payload with
      | .ok sent => some (.ok none,if 0 < sent then countSent c label sent else c)
      | .error e => some (.error (e.text call.os),countFailed c label)

structure Done (n : Nat) where
  backend : Option (Fin n)
  failed : Bool
  counted : Bool
  length : Nat
  deriving DecidableEq

def isErr {ε α : Type} : Except ε α → Bool
  | .ok _ => false
  | .error _ => true

def doneWith (call : Call ε b) (c d : Counters) (r : Except String (Option Bytes)) :
    Done b.backends.length where
  backend := call.next (buildKey call)
  failed := isErr r
  counted := (call.next (buildKey call)).any fun i =>
    c.packetsSent (labelOf b (b.backends.get i)) < d.packetsSent (labelOf b (b.backends.get i))
  length := call.payload.length

def forwardDone (call : Call ε b) (c : Counters) :
    Option (Done b.backends.length × Counters) := do
  let (r,d) ← forward call c
  some (doneWith call c d r,d)

def run : List (Call ε b) → Counters → Option (List (Done b.backends.length) × Counters)
  | [],c => some ([],c)
  | call::rest,c => do
    let (done,d) ← forwardDone call c
    let (log,e) ← run rest d
    some (done::log,e)

def entries {n : Nat} (i : Fin n) (log : List (Done n)) : List (Done n) :=
  log.filter fun d => d.backend = some i

def countedBytes {n : Nat} (log : List (Done n)) : Nat :=
  ((log.filter Done.counted).map Done.length).sum

structure Conserved (i : Fin b.backends.length) (log : List (Done b.backends.length))
    (c : Counters) : Prop where
  packets : c.packetsSent (labelOf b (b.backends.get i))+
    c.packetsFailed (labelOf b (b.backends.get i)) = (entries i log).length
  failed : c.packetsFailed (labelOf b (b.backends.get i)) = (entries i log).countP Done.failed
  bytes : c.bytesSent (labelOf b (b.backends.get i)) = countedBytes (entries i log)

def source (backend : UdpBackend) (srcAddr : SocketAddr) : Option SocketAddr :=
  match backend.mode with
  | .standard => none
  | .preserveSrcAddr fallbackIpv4 =>
      (backend.effectiveSrc (ε := Unit) fallbackIpv4 srcAddr).toOption
  | .fakeSrcAddr fakeIp => some (.new fakeIp srcAddr.port)

def rawPacket (raw : RawSocket) (src dst : SocketAddr) (payload : Bytes) : Option Bytes :=
  match raw.buildFor (ε := Unit) src dst with
  | .ok build => build.packet payload
  | .error _ => none

def handed (backend : UdpBackend) (srcAddr : SocketAddr) (payload : Bytes) : Option Bytes := do
  let raw ← backend.rawSocket
  let src ← source backend srcAddr
  rawPacket raw src backend.address payload

/- A call without the two slips: no session fails, and no raw packet goes out. -/
def Clean (call : Call ε b) : Prop :=
  ∀ i, call.next (buildKey call) = some i →
    if (b.backends.get i).mode = .standard then call.session = .ok ()
    else (b.backends.get i).shouldSend call.draw = true ∧
      ∀ packet, handed (b.backends.get i) call.srcAddr call.payload = some packet →
        ∃ e, call.os.rawSendTo packet (b.backends.get i).address = .error e

def Silent (call : Call ε b) : Prop :=
  ∀ i, call.next (buildKey call) = some i →
    if (b.backends.get i).mode = .standard then ∃ e, call.session = .error e
    else (b.backends.get i).shouldSend call.draw = false

def SameText (b : Balancer) (i j : Fin b.backends.length) : Prop :=
  (b.backends.get i).address.text = (b.backends.get j).address.text

/- A call keeps the counters of backend `i` in step: it is clean if it selects `i`,
and silent if it selects another backend that prints the address of `i`. -/
def Kept (i : Fin b.backends.length) (call : Call ε b) : Prop :=
  ∀ j, call.next (buildKey call) = some j → SameText b j i →
    if j = i then Clean call else Silent call

theorem packetLonger {build : Build} {payload packet : Bytes}
    (built : build.packet payload = some packet) : payload.length < packet.length := by
  cases build with
  | ipv4 srcIp dstIp srcPort dstPort =>
    obtain ⟨a,c,_,_,same⟩ := ipv4Built srcIp dstIp srcPort dstPort payload
    cases Option.some.inj (built.symm.trans same)
    rw [packetLength]
    omega
  | ipv6 srcIp dstIp srcPort dstPort =>
    obtain ⟨c,_,same⟩ := ipv6Built srcIp dstIp srcPort dstPort payload
    cases Option.some.inj (built.symm.trans same)
    rw [segmentLength]
    omega

theorem buildForAny (raw : RawSocket) (src dst : SocketAddr) :
    (∃ build, raw.buildFor (ε := Unit) src dst = .ok build ∧
      raw.buildFor (ε := ε) src dst = .ok build) ∨
    ∃ e f, raw.buildFor (ε := Unit) src dst = .error e ∧
      raw.buildFor (ε := ε) src dst = .error f := by
  obtain ⟨isIpv6⟩ := raw
  cases src <;> cases dst <;> cases isIpv6 <;>
    first | exact .inl ⟨_,rfl,rfl⟩ | exact .inr ⟨_,_,rfl,rfl⟩

structure Attempt (os : Os ε) (address : SocketAddr) (payload : Bytes)
    (sent : Option (Except (BackendError ε) Nat)) (packet : Option Bytes) : Prop where
  none : packet = none → ∃ e, sent = some (.error e)
  some : ∀ p, packet = some p → payload.length < p.length ∧
    ∃ f, sent = some ((os.rawSendTo p address).mapError f)

theorem attemptNone {os : Os ε} {address : SocketAddr} {payload : Bytes} (e : BackendError ε) :
    Attempt os address payload (some (.error e)) none :=
  ⟨fun _ => ⟨e,rfl⟩,fun _ eq => by contradiction⟩

theorem rawSendExact (os : Os ε) (backend : UdpBackend) (raw : RawSocket) (src : SocketAddr)
    (payload : Bytes) : Attempt os backend.address payload (backend.rawSend os raw src payload)
      (rawPacket raw src backend.address payload) := by
  rcases buildForAny (ε := ε) raw src backend.address with
    ⟨build,unit,chosen⟩ | ⟨e,f,unit,refused⟩
  · obtain ⟨packet,built⟩ := packetBuilt build payload
    have same : rawPacket raw src backend.address payload = some packet := by
      simp only [rawPacket,unit,built]
    rw [same]
    refine ⟨fun eq => by contradiction,fun p eq => ?_⟩
    cases eq
    refine ⟨packetLonger built,fun e => UdpBackend.rawFailed os (.socketCreation e),?_⟩
    simp only [UdpBackend.rawSend,sendTo,chosen,built,bind,Option.bind,Option.map_some]
    cases os.rawSendTo packet backend.address with
    | ok n => rfl
    | error e => rfl
  · have same : rawPacket raw src backend.address payload = none := by
      simp only [rawPacket,unit]
    have failed : backend.rawSend os raw src payload =
        some (.error (UdpBackend.rawFailed os f)) := by
      simp only [UdpBackend.rawSend,sendTo,refused,Option.map_some,Except.mapError]
    rw [same,failed]
    exact attemptNone _

theorem sourceAny (backend : UdpBackend) (fallback : Option Ipv4Addr) (srcAddr : SocketAddr) :
    (∃ src, backend.effectiveSrc (ε := Unit) fallback srcAddr = .ok src ∧
      backend.effectiveSrc (ε := ε) fallback srcAddr = .ok src) ∨
    ∃ e f, backend.effectiveSrc (ε := Unit) fallback srcAddr = .error e ∧
      backend.effectiveSrc (ε := ε) fallback srcAddr = .error f := by
  unfold UdpBackend.effectiveSrc
  split
  · cases fallback with
    | none => exact .inr ⟨_,_,rfl,rfl⟩
    | some ip => exact .inl ⟨_,rfl,rfl⟩
  · exact .inl ⟨_,rfl,rfl⟩

theorem sendUnsocketed (os : Os ε) {backend : UdpBackend} (raw : backend.mode ≠ .standard)
    {draw : ℚ} (drawn : backend.shouldSend draw = true) (socket : backend.rawSocket = none)
    (srcAddr : SocketAddr) (payload : Bytes) :
    Attempt os backend.address payload (backend.send os draw srcAddr payload)
      (handed backend srcAddr payload) := by
  have nothing : handed backend srcAddr payload = none := by
    simp only [handed,socket,bind,Option.bind]
  rw [nothing]
  cases mode : backend.mode with
  | standard => exact absurd mode raw
  | _ =>
    simp only [UdpBackend.send,drawn,mode,socket]
    exact attemptNone _

theorem sendExact (os : Os ε) {backend : UdpBackend} (raw : backend.mode ≠ .standard) {draw : ℚ}
    (drawn : backend.shouldSend draw = true) (srcAddr : SocketAddr) (payload : Bytes) :
    Attempt os backend.address payload (backend.send os draw srcAddr payload)
      (handed backend srcAddr payload) := by
  cases socket : backend.rawSocket with
  | none => exact sendUnsocketed os raw drawn socket srcAddr payload
  | some rawSocket =>
    cases mode : backend.mode with
    | standard => exact absurd mode raw
    | preserveSrcAddr fallback =>
      rcases sourceAny (ε := ε) backend fallback srcAddr with ⟨src,unit,any⟩ | ⟨e,f,unit,any⟩
      · simp only [UdpBackend.send,drawn,mode,socket,handed,source,unit,any,Except.toOption,bind,
          Option.bind]
        exact rawSendExact os backend rawSocket src payload
      · simp only [UdpBackend.send,drawn,mode,socket,handed,source,unit,any,Except.toOption,bind,
          Option.bind]
        exact attemptNone _
    | fakeSrcAddr fakeIp =>
      simp only [UdpBackend.send,drawn,mode,socket,handed,source,bind,Option.bind]
      exact rawSendExact os backend rawSocket _ payload

structure Moves (label : Label) (c d : Counters) (sent failed bytes : Nat) : Prop where
  sent : d.packetsSent label = c.packetsSent label+sent
  failed : d.packetsFailed label = c.packetsFailed label+failed
  bytes : d.bytesSent label = c.bytesSent label+bytes

theorem incByHere (series : Label → Nat) (label : Label) (n : Nat) :
    incBy series label n label = series label+n := Function.update_self ..

theorem incByOther (series : Label → Nat) {label other : Label} (apart : other ≠ label) (n : Nat) :
    incBy series label n other = series other := Function.update_of_ne apart ..

theorem movesKept (label : Label) (c : Counters) : Moves label c c 0 0 0 := ⟨rfl,rfl,rfl⟩

theorem movesSent (label : Label) (c : Counters) (n : Nat) :
    Moves label c (countSent c label n) 1 0 n :=
  ⟨incByHere ..,rfl,incByHere ..⟩

theorem movesFailed (label : Label) (c : Counters) : Moves label c (countFailed c label) 0 1 0 :=
  ⟨rfl,incByHere ..,rfl⟩

section elsewhere
variable {label other : Label} (apart : other ≠ label) (c : Counters)
include apart

theorem sentElsewhere (n : Nat) : Moves other c (countSent c label n) 0 0 0 :=
  ⟨incByOther _ apart _,rfl,incByOther _ apart _⟩

theorem failedElsewhere : Moves other c (countFailed c label) 0 0 0 :=
  ⟨rfl,incByOther _ apart _,rfl⟩

end elsewhere

theorem receiveMoves (recv : Option (Except ε Bytes)) (at_ label : Label) {c d : Counters} {s f n}
    (moves : Moves label c d s f n) : Moves label c (receive recv at_ d).2 s f n := by
  unfold receive
  split
  · split
    · exact ⟨moves.sent,moves.failed,moves.bytes⟩
    · exact moves
  · exact moves

theorem receiveOk (recv : Option (Except ε Bytes)) (label : Label) (c : Counters) :
    isErr (receive recv label c).1 = false := by
  unfold receive
  split
  · split <;> rfl
  · rfl

inductive Outcome (length : Nat) :
    (clean silent err : Bool) → (sent failed bytes : Nat) → Prop where
  | sent : Outcome length true false false 1 0 length
  | failed : Outcome length true false true 0 1 0
  | lost (err : Bool) : Outcome length false true err 0 0 0
  | padded {n} (more : length < n) : Outcome length false false false 1 0 n

structure Ends (call : Call ε b) (label : Label) (c d : Counters) (err : Bool) : Prop where
  outcome : ∃ clean silent s f n, Outcome call.payload.length clean silent err s f n ∧
    (Clean call ↔ clean = true) ∧ (Silent call ↔ silent = true) ∧ Moves label c d s f n
  others : ∀ other, other ≠ label → Moves other c d 0 0 0

theorem endsLost {call : Call ε b} (dirty : ¬ Clean call) (silent : Silent call) (label : Label)
    (c : Counters) (err : Bool) : Ends call label c c err :=
  ⟨⟨_,_,_,_,_,.lost err,by simp [dirty],by simp [silent],movesKept label c⟩,
    fun other _ => movesKept other c⟩

theorem endsFailed {call : Call ε b} (clean : Clean call) (heard : ¬ Silent call) (label : Label)
    (c : Counters) : Ends call label c (countFailed c label) true :=
  ⟨⟨_,_,_,_,_,.failed,by simp [clean],by simp [heard],movesFailed label c⟩,
    fun _ apart => failedElsewhere apart c⟩

section chosen
variable {call : Call ε b} {i : Fin b.backends.length} (chosen : call.next (buildKey call) = some i)
include chosen

theorem cleanChosen : Clean call ↔
    if (b.backends.get i).mode = .standard then call.session = .ok ()
    else (b.backends.get i).shouldSend call.draw = true ∧
      ∀ packet, handed (b.backends.get i) call.srcAddr call.payload = some packet →
        ∃ e, call.os.rawSendTo packet (b.backends.get i).address = .error e := by
  simp only [Clean,chosen,Option.some.injEq,forall_eq']

theorem silentChosen : Silent call ↔
    if (b.backends.get i).mode = .standard then ∃ e, call.session = .error e
    else (b.backends.get i).shouldSend call.draw = false := by
  simp only [Silent,chosen,Option.some.injEq,forall_eq']

theorem forwardStandard (mode : (b.backends.get i).mode = .standard) (c : Counters) :
    ∃ r d, forward call c = some (r,d) ∧
      Ends call (labelOf b (b.backends.get i)) c d (isErr r) := by
  have clean := cleanChosen chosen
  have silent := silentChosen chosen
  rw [if_pos mode] at clean silent
  unfold forward
  simp only [chosen,mode]
  cases session : call.session with
  | error e =>
    exact ⟨_,_,rfl,endsLost (by simp [clean,session]) (silent.mpr ⟨e,session⟩) _ c _⟩
  | ok _ =>
    have kept : Clean call := clean.mpr session
    have heard : ¬ Silent call := by simp [silent,session]
    cases answer : call.os.send call.payload with
    | error e => exact ⟨_,_,rfl,endsFailed kept heard _ c⟩
    | ok n =>
      have whole := call.whole _ _ answer
      subst whole
      simp only [call.nonempty,if_true]
      have counted := receiveOk call.recv (labelOf b (b.backends.get i))
        (countSent c (labelOf b (b.backends.get i)) call.payload.length)
      refine ⟨(receive call.recv _ _).1,(receive call.recv _ _).2,rfl,?_⟩
      rw [counted]
      exact ⟨⟨_,_,_,_,_,.sent,by simp [kept],by simp [heard],
        receiveMoves _ _ _ (movesSent _ c _)⟩,
        fun other apart => receiveMoves _ _ _ (sentElsewhere apart c _)⟩

theorem forwardSends (raw : (b.backends.get i).mode ≠ .standard) (c : Counters) :
    forward call c = ((b.backends.get i).send call.os call.draw call.srcAddr
      call.payload).bind fun answer => match answer with
        | .ok sent => some (.ok none,if 0 < sent then
            countSent c (labelOf b (b.backends.get i)) sent else c)
        | .error e => some (.error (e.text call.os),
            countFailed c (labelOf b (b.backends.get i))) := by
  unfold forward
  simp only [chosen]
  cases mode : (b.backends.get i).mode with
  | standard => exact absurd mode raw
  | preserveSrcAddr fallback => rfl
  | fakeSrcAddr ip => rfl

theorem forwardRaw (raw : (b.backends.get i).mode ≠ .standard) (c : Counters) :
    ∃ r d, forward call c = some (r,d) ∧
      Ends call (labelOf b (b.backends.get i)) c d (isErr r) := by
  have clean := cleanChosen chosen
  have silent := silentChosen chosen
  rw [if_neg raw] at clean silent
  rw [forwardSends chosen raw]
  cases drawn : (b.backends.get i).shouldSend call.draw with
  | false =>
    have unsent : (b.backends.get i).send call.os call.draw call.srcAddr call.payload =
        some (.ok 0) := by simp only [UdpBackend.send,drawn,Bool.not_false,if_true]
    have dirty : ¬ Clean call := fun kept =>
      Bool.false_ne_true (drawn.symm.trans (clean.mp kept).1)
    rw [unsent]
    exact ⟨_,_,rfl,endsLost dirty (silent.mpr drawn) _ c _⟩
  | true =>
    have heard : ¬ Silent call := fun quiet =>
      Bool.false_ne_true ((silent.mp quiet).symm.trans drawn)
    have attempt := sendExact call.os raw drawn call.srcAddr call.payload
    cases packet : handed (b.backends.get i) call.srcAddr call.payload with
    | none =>
      obtain ⟨e,failed⟩ := attempt.none packet
      have kept : Clean call := clean.mpr ⟨drawn,fun q same =>
        absurd (packet.symm.trans same) (Option.some_ne_none q).symm⟩
      rw [failed]
      exact ⟨_,_,rfl,endsFailed kept heard _ c⟩
    | some p =>
      obtain ⟨longer,f,sent⟩ := attempt.some p packet
      simp only [packet,drawn,true_and,Option.some.injEq,forall_eq'] at clean
      rw [sent]
      cases answer : call.os.rawSendTo p (b.backends.get i).address with
      | error e => exact ⟨_,_,rfl,endsFailed (clean.mpr ⟨e,answer⟩) heard _ c⟩
      | ok n =>
        have whole := call.rawWhole _ _ _ answer
        subst whole
        have dirty : ¬ Clean call := by
          intro kept
          obtain ⟨e,refused⟩ := clean.mp kept
          rw [answer] at refused
          contradiction
        have positive : 0 < p.length := by omega
        refine ⟨.ok none,countSent c (labelOf b (b.backends.get i)) p.length,?_,
          ⟨_,_,_,_,_,.padded longer,by simp [dirty],by simp [heard],movesSent _ c _⟩,
          fun other apart => sentElsewhere apart c _⟩
        simp only [Except.mapError,Option.bind_some,positive,if_true]

end chosen

/- How the counters of a backend and the log of its calls differ: calls and failures
that the counters missed, others that they have too many, and bytes too many. -/
structure Off where
  missed : Nat
  unseen : Nat
  extra : Nat
  misread : Nat
  excess : Nat

def Off.Fits (off : Off) : Prop :=
  off.missed = off.extra ∧ off.unseen = off.misread ∧ off.excess = 0

def Off.add (off more : Off) : Off :=
  ⟨off.missed+more.missed,off.unseen+more.unseen,off.extra+more.extra,off.misread+more.misread,
    off.excess+more.excess⟩

structure Adds (i : Fin b.backends.length) (log : List (Done b.backends.length)) (c d : Counters)
    (off : Off) : Prop where
  packets : d.packetsSent (labelOf b (b.backends.get i))+
      d.packetsFailed (labelOf b (b.backends.get i))+off.missed =
    c.packetsSent (labelOf b (b.backends.get i))+c.packetsFailed (labelOf b (b.backends.get i))+
      (entries i log).length+off.extra
  failed : d.packetsFailed (labelOf b (b.backends.get i))+off.unseen =
    c.packetsFailed (labelOf b (b.backends.get i))+(entries i log).countP Done.failed+off.misread
  bytes : d.bytesSent (labelOf b (b.backends.get i)) =
    c.bytesSent (labelOf b (b.backends.get i))+countedBytes (entries i log)+off.excess

variable {i : Fin b.backends.length}

theorem entriesAppend {n : Nat} (i : Fin n) (log more : List (Done n)) :
    entries i (log ++ more) = entries i log ++ entries i more := List.filter_append ..

theorem bytesAppend {n : Nat} (log more : List (Done n)) :
    countedBytes (log ++ more) = countedBytes log+countedBytes more := by
  simp only [countedBytes,List.filter_append,List.map_append,List.sum_append]

theorem addsNil (i : Fin b.backends.length) (c : Counters) : Adds i [] c c ⟨0,0,0,0,0⟩ :=
  ⟨rfl,rfl,rfl⟩

theorem addsCons {done : Done b.backends.length} {log : List (Done b.backends.length)}
    {c d e : Counters} {off more : Off} (first : Adds i [done] c d off)
    (rest : Adds i log d e more) : Adds i (done::log) c e (off.add more) := by
  have split := entriesAppend i [done] log
  rw [List.singleton_append] at split
  obtain ⟨packets,failed,bytes⟩ := first
  obtain ⟨packets',failed',bytes'⟩ := rest
  refine ⟨?_,?_,?_⟩
  · rw [split,List.length_append]
    simp only [Off.add]
    omega
  · rw [split,List.countP_append]
    simp only [Off.add]
    omega
  · rw [split,bytesAppend]
    simp only [Off.add]
    omega

theorem addsFits {done : Done b.backends.length} {log : List (Done b.backends.length)}
    {c d : Counters} {off : Off} (before : Conserved i log c) (adds : Adds i [done] c d off) :
    Conserved i (log ++ [done]) d ↔ off.Fits := by
  obtain ⟨packets,failed,bytes⟩ := before
  obtain ⟨packets',failed',bytes'⟩ := adds
  have split := entriesAppend i log [done]
  constructor
  · intro ⟨packets'',failed'',bytes''⟩
    rw [split,List.length_append] at packets''
    rw [split,List.countP_append] at failed''
    rw [split,bytesAppend] at bytes''
    exact ⟨by omega,by omega,by omega⟩
  · intro ⟨missed,unseen,excess⟩
    refine ⟨?_,?_,?_⟩
    · rw [split,List.length_append]
      omega
    · rw [split,List.countP_append]
      omega
    · rw [split,bytesAppend]
      omega

theorem conservedFits {log : List (Done b.backends.length)} {c : Counters} {off : Off}
    (adds : Adds i log zero c off) : Conserved i log c ↔ off.Fits := by
  obtain ⟨packets,failed,bytes⟩ := adds
  simp only [zero,Nat.zero_add] at packets failed bytes
  constructor
  · intro ⟨packets',failed',bytes'⟩
    exact ⟨by omega,by omega,by omega⟩
  · intro ⟨missed,unseen,excess⟩
    exact ⟨by omega,by omega,by omega⟩

section one
variable {done : Done b.backends.length} {c d : Counters} {clean silent : Bool} {s f n : Nat}

theorem entriesOther (apart : done.backend ≠ some i) : entries i [done] = [] := by
  simp [entries,apart]

theorem entriesHere (here : done.backend = some i) : entries i [done] = [done] := by
  simp [entries,here]

theorem addsOther (apart : done.backend ≠ some i)
    (moves : Moves (labelOf b (b.backends.get i)) c d s f n) :
    Adds i [done] c d ⟨0,0,s+f,f,n⟩ := by
  obtain ⟨sent,failed,bytes⟩ := moves
  have none := entriesOther apart
  refine ⟨?_,?_,?_⟩
  · rw [none,sent,failed,List.length_nil]
    dsimp only
    omega
  · rw [none,failed,List.countP_nil]
    rfl
  · rw [none,bytes]
    rfl

theorem addsHere {m u x : Nat} (here : done.backend = some i)
    (moves : Moves (labelOf b (b.backends.get i)) c d s f n) (packets : s+f+m = 1)
    (failures : f+u = done.failed.toNat)
    (length : n = (if done.counted then done.length else 0)+x) :
    Adds i [done] c d ⟨m,u,0,0,x⟩ := by
  obtain ⟨sent,failed,bytes⟩ := moves
  have one := entriesHere here
  have errors : [done].countP Done.failed = done.failed.toNat := by
    cases err : done.failed <;> simp [err]
  have counted : countedBytes [done] = if done.counted then done.length else 0 := by
    cases seen : done.counted <;> simp [countedBytes,seen]
  refine ⟨?_,?_,?_⟩
  · rw [one,sent,failed,List.length_singleton]
    dsimp only
    omega
  · rw [one,errors,failed]
    dsimp only
    omega
  · rw [one,counted,bytes]
    dsimp only
    omega

theorem outcomeHere (here : done.backend = some i)
    (moves : Moves (labelOf b (b.backends.get i)) c d s f n)
    (outcome : Outcome done.length clean silent done.failed s f n)
    (counted : done.counted = decide (0 < s)) :
    ∃ off, Adds i [done] c d off ∧ (off.Fits ↔ clean = true) ∧ off.extra = 0 ∧ off.misread = 0 := by
  obtain ⟨chosen,err,seen,length⟩ := done
  simp only at outcome counted
  cases outcome with
  | sent =>
    exact ⟨⟨0,0,0,0,0⟩,addsHere here moves rfl rfl (by simp [counted]),by simp [Off.Fits],rfl,rfl⟩
  | failed =>
    exact ⟨⟨0,0,0,0,0⟩,addsHere here moves rfl rfl (by simp [counted]),by simp [Off.Fits],rfl,rfl⟩
  | lost err =>
    exact ⟨⟨1,err.toNat,0,0,0⟩,addsHere here moves rfl (Nat.zero_add _) (by simp [counted]),
      by simp [Off.Fits],rfl,rfl⟩
  | padded more =>
    refine ⟨⟨0,0,0,0,n-length⟩,addsHere here moves rfl rfl ?_,?_,rfl,rfl⟩
    · simp only [counted,Nat.one_pos,decide_true,if_true]
      omega
    · simp only [Off.Fits,Bool.false_eq_true,iff_false,true_and]
      omega

theorem outcomeOther (apart : done.backend ≠ some i)
    (moves : Moves (labelOf b (b.backends.get i)) c d s f n)
    (outcome : Outcome done.length clean silent done.failed s f n) :
    ∃ off, Adds i [done] c d off ∧ (off.Fits ↔ silent = true) := by
  refine ⟨_,addsOther apart moves,?_⟩
  obtain ⟨chosen,err,seen,length⟩ := done
  cases outcome with
  | sent => simp [Off.Fits]
  | failed => simp [Off.Fits]
  | lost err => simp [Off.Fits]
  | padded more => simp [Off.Fits]

end one

theorem forwardEnds (call : Call ε b) (c : Counters) {i}
    (chosen : call.next (buildKey call) = some i) : ∃ r d, forward call c = some (r,d) ∧
      Ends call (labelOf b (b.backends.get i)) c d (isErr r) := by
  by_cases mode : (b.backends.get i).mode = .standard
  · exact forwardStandard chosen mode c
  · exact forwardRaw chosen mode c

def Alone (b : Balancer) (i : Fin b.backends.length) : Prop := ∀ j, SameText b j i → j = i

theorem labelsDiffer {j : Fin b.backends.length} (apart : ¬ SameText b j i) :
    labelOf b (b.backends.get i) ≠ labelOf b (b.backends.get j) :=
  fun same => apart (congrArg Prod.snd same).symm

theorem labelsMeet {j : Fin b.backends.length} (same : SameText b j i) :
    labelOf b (b.backends.get j) = labelOf b (b.backends.get i) := Prod.ext rfl same

theorem callAdds (call : Call ε b) (c : Counters) : ∃ done d, forwardDone call c = some (done,d) ∧
    ∀ i, ∃ off, Adds i [done] c d off ∧ (off.Fits ↔ Kept i call) ∧
      (Alone b i → off.extra = 0 ∧ off.misread = 0) := by
  cases chosen : call.next (buildKey call) with
  | none =>
    refine ⟨doneWith call c c (.error "no available backends"),c,
      by simp only [forwardDone,forward,chosen,bind,Option.bind],fun i => ?_⟩
    have apart : (doneWith call c c (.error "no available backends")).backend ≠ some i := by
      simp [doneWith,chosen]
    refine ⟨_,addsOther apart (movesKept _ c),?_,fun _ => ⟨rfl,rfl⟩⟩
    simp [Off.Fits,Kept,chosen]
  | some j =>
    obtain ⟨r,d,forwarded,⟨clean,silent,s,f,n,outcome,exact,quiet,moves⟩,others⟩ :=
      forwardEnds call c chosen
    refine ⟨doneWith call c d r,d,
      by simp only [forwardDone,forwarded,bind,Option.bind],fun i => ?_⟩
    have selected : (doneWith call c d r).backend = some j := chosen
    by_cases same : SameText b j i
    · by_cases here : j = i
      · subst here
        have seen : (doneWith call c d r).counted = decide (0 < s) := by
          simp only [doneWith,chosen,Option.any_some,moves.sent]
          simp
        obtain ⟨off,adds,fits,extra,misread⟩ := outcomeHere selected moves outcome seen
        refine ⟨off,adds,?_,fun _ => ⟨extra,misread⟩⟩
        rw [fits,← exact]
        simp [Kept,chosen,same]
      · have apart : (doneWith call c d r).backend ≠ some i := by simp [selected,here]
        rw [labelsMeet same] at moves
        obtain ⟨off,adds,fits⟩ := outcomeOther apart moves outcome
        refine ⟨off,adds,?_,fun alone => absurd (alone j same) here⟩
        rw [fits,← quiet]
        simp [Kept,chosen,same,here]
    · have apart : (doneWith call c d r).backend ≠ some i := by
        rw [selected]
        rintro ⟨⟩
        exact same rfl
      refine ⟨_,addsOther apart (others _ (labelsDiffer same)),?_,fun _ => ⟨rfl,rfl⟩⟩
      simp [Off.Fits,Kept,chosen,same]

theorem runAdds (alone : Alone b i) (calls : List (Call ε b)) (c : Counters) :
    ∃ log d, run calls c = some (log,d) ∧ ∃ off, Adds i log c d off ∧
      (off.Fits ↔ ∀ call ∈ calls, Kept i call) ∧ off.extra = 0 ∧ off.misread = 0 := by
  induction calls generalizing c with
  | nil => exact ⟨[],c,rfl,_,addsNil i c,by simp [Off.Fits],rfl,rfl⟩
  | cons call rest ih =>
    obtain ⟨done,d,first,each⟩ := callAdds call c
    obtain ⟨log,e,ran,more,tail,others,extra',misread'⟩ := ih d
    obtain ⟨off,head,kept,own⟩ := each i
    obtain ⟨extra,misread⟩ := own alone
    refine ⟨done::log,e,by simp only [run,first,ran,bind,Option.bind],off.add more,
      addsCons head tail,?_,by simp [Off.add,extra,extra'],by simp [Off.add,misread,misread']⟩
    rw [List.forall_mem_cons,← kept,← others]
    simp only [Off.Fits,Off.add]
    omega

theorem runSnoc {calls : List (Call ε b)} {call : Call ε b} {c d e : Counters} {log done}
    (ran : run calls c = some (log,d)) (last : forwardDone call d = some (done,e)) :
    run (calls ++ [call]) c = some (log ++ [done],e) := by
  induction calls generalizing c log with
  | nil =>
    cases ran
    simp only [List.nil_append,run,last,bind,Option.bind]
  | cons head rest ih =>
    simp only [run,bind,Option.bind_eq_some_iff] at ran
    obtain ⟨⟨first,mid⟩,begun,⟨after,final⟩,rest,same⟩ := ran
    cases same
    simp only [List.cons_append,run,begun,ih rest,bind,Option.bind]

def FitsThroughout (i : Fin b.backends.length) (calls : List (Call ε b)) : Prop :=
  ∀ first, first <+: calls → ∃ log c, run first zero = some (log,c) ∧ Conserved i log c

theorem throughoutSnoc (calls : List (Call ε b)) (call : Call ε b) :
    FitsThroughout i (calls ++ [call]) ↔ FitsThroughout i calls ∧ Kept i call := by
  constructor
  · intro fits
    have before : FitsThroughout i calls :=
      fun first part => fits first (part.trans (List.prefix_append calls [call]))
    refine ⟨before,?_⟩
    obtain ⟨log,c,ran,held⟩ := before calls List.prefix_rfl
    obtain ⟨done,d,last,each⟩ := callAdds call c
    obtain ⟨off,adds,kept,_⟩ := each i
    obtain ⟨log',d',ran',held'⟩ := fits _ List.prefix_rfl
    cases (runSnoc ran last).symm.trans ran'
    exact kept.mp ((addsFits held adds).mp held')
  · intro ⟨before,kept⟩ first part
    rcases List.prefix_concat_iff.mp part with rfl | part
    · obtain ⟨log,c,ran,held⟩ := before calls List.prefix_rfl
      obtain ⟨done,d,last,each⟩ := callAdds call c
      obtain ⟨off,adds,exact,_⟩ := each i
      exact ⟨_,_,runSnoc ran last,(addsFits held adds).mpr (exact.mpr kept)⟩
    · exact before first part

theorem throughoutKept (calls : List (Call ε b)) :
    FitsThroughout i calls ↔ ∀ call ∈ calls, Kept i call := by
  induction calls using List.reverseRecOn with
  | nil =>
    refine ⟨fun _ _ mem => absurd mem List.not_mem_nil,fun _ first part => ?_⟩
    cases List.prefix_nil.mp part
    exact ⟨[],zero,rfl,rfl,rfl,rfl⟩
  | append_singleton calls call ih =>
    rw [throughoutSnoc,ih,List.forall_mem_append,List.forall_mem_singleton]

/- A call that the counters miss may be made up for by a later one to another backend of
the same address, so that they are judged at every moment of the run; where the address is
the backend's own, at its end as well. -/
theorem conservedExactly (b : Balancer) (calls : List (Call ε b)) (i : Fin b.backends.length) :
    (FitsThroughout i calls ↔ ∀ call ∈ calls, Kept i call) ∧
    (Alone b i → ∃ log c, run calls zero = some (log,c) ∧
      (Conserved i log c ↔ ∀ call ∈ calls, Kept i call)) := by
  refine ⟨throughoutKept calls,fun alone => ?_⟩
  obtain ⟨log,c,ran,off,adds,kept,_⟩ := runAdds alone calls zero
  exact ⟨log,c,ran,(conservedFits adds).trans kept⟩

def standardBackend : UdpBackend :=
  ⟨localhost 9000,some ⟨"0.0.0.0:0"⟩,none,.standard,.fin 1,.fin 1,true⟩

def rawBackend : UdpBackend :=
  ⟨localhost 9001,none,some ⟨false⟩,.fakeSrcAddr (.v4 (.new 192 0 2 1)),.fin 1,.fin 1,true⟩

def mixed : Balancer :=
  ⟨[standardBackend,rawBackend],.wrr,[.srcIp],"127.0.0.1:2055",seconds 30⟩

def twins : Balancer :=
  ⟨[standardBackend,standardBackend],.wrr,[.srcIp],"127.0.0.1:2055",seconds 30⟩

def working : Os Unit where
  text _ := "too many open files"
  bind _ := .ok ()
  connect _ := .ok ()
  raw _ := .ok ()
  send buf := .ok buf.length
  sendTo buf _ := .ok buf.length
  rawSendTo buf _ := .ok buf.length

def fourBytes {b : Balancer} (i : Fin b.backends.length) (session : Except Unit Unit) :
    Call Unit b where
  srcAddr := localhost 5000
  dstAddr := localhost 2055
  payload := [1,2,3,4]
  next _ := some i
  session := session
  draw := 0
  os := working
  recv := none
  nonempty := by decide
  whole _ _ sent := (Except.ok.inj sent).symm
  rawWhole _ _ _ sent := (Except.ok.inj sent).symm

def series {n : Nat} (label : Label) (r : List (Done n) × Counters) :
    List (Done n) × Nat × Nat × Nat :=
  (r.1,r.2.packetsSent label,r.2.packetsFailed label,r.2.bytesSent label)

theorem twinsNamed : ∀ i : Fin twins.backends.length,
    labelOf twins (twins.backends.get i) = ("127.0.0.1:2055","127.0.0.1:9000") := by
  decide +kernel

theorem slipsUncounted :
    (∃ log c, run [fourBytes (b := mixed) ⟨0,by decide⟩ (.error ())] zero = some (log,c) ∧
      ¬ Conserved (b := mixed) ⟨0,by decide⟩ log c) ∧
    (∃ log c, run [fourBytes (b := mixed) ⟨1,by decide⟩ (.ok ())] zero = some (log,c) ∧
      c.bytesSent ("127.0.0.1:2055","127.0.0.1:9001") = 32 ∧
      ¬ Conserved (b := mixed) ⟨1,by decide⟩ log c) ∧
    ∃ log c, run [fourBytes (b := twins) ⟨0,by decide⟩ (.ok ()),
        fourBytes ⟨1,by decide⟩ (.ok ())] zero = some (log,c) ∧
      ∀ i : Fin twins.backends.length, ¬ Conserved i log c := by
  have lost : (run [fourBytes (b := mixed) ⟨0,by decide⟩ (.error ())] zero).map
      (series ("127.0.0.1:2055","127.0.0.1:9000")) =
        some ([⟨some ⟨0,by decide⟩,true,false,4⟩],0,0,0) := by
    decide +kernel
  have padded : (run [fourBytes (b := mixed) ⟨1,by decide⟩ (.ok ())] zero).map
      (series ("127.0.0.1:2055","127.0.0.1:9001")) =
        some ([⟨some ⟨1,by decide⟩,false,true,4⟩],1,0,32) := by
    decide +kernel
  have shared : (run [fourBytes (b := twins) ⟨0,by decide⟩ (.ok ()),
      fourBytes ⟨1,by decide⟩ (.ok ())] zero).map (series ("127.0.0.1:2055","127.0.0.1:9000")) =
        some ([⟨some ⟨0,by decide⟩,false,true,4⟩,⟨some ⟨1,by decide⟩,false,true,4⟩],2,0,8) := by
    decide +kernel
  obtain ⟨⟨log,c⟩,ran,seen⟩ := Option.map_eq_some_iff.mp lost
  obtain ⟨⟨log',c'⟩,ran',seen'⟩ := Option.map_eq_some_iff.mp padded
  obtain ⟨⟨log'',c''⟩,ran'',seen''⟩ := Option.map_eq_some_iff.mp shared
  simp only [series,Prod.mk.injEq] at seen seen' seen''
  refine ⟨⟨log,c,ran,fun conserved => ?_⟩,⟨log',c',ran',seen'.2.2.2,fun conserved => ?_⟩,
    log'',c'',ran'',fun i conserved => ?_⟩
  · have failed := conserved.failed
    rw [seen.1] at failed
    exact absurd (seen.2.2.1.symm.trans failed) (by decide)
  · have bytes := conserved.bytes
    rw [seen'.1] at bytes
    exact absurd (seen'.2.2.2.symm.trans bytes) (by decide)
  · have one : ∀ i : Fin 2, (entries i [⟨some ⟨0,by decide⟩,false,true,4⟩,
        ⟨some ⟨1,by decide⟩,false,true,4⟩]).length = 1 := by
      decide
    have packets := conserved.packets
    rw [twinsNamed i,seen''.2.1,seen''.2.2.1,seen''.1] at packets
    exact absurd (packets.trans (one i)) (by decide)

end Forwarding
end UdpBalancer
