import UdpBalancer.Forwarding
import UdpBalancer.SeriesLabels

/-! `Mirror::mirror`: a copy of each packet to every target in turn, with the counters
it keeps. What becomes of one copy depends on its own draw and its own system call. -/
namespace UdpBalancer.Mirroring
open Backends Forwarding App

/- What one copy meets. What the system sends, it sends whole. -/
structure Env (ε : Type) where
  draw : ℚ
  os : Os ε
  whole : ∀ buf n, os.send buf = .ok n → n = buf.length
  wholeTo : ∀ buf addr n, os.sendTo buf addr = .ok n → n = buf.length
  wholeRaw : ∀ buf addr n, os.rawSendTo buf addr = .ok n → n = buf.length

structure Counters where
  packetsSent : Label → Nat
  bytesSent : Label → Nat
  packetsFailed : Label → Nat

variable {ε : Type}

def mirrorOne (label : Label) (backend : UdpBackend) (env : Env ε) (srcAddr : SocketAddr)
    (payload : Bytes) (c : Counters) : Option Counters := do
  match ← backend.send env.os env.draw srcAddr payload with
  | .ok sent =>
    some (if 0 < sent then
        {c with packetsSent := incBy c.packetsSent label 1,
                bytesSent := incBy c.bytesSent label sent}
      else c)
  | .error _ => some {c with packetsFailed := incBy c.packetsFailed label 1}

def mirrorFrom (listenerAddr : String) (envs : Nat → Env ε) (srcAddr : SocketAddr)
    (payload : Bytes) : (index : Nat) → List UdpBackend → Counters → Option Counters
  | _,[],c => some c
  | index,backend::rest,c => do
    let d ← mirrorOne (listenerAddr,backend.address.text) backend (envs index) srcAddr payload c
    mirrorFrom listenerAddr envs srcAddr payload (index+1) rest d

def mirror (mirror : Mirror) (envs : Nat → Env ε) (srcAddr : SocketAddr) (payload : Bytes)
    (c : Counters) : Option Counters :=
  mirrorFrom mirror.listenerAddr envs srcAddr payload 0 mirror.backends c

inductive Copy where
  | skipped
  | failed
  | sent (bytes : Nat)
  deriving DecidableEq, Repr

def copied (backend : UdpBackend) (env : Env ε) (srcAddr : SocketAddr) (payload : Bytes) : Copy :=
  match backend.send env.os env.draw srcAddr payload with
  | some (.ok 0) => .skipped
  | some (.ok (n+1)) => .sent (n+1)
  | _ => .failed

def post (label : Label) (c : Counters) : Copy → Counters
  | .skipped => c
  | .failed => {c with packetsFailed := incBy c.packetsFailed label 1}
  | .sent bytes => {c with packetsSent := incBy c.packetsSent label 1,
                           bytesSent := incBy c.bytesSent label bytes}

def copies (listenerAddr : String) (envs : Nat → Env ε) (srcAddr : SocketAddr)
    (payload : Bytes) (index : Nat) (backends : List UdpBackend) : List (Label × Copy) :=
  (backends.zipIdx index).map fun (backend,i) =>
    ((listenerAddr,backend.address.text),copied backend (envs i) srcAddr payload)

theorem sendDrawn (backend : UdpBackend) (env : Env ε) (srcAddr : SocketAddr) {payload : Bytes}
    (filled : 0 < payload.length) (drawn : backend.shouldSend env.draw = true) :
    (∃ e, backend.send env.os env.draw srcAddr payload = some (.error e)) ∨
      ∃ n, backend.send env.os env.draw srcAddr payload = some (.ok (n+1)) := by
  by_cases mode : backend.mode = .standard
  · simp only [UdpBackend.send,drawn,Bool.not_true,Bool.false_eq_true,if_false,mode]
    cases backend.socket with
    | none => exact .inl ⟨_,rfl⟩
    | some socket =>
      have goes : ∀ answer : Except ε Nat, (∀ n, answer = .ok n → n = payload.length) →
          (∃ e, some (answer.mapError fun e => BackendError.sendFailed (.os e)) = some (.error e)) ∨
          ∃ n, some (answer.mapError fun e => BackendError.sendFailed (.os e)) =
            some (.ok (n+1)) := by
        intro answer whole
        cases answer with
        | error e => exact .inl ⟨_,rfl⟩
        | ok n =>
          have length := whole n rfl
          obtain ⟨k,rfl⟩ := Nat.exists_eq_succ_of_ne_zero (show n ≠ 0 by omega)
          exact .inr ⟨k,rfl⟩
      refine goes _ fun n answer => ?_
      split at answer
      · exact env.whole _ _ answer
      · exact env.wholeTo _ _ _ answer
  · have attempt := sendExact env.os mode drawn srcAddr payload
    cases packet : handed backend srcAddr payload with
    | none => exact .inl (attempt.none packet)
    | some p =>
      obtain ⟨longer,f,sent⟩ := attempt.some p packet
      rw [sent]
      cases answer : env.os.rawSendTo p backend.address with
      | error e => exact .inl ⟨_,rfl⟩
      | ok n =>
        have length := env.wholeRaw _ _ _ answer
        obtain ⟨k,rfl⟩ := Nat.exists_eq_succ_of_ne_zero (show n ≠ 0 by omega)
        exact .inr ⟨k,rfl⟩

theorem sendUndrawn (os : Os ε) (backend : UdpBackend) {draw : ℚ} (srcAddr : SocketAddr)
    (payload : Bytes) (undrawn : backend.shouldSend draw = false) :
    backend.send os draw srcAddr payload = some (.ok 0) := by
  simp only [UdpBackend.send,undrawn,Bool.not_false,if_true]

theorem copiedSkipped (backend : UdpBackend) (env : Env ε) (srcAddr : SocketAddr)
    {payload : Bytes} (filled : 0 < payload.length) :
    copied backend env srcAddr payload = .skipped ↔ backend.shouldSend env.draw = false := by
  cases drawn : backend.shouldSend env.draw with
  | false => simp only [copied,sendUndrawn env.os backend srcAddr payload drawn]
  | true =>
    rcases sendDrawn backend env srcAddr filled drawn with ⟨e,failed⟩ | ⟨n,sent⟩
    · simp [copied,failed]
    · simp [copied,sent]

theorem mirrorOnePosts (label : Label) (backend : UdpBackend) (env : Env ε)
    (srcAddr : SocketAddr) {payload : Bytes} (filled : 0 < payload.length) (c : Counters) :
    mirrorOne label backend env srcAddr payload c =
      some (post label c (copied backend env srcAddr payload)) := by
  cases drawn : backend.shouldSend env.draw with
  | false =>
    have unsent := sendUndrawn env.os backend srcAddr payload drawn
    simp only [mirrorOne,copied,unsent,bind,Option.bind,Nat.lt_irrefl,if_false,post]
  | true =>
    rcases sendDrawn backend env srcAddr filled drawn with ⟨e,failed⟩ | ⟨n,sent⟩
    · simp only [mirrorOne,copied,failed,bind,Option.bind,post]
    · simp only [mirrorOne,copied,sent,bind,Option.bind,Nat.succ_pos,if_true,post]

theorem mirrorFromPosts (listenerAddr : String) (envs : Nat → Env ε) (srcAddr : SocketAddr)
    {payload : Bytes} (filled : 0 < payload.length) (index : Nat) (backends : List UdpBackend)
    (c : Counters) : mirrorFrom listenerAddr envs srcAddr payload index backends c =
      some ((copies listenerAddr envs srcAddr payload index backends).foldl
        (fun c entry => post entry.1 c entry.2) c) := by
  induction backends generalizing index c with
  | nil => exact rfl
  | cons backend rest ih =>
    rw [mirrorFrom,mirrorOnePosts _ _ _ _ filled,copies,List.zipIdx_cons,List.map_cons,
      List.foldl_cons]
    exact ih (index+1) _

end UdpBalancer.Mirroring
