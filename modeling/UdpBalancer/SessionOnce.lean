import Mathlib.Algebra.BigOperators.Group.Finset.Basic
import Mathlib.Algebra.Order.BigOperators.Group.Finset
import Mathlib.Data.Multiset.AddSub
import UdpBalancer.SessionIsolation

/-! Nothing is delivered twice. What a backend sends is, at each moment, in one place
at most: on its way, in one socket's queue or in one answer; and a request gets one
answer at most, which goes to one client once. All tasks share sockets and the map. -/
namespace UdpBalancer.SessionOnce
open Backends (SocketAddr)
open SessionManager

def stamps (datagrams : List Datagram) : Multiset Nat := datagrams.map Datagram.sentAt

def queued (sockets : Nat → Option Socket) (id : Nat) : Multiset Nat :=
  match sockets id with
  | none => 0
  | some socket => stamps socket.queue

def flying (m : Shared) : Multiset Nat := stamps (m.flight.map Prod.snd)

def waiting (m : Shared) : Multiset Nat := ∑ id ∈ Finset.range m.nextSocket, queued m.sockets id

def answered (m : Shared) : Multiset Nat := stamps (m.answers.map Reply.datagram)

def known (m : Shared) : Multiset Nat := flying m + waiting m + answered m

theorem stampsCons (d : Datagram) (rest : List Datagram) :
    stamps (d::rest) = d.sentAt ::ₘ stamps rest := rfl

theorem stampsAppend (early late : List Datagram) :
    stamps (early ++ late) = stamps early + stamps late := by
  rw [stamps,List.map_append,← Multiset.coe_add]
  rfl

theorem queuedHere (sockets : Nat → Option Socket) (id : Nat) (socket : Socket) :
    queued (Function.update sockets id (some socket)) id = stamps socket.queue := by
  rw [queued,Function.update_self]

theorem queuedOther (sockets : Nat → Option Socket) {id other : Nat} (apart : other ≠ id)
    (socket : Option Socket) : queued (Function.update sockets id socket) other =
      queued sockets other := by
  rw [queued,Function.update_of_ne apart]
  rfl

theorem knownSet {m : Shared} {id socket} (inside : id < m.nextSocket)
    (held : m.sockets id = some socket) (later : Socket) :
    known (setSocket m id later) + stamps socket.queue = known m + stamps later.queue := by
  have mem : id ∈ Finset.range m.nextSocket := Finset.mem_range.mpr inside
  have others : ∑ other ∈ (Finset.range m.nextSocket).erase id,
      queued (Function.update m.sockets id (some later)) other =
        ∑ other ∈ (Finset.range m.nextSocket).erase id, queued m.sockets other :=
    Finset.sum_congr rfl fun other mem => queuedOther m.sockets (Finset.ne_of_mem_erase mem) _
  have before : stamps socket.queue + ∑ other ∈ (Finset.range m.nextSocket).erase id,
      queued m.sockets other = waiting m := by
    have here : queued m.sockets id = stamps socket.queue := by rw [queued,held]
    rw [← here]
    exact Finset.add_sum_erase _ _ mem
  have after : stamps later.queue + ∑ other ∈ (Finset.range m.nextSocket).erase id,
      queued m.sockets other = waiting (setSocket m id later) := by
    rw [← others,← queuedHere m.sockets id later]
    exact Finset.add_sum_erase _ _ mem
  change flying m + waiting (setSocket m id later) + answered m + _ = flying m + waiting m + answered m + _
  rw [← before,← after]
  abel

theorem knownSame {m : Shared} {id socket later} (inside : id < m.nextSocket)
    (held : m.sockets id = some socket) (queue : later.queue = socket.queue) :
    known (setSocket m id later) = known m := by
  have moved := knownSet inside held later
  rw [queue] at moved
  exact add_right_cancel moved

theorem knownBind (m : Shared) (key : SessionKey) :
    known {setSocket m m.nextSocket ⟨key,none,[],[]⟩ with nextSocket := m.nextSocket+1} =
      known m := by
  have bound : waiting {setSocket m m.nextSocket ⟨key,none,[],[]⟩ with
      nextSocket := m.nextSocket+1} = waiting m := by
    refine (Finset.sum_range_succ _ _).trans ?_
    rw [show queued _ m.nextSocket = 0 from queuedHere m.sockets _ _,add_zero]
    exact Finset.sum_congr rfl fun other mem =>
      queuedOther m.sockets (Nat.ne_of_lt (Finset.mem_range.mp mem)) _
  exact congrArg (fun w => flying m + w + answered m) bound

theorem knownErase {m : Shared} {n x} (there : m.flight[n]? = some x) :
    x.2.sentAt ::ₘ known {m with flight := m.flight.eraseIdx n} = known m := by
  have erased : x.2.sentAt ::ₘ flying {m with flight := m.flight.eraseIdx n} = flying m := by
    obtain ⟨inside,same⟩ := List.getElem?_eq_some_iff.mp there
    have perm := (List.getElem_cons_eraseIdx_perm inside).map (fun x => x.2.sentAt)
    rw [same] at perm
    simp only [flying,stamps,List.map_map]
    exact Multiset.coe_eq_coe.mpr perm
  refine (Multiset.cons_add _ _ _).symm.trans ?_
  rw [← Multiset.cons_add,erased]
  rfl

theorem boundInside {m : Shared} (sound : SessionIsolation.Sound m) {id socket}
    (held : m.sockets id = some socket) : id < m.nextSocket := by
  by_contra beyond
  rw [sound.unused id (Nat.le_of_not_lt beyond)] at held
  contradiction

theorem advanceKnown {m n : Shared} {pc after : Pc} {move} (sound : SessionIsolation.Sound m)
    (moved : advance m pc move = some (n,after)) : known n ≤ known m := by
  cases advanceTook moved with
  | bound => exact (knownBind m _).le
  | connected held => refine le_of_eq (knownSame (boundInside sound held) held ?_); rfl
  | sent held => refine le_of_eq (knownSame (boundInside sound held) held ?_); rfl
  | @answered packet b id requestAt socket d rest held queue =>
    have taken := knownSet (boundInside sound held) held {socket with queue := rest}
    rw [queue,stampsCons,← Multiset.singleton_add,← add_assoc] at taken
    refine le_of_eq (Eq.trans ?_ (add_right_cancel taken))
    change flying _ + waiting _ + d.sentAt ::ₘ answered _ = _
    rw [Multiset.add_cons,← Multiset.singleton_add,add_comm]
    rfl
  | @emptied packet b id requestAt socket d rest held queue =>
    have taken := knownSet (boundInside sound held) held {socket with queue := rest}
    rw [queue,stampsCons,← Multiset.singleton_add,← add_assoc] at taken
    rw [← add_right_cancel taken]
    exact Multiset.le_add_right _ _
  | _ => exact le_refl _

theorem aroundKnown {timeout : Nat} {m n : Shared} {event} (sound : SessionIsolation.Sound m)
    (moved : around timeout m event = some n) :
    known n ≤ known m ∨ known n = (m.order+1) ::ₘ known m := by
  cases event with
  | retain u key =>
    obtain ⟨now,_,moved⟩ := Option.bind_eq_some_iff.mp moved
    cases Option.some.inj moved
    exact .inl (le_refl _)
  | backendSend sender id payload =>
    cases Option.some.inj moved
    refine .inr ?_
    have more : flying {m with flight := m.flight ++ [(id,⟨sender,payload,m.order+1⟩)]} =
        (m.order+1) ::ₘ flying m := by
      rw [flying,List.map_append,stampsAppend,← Multiset.singleton_add,add_comm]
      rfl
    change flying {m with flight := m.flight ++ [(id,⟨sender,payload,m.order+1⟩)]} + _ + _ = _
    rw [more,Multiset.cons_add,Multiset.cons_add]
    rfl
  | arrive n =>
    obtain ⟨⟨id,d⟩,there,moved⟩ := Option.bind_eq_some_iff.mp moved
    obtain ⟨socket,held,moved⟩ := Option.bind_eq_some_iff.mp moved
    have erased := knownErase there
    left
    split at moved
    · cases Option.some.inj moved
      have placed := knownSet (m := {m with flight := m.flight.eraseIdx n}) (boundInside sound held) held
        {socket with queue := socket.queue ++ [d]}
      rw [stampsAppend,add_comm (stamps socket.queue),← add_assoc] at placed
      rw [add_right_cancel placed,← erased,← Multiset.singleton_add,add_comm]
      rfl
    · cases Option.some.inj moved
      rw [← erased]
      exact Multiset.le_cons_self _ _
  | lose n =>
    cases Option.some.inj moved
    left
    cases there : m.flight[n]? with
    | some x =>
      rw [← knownErase there]
      exact Multiset.le_cons_self _ _
    | none =>
      have beyond := List.getElem?_eq_none_iff.mp there
      rw [List.eraseIdx_of_length_le beyond]
  | updateActivity key => cases Option.some.inj moved; exact .inl (le_refl _)
  | cleanup u => cases Option.some.inj moved; exact .inl (le_refl _)
  | tick d => cases Option.some.inj moved; exact .inl (le_refl _)

def request : Pc → Option Nat
  | .awaiting _ _ _ requestAt => some requestAt
  | _ => none

def reply : Pc → Option Reply
  | .responding _ _ reply => some reply
  | _ => none

inductive Effects (m : Shared) (pc : Pc) (n : Shared) (after : Pc) : Prop where
  | quiet (answers : n.answers = m.answers) (responses : n.responses = m.responses)
      (idle : request after = none) (empty : reply after = none)
  | requested (answers : n.answers = m.answers) (responses : n.responses = m.responses)
      (now : request after = some (m.order+1)) (empty : reply after = none)
  | answered (r : Reply) (asked : request pc = some r.requestAt)
      (answers : n.answers = r::m.answers) (responses : n.responses = m.responses)
      (idle : request after = none) (held : reply after = some r)
  | responded (c : SocketAddr) (r : Reply) (held : reply pc = some r)
      (answers : n.answers = m.answers) (responses : n.responses = (c,r)::m.responses)
      (idle : request after = none) (empty : reply after = none)

theorem advanceEffects {m n : Shared} {pc after : Pc} {move}
    (moved : advance m pc move = some (n,after)) : Effects m pc n after := by
  cases advanceTook moved with
  | @sent packet b id sent socket held =>
    by_cases some : 0 < sent
    · rw [if_pos some]
      exact .requested rfl rfl rfl rfl
    · rw [if_neg some]
      exact .quiet rfl rfl rfl rfl
  | answered held queue => exact .answered _ rfl rfl rfl rfl rfl
  | responded => exact .responded _ _ rfl rfl rfl rfl rfl
  | _ => exact .quiet rfl rfl rfl rfl

theorem advanceOrder {m n : Shared} {pc after : Pc} {move}
    (moved : advance m pc move = some (n,after)) : n.order = m.order := by
  cases advanceTook moved <;> rfl

theorem aroundFrame {timeout : Nat} {m n : Shared} {event}
    (moved : around timeout m event = some n) :
    n.answers = m.answers ∧ n.responses = m.responses ∧ n.order = m.order := by
  cases event with
  | retain u key =>
    obtain ⟨now,_,moved⟩ := Option.bind_eq_some_iff.mp moved
    cases Option.some.inj moved
    exact ⟨rfl,rfl,rfl⟩
  | arrive n =>
    obtain ⟨⟨id,d⟩,_,moved⟩ := Option.bind_eq_some_iff.mp moved
    obtain ⟨socket,_,moved⟩ := Option.bind_eq_some_iff.mp moved
    split at moved
    · cases Option.some.inj moved
      exact ⟨rfl,rfl,rfl⟩
    · cases Option.some.inj moved
      exact ⟨rfl,rfl,rfl⟩
  | _ => cases Option.some.inj moved; exact ⟨rfl,rfl,rfl⟩

structure Once (m : Shared) : Prop where
  apart : (known m).Nodup
  past : ∀ k ∈ known m, k ≤ m.order

structure Paired (m : Shared) (tasks : Nat → Pc) : Prop where
  requests : (m.answers.map Reply.requestAt).Nodup
  past : ∀ r ∈ m.answers, r.requestAt ≤ m.order
  unanswered : ∀ t k, request (tasks t) = some k → k ≤ m.order ∧ k ∉ m.answers.map Reply.requestAt
  asking : ∀ t u k, request (tasks t) = some k → request (tasks u) = some k → t = u
  unsent : ∀ t r, reply (tasks t) = some r → r ∈ m.answers ∧
    r.requestAt ∉ m.responses.map fun sent => sent.2.requestAt
  sending : ∀ t u r s, reply (tasks t) = some r → reply (tasks u) = some s →
    r.requestAt = s.requestAt → t = u
  sent : (m.responses.map fun sent => sent.2.requestAt).Nodup
  answers : ∀ sent ∈ m.responses, sent.2 ∈ m.answers

theorem onceFewer {m n : Shared} (once : Once m) (fewer : known n ≤ known m)
    (order : n.order = m.order) : Once (numbered n) where
  apart := Multiset.nodup_of_le fewer once.apart
  past := by
    intro k mem
    have before := once.past k (Multiset.mem_of_le fewer mem)
    change k ≤ n.order+1
    omega

theorem stepOnce {timeout : Nat} {w u : World} {label} (sound : SessionIsolation.Sound w.shared)
    (once : Once w.shared) (moved : step timeout w label = some u) : Once u.shared := by
  cases label with
  | task t move =>
    obtain ⟨⟨m,pc⟩,advanced,moved⟩ := Option.bind_eq_some_iff.mp moved
    cases Option.some.inj moved
    exact onceFewer once (advanceKnown sound advanced) (advanceOrder advanced)
  | around event =>
    obtain ⟨m,happened,moved⟩ := Option.bind_eq_some_iff.mp moved
    cases Option.some.inj moved
    obtain ⟨_,_,order⟩ := aroundFrame happened
    rcases aroundKnown sound happened with fewer | one
    · exact onceFewer once fewer order
    · have fresh : w.shared.order+1 ∉ known w.shared :=
        fun mem => absurd (once.past _ mem) (Nat.not_succ_le_self _)
      have same : known (numbered m) = (w.shared.order+1) ::ₘ known w.shared := one
      refine ⟨same ▸ Multiset.nodup_cons.mpr ⟨fresh,once.apart⟩,fun k mem => ?_⟩
      change k ≤ m.order+1
      rw [same] at mem
      rcases Multiset.mem_cons.mp mem with new | old
      · omega
      · have before := once.past k old
        omega

theorem updated {α : Type} (f : Pc → Option α) {tasks : Nat → Pc} {t u pc a}
    (found : f (Function.update tasks t pc u) = some a) :
    (u = t ∧ f pc = some a) ∨ u ≠ t ∧ f (tasks u) = some a := by
  by_cases same : u = t
  · subst same
    rw [Function.update_self] at found
    exact .inl ⟨rfl,found⟩
  · rw [Function.update_of_ne same] at found
    exact .inr ⟨same,found⟩

section paired
variable {m n : Shared} {tasks : Nat → Pc} {t : Nat} {pc : Pc} (paired : Paired m tasks)
  (order : n.order = m.order+1)
include paired order

theorem pairedAsks (answers : n.answers = m.answers) (responses : n.responses = m.responses)
    (asks : request pc = none ∨ request pc = some (m.order+1)) (empty : reply pc = none) :
    Paired n (Function.update tasks t pc) := by
  have fresh : m.order+1 ∉ m.answers.map Reply.requestAt := by
    intro mem
    obtain ⟨r,inside,same⟩ := List.mem_map.mp mem
    have before := paired.past r inside
    omega
  have asked : ∀ u k, request (Function.update tasks t pc u) = some k →
      (u = t ∧ k = m.order+1) ∨ u ≠ t ∧ request (tasks u) = some k := by
    intro u k found
    rcases updated request found with ⟨here,now⟩ | other
    · rcases asks with none | new
      · rw [none] at now
        contradiction
      · exact .inl ⟨here,Option.some.inj (now.symm.trans new)⟩
    · exact .inr other
  have held : ∀ u r, reply (Function.update tasks t pc u) = some r →
      reply (tasks u) = some r := by
    intro u r found
    rcases updated reply found with ⟨_,now⟩ | ⟨_,before⟩
    · rw [empty] at now
      contradiction
    · exact before
  refine ⟨answers ▸ paired.requests,?_,?_,?_,?_,?_,responses ▸ paired.sent,?_⟩
  · intro r mem
    have before := paired.past r (answers ▸ mem)
    omega
  · intro u k found
    rw [answers]
    rcases asked u k found with ⟨_,rfl⟩ | ⟨_,before⟩
    · exact ⟨order.ge,fresh⟩
    · obtain ⟨le,none⟩ := paired.unanswered u k before
      exact ⟨by omega,none⟩
  · intro u v k first second
    rcases asked u k first with ⟨here,same⟩ | ⟨_,early⟩
    · rcases asked v k second with ⟨there,_⟩ | ⟨_,late⟩
      · exact here.trans there.symm
      · have le := (paired.unanswered v k late).1
        omega
    · rcases asked v k second with ⟨_,same⟩ | ⟨_,late⟩
      · have le := (paired.unanswered u k early).1
        omega
      · exact paired.asking u v k early late
  · intro u r found
    rw [answers,responses]
    exact paired.unsent u r (held u r found)
  · exact fun u v r s first second => paired.sending u v r s (held u r first) (held v s second)
  · intro sent mem
    rw [answers]
    exact paired.answers sent (responses ▸ mem)

theorem pairedAnswers {r : Reply} (asked : request (tasks t) = some r.requestAt)
    (answers : n.answers = r::m.answers) (responses : n.responses = m.responses)
    (idle : request pc = none) (held : reply pc = some r) :
    Paired n (Function.update tasks t pc) := by
  obtain ⟨le,unanswered⟩ := paired.unanswered t _ asked
  have asks : ∀ u k, request (Function.update tasks t pc u) = some k →
      u ≠ t ∧ request (tasks u) = some k := by
    intro u k found
    rcases updated request found with ⟨_,now⟩ | other
    · rw [idle] at now
      contradiction
    · exact other
  have known : ∀ s ∈ m.answers, s.requestAt ≠ r.requestAt :=
    fun s mem same => unanswered (same ▸ List.mem_map_of_mem mem)
  have holds : ∀ u s, reply (Function.update tasks t pc u) = some s →
      (u = t ∧ s = r) ∨ reply (tasks u) = some s := by
    intro u s found
    rcases updated reply found with ⟨here,now⟩ | ⟨_,before⟩
    · exact .inl ⟨here,Option.some.inj (now.symm.trans held)⟩
    · exact .inr before
  refine ⟨?_,?_,?_,?_,?_,?_,responses ▸ paired.sent,?_⟩
  · rw [answers]
    exact List.nodup_cons.mpr ⟨unanswered,paired.requests⟩
  · intro s mem
    rw [answers] at mem
    rcases List.mem_cons.mp mem with rfl | before
    · omega
    · have past := paired.past s before
      omega
  · intro u k found
    obtain ⟨apart,before⟩ := asks u k found
    obtain ⟨past,none⟩ := paired.unanswered u k before
    refine ⟨by omega,?_⟩
    rw [answers]
    intro mem
    rcases List.mem_cons.mp mem with same | old
    · exact apart (paired.asking u t k before (asked.trans (congrArg some same.symm)))
    · exact none old
  · exact fun u v k first second => paired.asking u v k (asks u k first).2 (asks v k second).2
  · intro u s found
    rw [answers,responses]
    rcases holds u s found with ⟨_,rfl⟩ | before
    · refine ⟨List.mem_cons_self,fun mem => ?_⟩
      obtain ⟨sent,inside,same⟩ := List.mem_map.mp mem
      exact known _ (paired.answers sent inside) same
    · obtain ⟨mem,unsent⟩ := paired.unsent u s before
      exact ⟨List.mem_cons_of_mem r mem,unsent⟩
  · intro u v s q first second same
    rcases holds u s first with ⟨here,rfl⟩ | early
    · rcases holds v q second with ⟨there,_⟩ | late
      · exact here.trans there.symm
      · exact absurd same.symm (known q (paired.unsent v q late).1)
    · rcases holds v q second with ⟨_,rfl⟩ | late
      · exact absurd same (known s (paired.unsent u s early).1)
      · exact paired.sending u v s q early late same
  · intro sent mem
    rw [answers]
    exact List.mem_cons_of_mem r (paired.answers sent (responses ▸ mem))

theorem pairedResponds {c : SocketAddr} {r : Reply} (held : reply (tasks t) = some r)
    (answers : n.answers = m.answers) (responses : n.responses = (c,r)::m.responses)
    (idle : request pc = none) (empty : reply pc = none) :
    Paired n (Function.update tasks t pc) := by
  obtain ⟨inside,unsent⟩ := paired.unsent t r held
  have asks : ∀ u k, request (Function.update tasks t pc u) = some k →
      request (tasks u) = some k := by
    intro u k found
    rcases updated request found with ⟨_,now⟩ | ⟨_,before⟩
    · rw [idle] at now
      contradiction
    · exact before
  have holds : ∀ u s, reply (Function.update tasks t pc u) = some s →
      u ≠ t ∧ reply (tasks u) = some s := by
    intro u s found
    rcases updated reply found with ⟨_,now⟩ | other
    · rw [empty] at now
      contradiction
    · exact other
  refine ⟨answers ▸ paired.requests,?_,?_,?_,?_,?_,?_,?_⟩
  · intro s mem
    have past := paired.past s (answers ▸ mem)
    omega
  · intro u k found
    rw [answers]
    obtain ⟨past,none⟩ := paired.unanswered u k (asks u k found)
    exact ⟨by omega,none⟩
  · exact fun u v k first second => paired.asking u v k (asks u k first) (asks v k second)
  · intro u s found
    obtain ⟨apart,before⟩ := holds u s found
    obtain ⟨mem,unsent⟩ := paired.unsent u s before
    rw [answers,responses]
    refine ⟨mem,fun sent => ?_⟩
    rcases List.mem_cons.mp sent with same | old
    · exact apart (paired.sending u t s r before held same)
    · exact unsent old
  · exact fun u v s q first second => paired.sending u v s q (holds u s first).2 (holds v q second).2
  · rw [responses]
    exact List.nodup_cons.mpr ⟨unsent,paired.sent⟩
  · intro sent mem
    rw [answers]
    rw [responses] at mem
    rcases List.mem_cons.mp mem with rfl | old
    · exact inside
    · exact paired.answers sent old

end paired

theorem pairedLater {m n : Shared} {tasks : Nat → Pc} (paired : Paired m tasks)
    (order : m.order ≤ n.order) (answers : n.answers = m.answers)
    (responses : n.responses = m.responses) : Paired n tasks := by
  refine ⟨answers ▸ paired.requests,fun r mem => ?_,fun u k found => ?_,paired.asking,
    fun u r found => ?_,paired.sending,responses ▸ paired.sent,fun sent mem => ?_⟩
  · exact (paired.past r (answers ▸ mem)).trans order
  · obtain ⟨past,none⟩ := paired.unanswered u k found
    exact ⟨past.trans order,answers ▸ none⟩
  · rw [answers,responses]
    exact paired.unsent u r found
  · rw [answers]
    exact paired.answers sent (responses ▸ mem)

theorem stepPaired {timeout : Nat} {w u : World} {label} (paired : Paired w.shared w.tasks)
    (moved : step timeout w label = some u) : Paired u.shared u.tasks := by
  cases label with
  | task t move =>
    obtain ⟨⟨m,pc⟩,advanced,moved⟩ := Option.bind_eq_some_iff.mp moved
    cases Option.some.inj moved
    have order : (numbered m).order = w.shared.order+1 :=
      congrArg (· + 1) (advanceOrder advanced)
    cases advanceEffects advanced with
    | quiet answers responses idle empty =>
      exact pairedAsks paired order answers responses (.inl idle) empty
    | requested answers responses now empty =>
      exact pairedAsks paired order answers responses (.inr now) empty
    | answered r asked answers responses idle held =>
      exact pairedAnswers paired order asked answers responses idle held
    | responded c r held answers responses idle empty =>
      exact pairedResponds paired order held answers responses idle empty
  | around event =>
    obtain ⟨m,happened,moved⟩ := Option.bind_eq_some_iff.mp moved
    cases Option.some.inj moved
    obtain ⟨answers,responses,order⟩ := aroundFrame happened
    have later : w.shared.order ≤ (numbered m).order := order ▸ Nat.le_succ _
    exact pairedLater paired later answers responses

theorem startPaired : Paired start.shared start.tasks where
  requests := List.nodup_nil
  past := fun r mem => absurd mem List.not_mem_nil
  unanswered := fun t k found => by contradiction
  asking := fun t u k first second => by contradiction
  unsent := fun t r found => by contradiction
  sending := fun t u r s first second => by contradiction
  sent := List.nodup_nil
  answers := fun sent mem => absurd mem List.not_mem_nil

theorem reachableOnce {timeout : Nat} {w : World}
    (reach : Transition.Reachable (system timeout) w) :
    Once w.shared ∧ Paired w.shared w.tasks := by
  have all : SessionIsolation.Inv w ∧ Once w.shared ∧ Paired w.shared w.tasks := by
    refine Transition.invariant (fun w : World => SessionIsolation.Inv w ∧ Once w.shared ∧
      Paired w.shared w.tasks) ?_ ?_ reach
    · intro s begins
      have same : s = start := begins
      subst same
      have none : known start.shared = 0 := rfl
      exact ⟨SessionIsolation.startInv,⟨none ▸ Multiset.nodup_zero,fun k mem =>
        absurd (none ▸ mem) (Multiset.notMem_zero k)⟩,startPaired⟩
    · intro s label t inv moved
      exact ⟨SessionIsolation.stepInv inv.1 moved,stepOnce inv.1.shared inv.2.1 moved,
        stepPaired inv.2.2 moved⟩
  exact all.2

theorem queuedWaiting {m : Shared} (sound : SessionIsolation.Sound m) {id socket}
    (held : m.sockets id = some socket) {d} (mem : d ∈ socket.queue) : d.sentAt ∈ waiting m := by
  refine Multiset.mem_sum.mpr ⟨id,Finset.mem_range.mpr (boundInside sound held),?_⟩
  rw [queued,held]
  exact List.mem_map_of_mem mem

/- In every interleaving: two responses answer different requests and carry
different datagrams, and what has been delivered is on its way no longer and waits
in no socket. -/
theorem deliveredOnce {timeout : Nat} {w : World}
    (reach : Transition.Reachable (system timeout) w) :
    (w.shared.responses.map fun sent => sent.2.requestAt).Nodup ∧
    (w.shared.responses.map fun sent => sent.2.datagram.sentAt).Nodup ∧
    ∀ client reply, (client,reply) ∈ w.shared.responses →
      (∀ f ∈ w.shared.flight, f.2.sentAt ≠ reply.datagram.sentAt) ∧
      ∀ id socket, w.shared.sockets id = some socket →
        ∀ d ∈ socket.queue, d.sentAt ≠ reply.datagram.sentAt := by
  obtain ⟨once,paired⟩ := reachableOnce reach
  have sound := (SessionIsolation.reachableInv reach).shared
  obtain ⟨_,distinct,apart⟩ := Multiset.nodup_add.mp once.apart
  have distinct : (w.shared.answers.map fun r => r.datagram.sentAt).Nodup := by
    have plain : ((w.shared.answers.map Reply.datagram).map Datagram.sentAt).Nodup := distinct
    rwa [List.map_map] at plain
  refine ⟨paired.sent,?_,fun client reply sent => ?_⟩
  · have replies : (w.shared.responses.map Prod.snd).Nodup := by
      refine List.Nodup.of_map Reply.requestAt ?_
      rw [List.map_map]
      exact paired.sent
    have returned : ∀ r ∈ w.shared.responses.map Prod.snd, r ∈ w.shared.answers := by
      intro r mem
      obtain ⟨sent,inside,rfl⟩ := List.mem_map.mp mem
      exact paired.answers sent inside
    have images := replies.map_on fun r mem s other same =>
      List.inj_on_of_nodup_map distinct (returned r mem) (returned s other) same
    rwa [List.map_map] at images
  · have inside : reply.datagram.sentAt ∈ answered w.shared := by
      refine List.mem_map_of_mem (List.mem_map_of_mem ?_)
      exact paired.answers (client,reply) sent
    refine ⟨fun f mem same => ?_,fun id socket held d mem same => ?_⟩
    · have flies : f.2.sentAt ∈ flying w.shared := List.mem_map_of_mem (List.mem_map_of_mem mem)
      exact Multiset.disjoint_left.mp apart (Multiset.mem_add.mpr (.inl flies)) (same ▸ inside)
    · have waits := queuedWaiting sound held mem
      exact Multiset.disjoint_left.mp apart (Multiset.mem_add.mpr (.inr waits)) (same ▸ inside)

theorem raceOnce : ∃ w, run 30 start SessionIsolation.race = some w ∧
    w.shared.responses.length = 2 ∧
    (w.shared.responses.map fun sent => sent.2.requestAt).Nodup ∧
    (w.shared.responses.map fun sent => sent.2.datagram.sentAt).Nodup := by
  obtain ⟨w,ran,sent⟩ := Option.map_eq_some_iff.mp SessionIsolation.raceResponses
  have reach := Transition.runReachable (.init (S := system 30) (s := start) rfl) ran
  obtain ⟨requests,datagrams,_⟩ := deliveredOnce reach
  exact ⟨w,ran,by rw [sent]; rfl,requests,datagrams⟩

end UdpBalancer.SessionOnce
