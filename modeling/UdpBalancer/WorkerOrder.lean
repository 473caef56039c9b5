import UdpBalancer.HeadOfLine
import UdpBalancer.SessionOnce

/-! What a worker owes its clients: it takes the datagrams in the order in which they came,
answers each at most once and in that order, and works off its queue in a bounded number
of steps whatever the backends do. That `Algorithm::next` returns is one of these steps,
and whether it does is not for the worker to say. -/
namespace UdpBalancer.WorkerOrder
open Backends (Bytes SocketAddr)
open SessionManager (Packet Pc Move advance numbered Took advanceTook)
open ListenerWorker

variable {l : Listener}

abbrev Arrival := SocketAddr × Bytes

def arrivals (k : Fin l.workers) (labels : List (Label l)) : List Arrival :=
  labels.filterMap fun label => match label with
    | .deliver j client payload => if j = k then some (client,payload) else none
    | _ => none

def responds (w : World l) : Label l → Option (Fin l.workers × Packet)
  | .worker k (.move (.respond true)) => match (w.workers k).phase with
    | .handling _ (.responding packet _ _) => some (k,packet)
    | _ => none
  | _ => none

def responses (w : World l) : List (Label l) → List (Fin l.workers × Packet)
  | [] => []
  | label::rest =>
    (responds w label).toList ++ ((step l w label).map (responses · rest)).getD []

def responsesOf (k : Fin l.workers) (sent : List (Fin l.workers × Packet)) : List Packet :=
  (sent.filter fun response => response.1 = k).map Prod.snd

def packets (l : Listener) (taken : List Arrival) : List Packet :=
  (taken.filter fun arrival => arrival.2 ≠ []).map fun arrival => ⟨arrival.1,l.address,arrival.2⟩

def packetOf : Pc → Option Packet
  | .idle | .done => none
  | .forwarding packet | .looking packet _ | .binding packet _ | .connecting packet _ _
  | .stamping packet _ _ | .entering packet _ _ | .sending packet _ _ | .awaiting packet _ _ _
  | .responding packet _ _ => some packet

def unanswered (worker : Worker) : List Packet :=
  match worker.phase with
  | .handling _ pc => (packetOf pc).toList
  | _ => []

theorem packetKept {m n : SessionManager.Shared} {pc after : Pc} {move : Move}
    (busy : pc ≠ .idle) (took : Took m pc move n after) :
    packetOf after = packetOf pc ∨ packetOf after = none := by
  cases took with
  | arrived => exact absurd rfl busy
  | @sent packet b id n socket held =>
    split
    · exact .inl rfl
    · exact .inr rfl
  | _ => first | exact .inl rfl | exact .inr rfl

structure Pays (l : Listener) (w after : Worker) (came : List Arrival) (sent : List Packet) :
    Prop where
  pays : ∃ taken, w.queue ++ came = taken ++ after.queue ∧
    (sent ++ unanswered after).Sublist (unanswered w ++ packets l taken)

theorem paysQuiet {w after : Worker} (queue : after.queue = w.queue)
    (debt : (unanswered after).Sublist (unanswered w)) : Pays l w after [] [] where
  pays := by
    refine ⟨[],by rw [queue,List.append_nil,List.nil_append],?_⟩
    rw [List.nil_append]
    exact debt.trans (List.sublist_append_left _ _)

theorem movedPays {m n : SessionManager.Shared} {w : Worker} {k : Fin l.workers}
    {packet : Packet} {pc after : Pc} {move : Move} {v : World l} (here : v.workers k = w)
    (handles : w.phase = .handling packet pc) (busy : pc ≠ .idle)
    (took : Took m pc move n after) : Pays l w ⟨w.queue,.handling packet after⟩ []
      (responsesOf k (responds v (.worker k (.move move))).toList) := by
  have debt : unanswered w = (packetOf pc).toList := by rw [unanswered,handles]
  have later : unanswered ⟨w.queue,.handling packet after⟩ = (packetOf after).toList := rfl
  by_cases answers : move = .respond true
  · subst answers
    cases took with
    | @responded packet b reply =>
      have sent : responds v (.worker k (.move (.respond true))) = some (k,packet) := by
        rw [responds,here,handles]
      refine ⟨[],by rw [List.append_nil]; exact rfl,?_⟩
      rw [sent,debt,later]
      simp [responsesOf,packetOf]
  · have silent : responds v (.worker k (.move move)) = none := by
      unfold responds
      split
      · next same => cases same; exact absurd rfl answers
      · exact rfl
    rw [silent]
    refine paysQuiet rfl ?_
    rw [debt,later]
    rcases packetKept busy took with same | none
    · rw [same]
    · rw [none]
      exact List.nil_sublist _

theorem didPays {w : World l} {k : Fin l.workers} {a : Act} {m : SessionManager.Shared}
    {after : Worker}
    (busy : ∀ packet pc, (w.workers k).phase = .handling packet pc → pc ≠ .idle)
    (did : Did (l := l) w.shared (w.workers k) a m after) :
    Pays l (w.workers k) after [] (responsesOf k (responds w (.worker k a)).toList) := by
  cases did with
  | @skipped client rest selects queue =>
    exact ⟨[(client,[])],by rw [queue,List.append_nil]; exact rfl,List.nil_sublist _⟩
  | @received client payload rest selects queue filled =>
    refine ⟨[(client,payload)],by rw [queue,List.append_nil]; exact rfl,?_⟩
    rw [unanswered,unanswered,selects]
    simp [packets,filled,responds,responsesOf,packetOf]
  | moved handles advanced =>
    exact movedPays rfl handles (busy _ _ handles) (advanceTook advanced)
  | logged selects => exact paysQuiet rfl (List.Sublist.refl _)
  | finished handles => exact paysQuiet rfl (List.nil_sublist _)
  | mirrored mirrors => exact paysQuiet rfl (List.nil_sublist _)
  | returned mirrors => exact paysQuiet rfl (List.nil_sublist _)
  | stopped selects => exact paysQuiet rfl (List.nil_sublist _)

def Busy (w : World l) : Prop :=
  ∀ k packet pc, (w.workers k).phase = .handling packet pc → pc ≠ .idle

theorem stepBusy {w u : World l} (busy : Busy w) {label : Label l}
    (moved : step l w label = some u) : Busy u := by
  intro j packet pc handles
  cases label with
  | deliver k client payload =>
    cases Option.some.inj moved
    simp only [Function.update_apply] at handles
    split at handles
    · next same => exact busy k packet pc handles
    · exact busy j packet pc handles
  | around event =>
    obtain ⟨m,_,moved⟩ := Option.bind_eq_some_iff.mp moved
    cases Option.some.inj moved
    exact busy j packet pc handles
  | worker k a =>
    obtain ⟨m,after,did,rfl⟩ := workerStepped moved
    simp only [Function.update_apply] at handles
    split at handles
    · cases did with
      | received selects queue filled =>
        cases handles
        exact Pc.noConfusion
      | moved _ advanced =>
        cases handles
        exact neverIdle advanced
      | logged selects => exact busy k packet pc handles
      | _ => contradiction
    · exact busy j packet pc handles

theorem startBusy : Busy (start l) := by
  intro k packet pc handles
  cases handles

theorem stepPays {w u : World l} (busy : Busy w) {label : Label l}
    (moved : step l w label = some u) (k : Fin l.workers) :
    Pays l (w.workers k) (u.workers k) (arrivals k [label])
      (responsesOf k (responds w label).toList) := by
  cases label with
  | deliver j client payload =>
    cases Option.some.inj moved
    by_cases same : k = j
    · subst same
      have came : arrivals k [Label.deliver (l := l) k client payload] = [(client,payload)] := by
        simp [arrivals]
      simp only [came,Function.update_self]
      exact ⟨[],rfl,List.sublist_append_left _ _⟩
    · have came : arrivals k [Label.deliver (l := l) j client payload] = [] := by
        simp [arrivals,Ne.symm same]
      simp only [came,Function.update_of_ne same]
      exact paysQuiet rfl (List.Sublist.refl _)
  | around event =>
    obtain ⟨m,_,moved⟩ := Option.bind_eq_some_iff.mp moved
    cases Option.some.inj moved
    exact paysQuiet rfl (List.Sublist.refl _)
  | worker j a =>
    obtain ⟨m,after,did,rfl⟩ := workerStepped moved
    by_cases same : k = j
    · subst same
      simp only [Function.update_self]
      exact didPays (busy k) did
    · have silent : responsesOf k (responds w (.worker j a)).toList = [] := by
        unfold responds
        split
        · next i same_worker =>
          cases same_worker
          split
          · simp [responsesOf,Ne.symm same]
          · exact rfl
        · exact rfl
      rw [silent]
      simp only [Function.update_of_ne same]
      exact paysQuiet rfl (List.Sublist.refl _)

theorem responsesAppend (k : Fin l.workers) (one two : List (Fin l.workers × Packet)) :
    responsesOf k (one ++ two) = responsesOf k one ++ responsesOf k two := by
  rw [responsesOf,List.filter_append,List.map_append]
  exact rfl

theorem packetsAppend (one two : List Arrival) :
    packets l (one ++ two) = packets l one ++ packets l two := by
  rw [packets,List.filter_append,List.map_append]
  exact rfl

theorem runPays {w u : World l} (busy : Busy w) {labels : List (Label l)}
    (ran : labels.foldlM (step l) w = some u) (k : Fin l.workers) :
    Pays l (w.workers k) (u.workers k) (arrivals k labels)
      (responsesOf k (responses w labels)) := by
  induction labels generalizing w with
  | nil =>
    cases Option.some.inj ran
    exact paysQuiet rfl (List.Sublist.refl _)
  | cons label rest ih =>
    obtain ⟨v,moved,later⟩ := Option.bind_eq_some_iff.mp ran
    obtain ⟨early,queue,first⟩ := (stepPays busy moved k).pays
    obtain ⟨late,queues,second⟩ := (ih (stepBusy busy moved) later).pays
    have came : arrivals k (label::rest) = arrivals k [label] ++ arrivals k rest :=
      List.filterMap_append (l := [label])
    have sent : responsesOf k (responses w (label::rest)) =
        responsesOf k (responds w label).toList ++ responsesOf k (responses v rest) := by
      rw [responses,moved,responsesAppend]
      exact rfl
    refine ⟨early ++ late,?_,?_⟩
    · rw [came,← List.append_assoc,queue,List.append_assoc,queues,List.append_assoc]
    · rw [sent,packetsAppend]
      have now := second.append_left (responsesOf k (responds w label).toList)
      have before := first.append_right (packets l late)
      simp only [List.append_assoc] at now before ⊢
      exact now.trans before

theorem movedSends {m n : SessionManager.Shared} {k : Fin l.workers} {packet : Packet}
    {pc after : Pc} {move : Move} {w : World l}
    (handles : (w.workers k).phase = .handling packet pc)
    (took : Took m pc move n after) : n.responses.map Prod.fst =
      ((responds w (.worker k (.move move))).toList.map fun sent => sent.2.srcAddr) ++
        m.responses.map Prod.fst := by
  cases took with
  | responded =>
    rw [responds,handles]
    exact rfl
  | _ => exact rfl

theorem stepSends {w u : World l} {label : Label l} (moved : step l w label = some u) :
    u.shared.responses.map Prod.fst =
      ((responds w label).toList.map fun sent => sent.2.srcAddr) ++
        w.shared.responses.map Prod.fst := by
  cases label with
  | deliver k client payload =>
    cases Option.some.inj moved
    exact rfl
  | around event =>
    obtain ⟨m,happened,moved⟩ := Option.bind_eq_some_iff.mp moved
    cases Option.some.inj moved
    exact congrArg (List.map Prod.fst) (SessionOnce.aroundFrame happened).2.1
  | worker k a =>
    obtain ⟨m,after,did,rfl⟩ := workerStepped moved
    cases did with
    | moved handles advanced =>
      have sends := movedSends handles (advanceTook advanced)
      exact sends
    | _ => exact rfl

theorem runSends {w u : World l} {labels : List (Label l)}
    (ran : labels.foldlM (step l) w = some u) : u.shared.responses.map Prod.fst =
      ((responses w labels).map fun sent => sent.2.srcAddr).reverse ++
        w.shared.responses.map Prod.fst := by
  induction labels generalizing w with
  | nil =>
    cases Option.some.inj ran
    exact rfl
  | cons label rest ih =>
    obtain ⟨v,moved,later⟩ := Option.bind_eq_some_iff.mp ran
    have sent : responses w (label::rest) = (responds w label).toList ++ responses v rest := by
      rw [responses,moved]
      exact rfl
    rw [ih later,stepSends moved,sent,List.map_append,List.reverse_append,List.append_assoc]
    cases responds w label <;> exact rfl

/- Every datagram that came in for a worker has been taken, in order, or is still queued;
the worker's responses answer some of those taken, in their order and each once; and
there are no other responses. -/
theorem workersInOrder {labels : List (Label l)} {w : World l}
    (ran : labels.foldlM (step l) (start l) = some w) :
    (∀ k, ∃ taken, arrivals k labels = taken ++ (w.workers k).queue ∧
      (responsesOf k (responses (start l) labels)).Sublist (packets l taken)) ∧
    w.shared.responses.map Prod.fst =
      ((responses (start l) labels).map fun sent => sent.2.srcAddr).reverse := by
  refine ⟨fun k => ?_,(runSends ran).trans (List.append_nil _)⟩
  obtain ⟨taken,queue,debt⟩ := (runPays startBusy ran k).pays
  exact ⟨taken,queue,(List.sublist_append_left _ _).trans debt⟩

def asked : List (Label single) :=
  [Move.choose (some SessionManager.server),.lookup,.bind true,.connect true,.stamp,.enter,
    .send (some 1)].map fun move => .worker only (.move move)

def lateAnswer : List (Label single) :=
  [.deliver only (SessionManager.client 5000) [1],.deliver only (SessionManager.client 6000) [2],
    .worker only .receive] ++
  asked ++ [.worker only (.move .expire),.worker only .finish,.worker only .mirror,
    .worker only .receive] ++
  asked ++ [.around (.backendSend SessionManager.server 1 [8]),.around (.arrive 0),
    .worker only (.move .recv),.worker only (.move (.respond true))]

theorem lateAnswered : (lateAnswer.foldlM (step single) (start single)).map
    (fun w => (w.workers only).queue) = some [] ∧
    responsesOf only (responses (start single) lateAnswer) =
      [⟨SessionManager.client 6000,single.address,[2]⟩] := by
  decide +kernel

theorem lateInOrder : ∃ taken, arrivals only lateAnswer = taken ++ [] ∧
    [(⟨SessionManager.client 6000,single.address,[2]⟩ : Packet)].Sublist (packets single taken) := by
  obtain ⟨ran,answered⟩ := lateAnswered
  obtain ⟨w,ran,queue⟩ := Option.map_eq_some_iff.mp ran
  obtain ⟨taken,came,sent⟩ := (workersInOrder ran).1 only
  exact ⟨taken,queue ▸ came,answered ▸ sent⟩

def pcWork : Pc → Nat
  | .idle | .done => 0
  | .forwarding _ => 9
  | .looking _ _ => 8
  | .binding _ _ => 7
  | .connecting _ _ _ => 6
  | .stamping _ _ _ => 5
  | .entering _ _ _ => 4
  | .sending _ _ _ => 3
  | .awaiting _ _ _ _ => 2
  | .responding _ _ _ => 1

def phaseWork (l : Listener) : Phase → Nat
  | .selecting | .stopped => 0
  | .handling _ pc => pcWork pc+l.mirrors+2
  | .mirroring _ left => left+1

def share (l : Listener) : Nat := l.mirrors+12

def work (l : Listener) (worker : Worker) : Nat :=
  worker.queue.length*share l+phaseWork l worker.phase

def works : Act → Bool
  | .receiveError | .shutdown => false
  | _ => true

def worksAt (k : Fin l.workers) : Label l → Bool
  | .worker j a => decide (j = k) && works a
  | _ => false

theorem movedWork {m n : SessionManager.Shared} {pc after : Pc} {move : Move} (busy : pc ≠ .idle)
    (took : Took m pc move n after) : pcWork after+1 ≤ pcWork pc := by
  cases took with
  | arrived => exact absurd rfl busy
  | sent held =>
    split
    · exact Nat.le_refl _
    · exact Nat.le_add_left _ _
  | _ => simp [pcWork]

theorem didWork {m n : SessionManager.Shared} {w after : Worker} {a : Act}
    (busy : ∀ packet pc, w.phase = .handling packet pc → pc ≠ .idle)
    (did : Did (l := l) m w a n after) :
    work l after+(if works a then 1 else 0) ≤ work l w := by
  unfold work
  cases did with
  | skipped selects queue =>
    rw [queue,selects,List.length_cons,Nat.add_mul]
    simp only [works,phaseWork,share,if_true]
    omega
  | received selects queue filled =>
    rw [queue,selects,List.length_cons,Nat.add_mul]
    simp only [works,phaseWork,pcWork,share,if_true]
    omega
  | logged selects => exact le_refl _
  | moved handles advanced =>
    have less := movedWork (busy _ _ handles) (advanceTook advanced)
    rw [handles]
    simp only [works,phaseWork,if_true]
    omega
  | finished handles =>
    rw [handles]
    simp only [works,phaseWork,pcWork,if_true]
    omega
  | mirrored mirrors =>
    rw [mirrors]
    simp only [works,phaseWork,if_true]
    omega
  | returned mirrors =>
    rw [mirrors]
    simp only [works,phaseWork,if_true]
    omega
  | stopped selects =>
    rw [selects]
    simp [works,phaseWork]

theorem stepWork {w u : World l} (busy : Busy w) {label : Label l}
    (moved : step l w label = some u) (k : Fin l.workers) :
    work l (u.workers k)+(if worksAt k label then 1 else 0) ≤
      work l (w.workers k)+(arrivals k [label]).length*share l := by
  cases label with
  | deliver j client payload =>
    cases Option.some.inj moved
    by_cases same : k = j
    · subst same
      have came : arrivals k [Label.deliver (l := l) k client payload] = [(client,payload)] := by
        simp [arrivals]
      simp only [came,Function.update_self,work,worksAt,List.length_append,List.length_singleton,
        Nat.add_mul]
      simp
      omega
    · simp only [Function.update_of_ne same]
      exact Nat.le_add_right _ _
  | around event =>
    obtain ⟨m,_,moved⟩ := Option.bind_eq_some_iff.mp moved
    cases Option.some.inj moved
    exact Nat.le_add_right _ _
  | worker j a =>
    obtain ⟨m,after,did,rfl⟩ := workerStepped moved
    have none : arrivals k [Label.worker (l := l) j a] = [] := rfl
    rw [none,List.length_nil,Nat.zero_mul,Nat.add_zero]
    by_cases same : k = j
    · subst same
      have paid := didWork (busy k) did
      simpa only [Function.update_self,worksAt,decide_true,Bool.true_and] using paid
    · simp [Function.update_of_ne same,worksAt,Ne.symm same]

theorem runWork {w u : World l} (busy : Busy w) {labels : List (Label l)}
    (ran : labels.foldlM (step l) w = some u) (k : Fin l.workers) :
    work l (u.workers k)+labels.countP (worksAt k) ≤
      work l (w.workers k)+(arrivals k labels).length*share l := by
  induction labels generalizing w with
  | nil =>
    cases Option.some.inj ran
    exact Nat.le_add_right _ _
  | cons label rest ih =>
    obtain ⟨v,moved,later⟩ := Option.bind_eq_some_iff.mp ran
    have first := stepWork busy moved k
    have others := ih (stepBusy busy moved) later
    have came : arrivals k (label::rest) = arrivals k [label] ++ arrivals k rest :=
      List.filterMap_append (l := [label])
    rw [came,List.length_append,Nat.add_mul,List.countP_cons]
    omega

theorem workerWorks {w : World l} (reach : Transition.Reachable (system l) w) {k : Fin l.workers}
    (queued : (w.workers k).queue ≠ []) (running : (w.workers k).phase ≠ .stopped) :
    ∃ a, works a = true ∧ Enabled w k a := by
  cases ready : (w.workers k).phase.awaits with
  | true =>
    obtain ⟨packet,sent,b,id,requestAt,phase⟩ := awaitsPhase ready
    exact ⟨.move .expire,rfl,_,by simp only [act,phase]; exact rfl⟩
  | false =>
    obtain ⟨a,advances,enabled⟩ := workerAdvances reach queued running ready
    refine ⟨a,?_,enabled⟩
    cases a with
    | receiveError => exact advances.elim
    | shutdown => exact advances.elim
    | _ => exact rfl

def Choosing : Phase → Prop
  | .handling _ (.forwarding _) => True
  | _ => False

def chooses : Act → Bool
  | .move (.choose _) => true
  | _ => false

theorem choosingReturns {w : World l} {k : Fin l.workers} (choosing : Choosing (w.workers k).phase)
    (pick : Option SocketAddr) : Enabled w k (.move (.choose pick)) := by
  unfold Choosing at choosing
  split at choosing
  · rename_i phase
    cases pick with
    | none => exact ⟨_,by simp only [act,phase]; exact rfl⟩
    | some b => exact ⟨_,by simp only [act,phase]; exact rfl⟩
  · contradiction

theorem enabledChoosing {w : World l} {k : Fin l.workers} {a : Act} (enabled : Enabled w k a)
    (chosen : chooses a = true) : Choosing (w.workers k).phase := by
  obtain ⟨⟨m,after⟩,done⟩ := enabled
  cases actDid done with
  | moved handles moved =>
    rw [handles]
    cases advanceTook moved with
    | unchosen => exact trivial
    | chosen => exact trivial
    | _ => contradiction
  | _ => contradiction

theorem reachableBusy {w : World l} (reach : Transition.Reachable (system l) w) : Busy w := by
  refine Transition.invariant Busy ?_ (fun _ _ _ busy moved => stepBusy busy moved) reach
  intro s begins
  have same : s = start l := begins
  exact same ▸ startBusy

/- The steps that a worker takes are bounded by what it had to do and what came in. While
a datagram is queued and the worker was not shut down, it stands in `Algorithm::next`,
from where it goes on as soon as that returns, or has a step that does not call it. -/
theorem workersDrain {w u : World l} {labels : List (Label l)}
    (reach : Transition.Reachable (system l) w) (ran : labels.foldlM (step l) w = some u)
    (k : Fin l.workers) :
    labels.countP (worksAt k) ≤ work l (w.workers k)+(arrivals k labels).length*share l ∧
    ((u.workers k).queue ≠ [] → (u.workers k).phase ≠ .stopped →
      (Choosing (u.workers k).phase ∧ ∀ pick, Enabled u k (.move (.choose pick))) ∨
      ∃ a, works a = true ∧ chooses a = false ∧ Enabled u k a) := by
  have bound := runWork (reachableBusy reach) ran k
  refine ⟨by omega,fun queued running => ?_⟩
  obtain ⟨a,worked,enabled⟩ := workerWorks (Transition.runReachable reach ran) queued running
  cases chosen : chooses a with
  | true =>
    have choosing := enabledChoosing enabled chosen
    exact .inl ⟨choosing,choosingReturns choosing⟩
  | false => exact .inr ⟨a,worked,chosen,enabled⟩

theorem syslogDrains : ∃ w, syslog.foldlM (step single) (start single) = some w ∧
    syslog.countP (worksAt only) ≤ work single ((start single).workers only) +
      (arrivals only syslog).length*share single ∧
    ∃ a, works a = true ∧ chooses a = false ∧ Enabled w only a := by
  obtain ⟨w,ran,same⟩ := Option.map_eq_some_iff.mp syslogWorker
  obtain ⟨worker,_⟩ := Prod.mk.inj same
  obtain ⟨bound,drains⟩ := workersDrain (.init (S := system single) rfl) ran only
  have queued : (w.workers only).queue ≠ [] := by
    rw [worker]
    exact List.cons_ne_nil _ _
  have running : (w.workers only).phase ≠ .stopped := by
    rw [worker]
    exact Phase.noConfusion
  rcases drains queued running with ⟨choosing,_⟩ | steps
  · rw [worker] at choosing
    exact absurd choosing not_false
  · exact ⟨w,ran,bound,steps⟩

end UdpBalancer.WorkerOrder
