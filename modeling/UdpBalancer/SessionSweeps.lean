import UdpBalancer.SessionStickiness

/-! What a run of `cleanup_expired` is good for. Once it has visited the sessions that
it found, no session in the map is idle any more, whatever else the tasks have done to
the map meanwhile, but for the inserts it overtook. -/
namespace UdpBalancer.SessionSweeps
open SessionManager

def Enters (w : World) (key : SessionKey) (session : Session) : Prop :=
  ∃ t packet backend, w.tasks t = .entering packet backend session ∧
    key = ⟨packet.srcAddr,backend⟩

/- What a step leaves in the map was there before, was stamped just now or is what a
task has entered. -/
inductive Origin (w : World) (key : SessionKey) (session : Session) : Prop where
  | kept (stored : w.shared.sessions key = some session)
  | stamped (now : session.lastActivity = w.shared.clock)
  | entered (enters : Enters w key session)

theorem touchOrigin {w : World} {key other : SessionKey} {session : Session}
    (stored : touch w.shared.sessions key w.shared.clock other = some session) :
    Origin w other session := by
  cases held : w.shared.sessions key with
  | none =>
    simp only [touch,held] at stored
    exact .kept stored
  | some old =>
    simp only [touch,held,Function.update_apply] at stored
    split at stored
    · cases Option.some.inj stored
      exact .stamped rfl
    · exact .kept stored

theorem entryOrigin {w : World} {t packet backend new} {other : SessionKey} {session : Session}
    (here : w.tasks t = .entering packet backend new)
    (stored : (entry w.shared.sessions ⟨packet.srcAddr,backend⟩ new w.shared.clock).1 other =
      some session) : Origin w other session := by
  unfold entry at stored
  split at stored
  · exact touchOrigin stored
  · simp only [Function.update_apply] at stored
    split at stored
    · rename_i same
      cases Option.some.inj stored
      exact .entered ⟨t,packet,backend,here,same⟩
    · exact .kept stored

theorem advanceOrigin {w : World} {t : Nat} {m : Shared} {after : Pc} {move key session}
    (moved : advance w.shared (w.tasks t) move = some (m,after))
    (stored : m.sessions key = some session) : Origin w key session := by
  have took := advanceTook moved
  generalize here : w.tasks t = pc at took
  cases took with
  | found held => exact touchOrigin stored
  | entered => exact entryOrigin here stored
  | _ => exact .kept stored

theorem aroundOrigin {timeout : Nat} {w : World} {m : Shared} {event key session}
    (moved : around timeout w.shared event = some m) (stored : m.sessions key = some session) :
    Origin w key session := by
  cases event with
  | updateActivity other =>
    cases Option.some.inj moved
    exact touchOrigin stored
  | retain u other =>
    obtain ⟨now,_,moved⟩ := Option.bind_eq_some_iff.mp moved
    cases Option.some.inj moved
    exact .kept (SessionIsolation.retainStored stored)
  | arrive n =>
    obtain ⟨⟨id,d⟩,_,moved⟩ := Option.bind_eq_some_iff.mp moved
    obtain ⟨socket,_,moved⟩ := Option.bind_eq_some_iff.mp moved
    split at moved
    · cases Option.some.inj moved
      exact .kept stored
    · cases Option.some.inj moved
      exact .kept stored
  | cleanup u => cases Option.some.inj moved; exact .kept stored
  | backendSend sender id payload => cases Option.some.inj moved; exact .kept stored
  | lose n => cases Option.some.inj moved; exact .kept stored
  | tick d => cases Option.some.inj moved; exact .kept stored

theorem stepOrigin {timeout : Nat} {w u : World} {label key session}
    (moved : step timeout w label = some u) (stored : u.shared.sessions key = some session) :
    Origin w key session := by
  cases label with
  | task t move =>
    obtain ⟨⟨m,pc⟩,advanced,moved⟩ := Option.bind_eq_some_iff.mp moved
    cases Option.some.inj moved
    exact advanceOrigin advanced stored
  | around event =>
    obtain ⟨m,happened,moved⟩ := Option.bind_eq_some_iff.mp moved
    cases Option.some.inj moved
    exact aroundOrigin happened stored

theorem stepEnters {timeout : Nat} {w u : World} {label key session}
    (moved : step timeout w label = some u) (enters : Enters u key session) :
    Enters w key session ∨ session.lastActivity = w.shared.clock := by
  obtain ⟨t,packet,backend,here,same⟩ := enters
  cases label with
  | around event =>
    obtain ⟨m,happened,moved⟩ := Option.bind_eq_some_iff.mp moved
    cases Option.some.inj moved
    exact .inl ⟨t,packet,backend,here,same⟩
  | task other move =>
    obtain ⟨⟨m,pc⟩,advanced,moved⟩ := Option.bind_eq_some_iff.mp moved
    cases Option.some.inj moved
    simp only [Function.update_apply] at here
    split at here
    · rename_i own
      have took := advanceTook advanced
      generalize w.tasks other = before at took
      subst here
      generalize after : Pc.entering packet backend session = pc at took
      cases took with
      | stamped =>
        cases after
        exact .inr rfl
      | sent held => split at after <;> contradiction
      | _ => contradiction
    · exact .inl ⟨t,packet,backend,here,same⟩

theorem advanceSweeps {m n : Shared} {pc after : Pc} {move}
    (moved : advance m pc move = some (n,after)) : n.sweeps = m.sweeps := by
  cases advanceTook moved <;> exact rfl

theorem stepSweeps {timeout : Nat} {w u : World} {label} {sweep : Nat}
    (moved : step timeout w label = some u) (other : label ≠ .around (.cleanup sweep)) :
    u.shared.sweeps sweep = w.shared.sweeps sweep := by
  cases label with
  | task t move =>
    obtain ⟨⟨m,pc⟩,advanced,moved⟩ := Option.bind_eq_some_iff.mp moved
    cases Option.some.inj moved
    exact congrFun (advanceSweeps advanced) sweep
  | around event =>
    obtain ⟨m,happened,moved⟩ := Option.bind_eq_some_iff.mp moved
    cases Option.some.inj moved
    cases event with
    | cleanup u =>
      cases Option.some.inj happened
      have apart : sweep ≠ u := fun same => other (same ▸ rfl)
      exact Function.update_of_ne apart _ _
    | retain u key =>
      obtain ⟨now,_,happened⟩ := Option.bind_eq_some_iff.mp happened
      cases Option.some.inj happened
      exact rfl
    | arrive n =>
      obtain ⟨⟨id,d⟩,_,happened⟩ := Option.bind_eq_some_iff.mp happened
      obtain ⟨socket,_,happened⟩ := Option.bind_eq_some_iff.mp happened
      split at happened
      · cases Option.some.inj happened
        exact rfl
      · cases Option.some.inj happened
        exact rfl
    | updateActivity key => cases Option.some.inj happened; exact rfl
    | backendSend sender id payload => cases Option.some.inj happened; exact rfl
    | lose n => cases Option.some.inj happened; exact rfl
    | tick d => cases Option.some.inj happened; exact rfl

theorem visitExactly {timeout now : Nat} {w u : World} {sweep : Nat} {key : SessionKey}
    (reads : w.shared.sweeps sweep = some now)
    (moved : step timeout w (.around (.retain sweep key)) = some u) {session : Session}
    (stored : w.shared.sessions key = some session) :
    u.shared.sessions key = if timeout < now-session.lastActivity then none else some session := by
  obtain ⟨m,happened,moved⟩ := Option.bind_eq_some_iff.mp moved
  cases Option.some.inj moved
  obtain ⟨read,found,happened⟩ := Option.bind_eq_some_iff.mp happened
  cases Option.some.inj happened
  cases Option.some.inj (reads.symm.trans found)
  show retain timeout now w.shared.sessions key key = _
  simp only [retain,stored]
  split
  · exact Function.update_self ..
  · exact stored

/- From the start of a sweep on. A session is recent by the clock that the sweep has
read, or it is one of those that waited to be entered then. -/
structure Sweep (timeout : Nat) (w : World) (sweep : Nat) (visited : SessionKey → Prop)
    (u : World) : Prop where
  later : w.shared.clock ≤ u.shared.clock
  reads : u.shared.sweeps sweep = some w.shared.clock
  entering : ∀ key session, Enters u key session →
    w.shared.clock ≤ session.lastActivity ∨ Enters w key session
  recent : ∀ key, visited key ∨ w.shared.sessions key = none → ∀ session,
    u.shared.sessions key = some session →
      w.shared.clock ≤ session.lastActivity+timeout ∨ Enters w key session

theorem sweepBegins {timeout : Nat} {w u : World} {sweep : Nat}
    (begins : step timeout w (.around (.cleanup sweep)) = some u) :
    Sweep timeout w sweep (fun _ => False) u := by
  cases Option.some.inj begins
  refine ⟨Nat.le_refl _,Function.update_self ..,fun key session enters => .inr enters,?_⟩
  intro key unknown session stored
  rcases unknown with visited | none
  · contradiction
  · have stored : w.shared.sessions key = some session := stored
    rw [none] at stored
    contradiction

theorem stepSweep {timeout : Nat} {w u v : World} {sweep : Nat} {visited : SessionKey → Prop}
    {label} (past : SessionStickiness.Past u) (inv : Sweep timeout w sweep visited u)
    (moved : step timeout u label = some v) (other : label ≠ .around (.cleanup sweep)) :
    Sweep timeout w sweep (fun key => visited key ∨ label = .around (.retain sweep key)) v where
  later := inv.later.trans (SessionStickiness.stepPast past moved).2.1
  reads := (stepSweeps moved other).trans inv.reads
  entering := by
    intro key session enters
    rcases stepEnters moved enters with before | now
    · exact inv.entering key session before
    · exact .inl (now ▸ inv.later)
  recent := by
    intro key known session stored
    have younger := inv.later
    cases stepOrigin moved stored with
    | stamped now => exact .inl (by omega)
    | entered enters =>
      rcases inv.entering key session enters with fresh | waited
      · exact .inl (fresh.trans (Nat.le_add_right _ _))
      · exact .inr waited
    | kept before =>
      rcases known with (visited | visits) | none
      · exact inv.recent key (.inl visited) session before
      · subst visits
        have left := visitExactly inv.reads moved before
        rw [stored] at left
        split at left
        · contradiction
        · exact .inl (by omega)
      · exact inv.recent key (.inr none) session before

theorem runSweep {timeout : Nat} {w u x : World} {sweep : Nat} {visited : SessionKey → Prop}
    {labels : List Label} (past : SessionStickiness.Past u)
    (inv : Sweep timeout w sweep visited u) (ran : run timeout u labels = some x)
    (other : .around (.cleanup sweep) ∉ labels) : Sweep timeout w sweep
      (fun key => visited key ∨ .around (.retain sweep key) ∈ labels) x := by
  induction labels generalizing u visited with
  | nil =>
    cases Option.some.inj ran
    refine ⟨inv.later,inv.reads,inv.entering,fun key known => inv.recent key ?_⟩
    rcases known with (visited | visits) | none
    · exact .inl visited
    · contradiction
    · exact .inr none
  | cons label rest ih =>
    obtain ⟨v,moved,later⟩ := Option.bind_eq_some_iff.mp ran
    simp only [List.mem_cons,not_or] at other
    have next := stepSweep past inv moved (Ne.symm other.1)
    have last := ih (SessionStickiness.stepPast past moved).1 next later other.2
    refine ⟨last.later,last.reads,last.entering,fun key known => last.recent key ?_⟩
    rcases known with (visited | visits) | none
    · exact .inl (.inl (.inl visited))
    · rcases List.mem_cons.mp visits with now | afterwards
      · exact .inl (.inl (.inr now.symm))
      · exact .inl (.inr afterwards)
    · exact .inr none

theorem sweepLeavesRecent {timeout : Nat} {w u x : World} {sweep : Nat} {labels : List Label}
    (reach : Transition.Reachable (system timeout) w)
    (begins : step timeout w (.around (.cleanup sweep)) = some u)
    (ran : run timeout u labels = some x) (other : .around (.cleanup sweep) ∉ labels) :
    (∀ before key after y z session, labels = before ++ .around (.retain sweep key)::after →
      run timeout u before = some y → step timeout y (.around (.retain sweep key)) = some z →
      y.shared.sessions key = some session →
      (z.shared.sessions key = none ↔ session.lastActivity+timeout < w.shared.clock)) ∧
    ((∀ key session, w.shared.sessions key = some session →
        .around (.retain sweep key) ∈ labels) →
      ∀ key session, x.shared.sessions key = some session →
        w.shared.clock ≤ session.lastActivity+timeout ∨ Enters w key session) := by
  have past := (SessionStickiness.stepPast (SessionStickiness.reachablePast reach) begins).1
  have start := sweepBegins begins
  constructor
  · rintro before key after y z session rfl early visits stored
    have untouched : .around (.cleanup sweep) ∉ before :=
      fun mem => other (List.mem_append_left _ mem)
    have left := visitExactly (runSweep past start early untouched).reads visits stored
    rw [left]
    split
    · exact ⟨fun _ => by omega,fun _ => rfl⟩
    · exact ⟨fun none => by contradiction,fun idle => by omega⟩
  · intro whole key session stored
    refine (runSweep past start ran other).recent key ?_ session stored
    cases found : w.shared.sessions key with
    | none => exact .inr rfl
    | some held => exact .inl (.inr (whole key held found))

def idle : List Label := steps 0 [.packet (query 5000),.choose (some server),.lookup,
    .bind true,.connect true,.stamp,.enter] ++
  steps 1 [.packet (query 6000),.choose (some server),.lookup,.bind true,.connect true,.stamp] ++
  [.around (.tick 31)]

def visit : List Label := .around (.retain 0 ⟨client 5000,server⟩)::steps 1 [.enter]

theorem idleSessions : (run 30 start idle).map (fun w => w.shared.sessions) =
    some (Function.update (fun _ => none) ⟨client 5000,server⟩ (some ⟨server,0,0⟩)) := by
  rfl

theorem visitSessions : ((run 30 start idle).bind fun w => (step 30 w (.around (.cleanup 0))).bind
    fun u => (run 30 u visit).map fun x => (x.shared.sessions ⟨client 5000,server⟩,
      x.shared.sessions ⟨client 6000,server⟩)) = some (none,some ⟨server,1,0⟩) := by
  decide +kernel

theorem overtakenStays : ∃ w u x, run 30 start idle = some w ∧
    step 30 w (.around (.cleanup 0)) = some u ∧ run 30 u visit = some x ∧
    x.shared.sessions ⟨client 5000,server⟩ = none ∧
    x.shared.sessions ⟨client 6000,server⟩ = some ⟨server,1,0⟩ ∧
    ∀ key session, x.shared.sessions key = some session →
      w.shared.clock ≤ session.lastActivity+30 ∨ Enters w key session := by
  obtain ⟨w,idles,stored⟩ := Option.map_eq_some_iff.mp idleSessions
  obtain ⟨w',idles',visits⟩ := Option.bind_eq_some_iff.mp visitSessions
  cases Option.some.inj (idles.symm.trans idles')
  obtain ⟨u,begins,visits⟩ := Option.bind_eq_some_iff.mp visits
  obtain ⟨x,visits,left⟩ := Option.map_eq_some_iff.mp visits
  obtain ⟨gone,stays⟩ := Prod.mk.inj left
  have reach := Transition.runReachable (.init (S := system 30) (s := start) rfl) idles
  refine ⟨w,u,x,idles,begins,visits,gone,stays,?_⟩
  refine (sweepLeavesRecent reach begins visits (by decide)).2 fun key session held => ?_
  rw [stored,Function.update_apply] at held
  split at held
  · rename_i same
    exact same ▸ List.mem_cons_self
  · contradiction

end UdpBalancer.SessionSweeps
