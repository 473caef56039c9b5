import UdpBalancer.SessionIsolation

/-! A session keeps its socket until the clock has left its last activity more
than the timeout behind. No step lowers a stored stamp, no cleanup reads a clock
of the future, and an insert finds an occupied entry as it is. -/
namespace UdpBalancer.SessionStickiness
open Backends (SocketAddr)
open SessionManager SessionIsolation

structure Timed (m : Shared) : Prop where
  sweeps : ∀ u now, m.sweeps u = some now → now ≤ m.clock
  stamps : ∀ key session, m.sessions key = some session → session.lastActivity ≤ m.clock

def PcTimed (clock : Nat) : Pc → Prop
  | .entering _ _ new => new.lastActivity ≤ clock
  | _ => True

structure Past (w : World) : Prop where
  shared : Timed w.shared
  tasks : ∀ t, PcTimed w.shared.clock (w.tasks t)

/- A session after a step: there with its socket and no older stamp, or removed
when it had expired. -/
def Lives (timeout clock : Nat) (s t : Sessions) : Prop :=
  ∀ key session, s key = some session →
    (∃ later, t key = some later ∧ later.socket = session.socket ∧
      session.lastActivity ≤ later.lastActivity) ∨
    t key = none ∧ session.lastActivity+timeout < clock

theorem livesRefl {timeout clock : Nat} (s : Sessions) : Lives timeout clock s s :=
  fun _ session stored => .inl ⟨session,stored,rfl,Nat.le_refl _⟩

theorem touchLives {timeout : Nat} {m : Shared} (timed : Timed m) (key : SessionKey) :
    Lives timeout m.clock m.sessions (touch m.sessions key m.clock) := by
  intro other session stored
  by_cases same : other = key
  · subst same
    refine .inl ⟨{session with lastActivity := m.clock},?_,rfl,timed.stamps _ _ stored⟩
    simp only [touch,stored,Function.update_self]
  · refine .inl ⟨session,?_,rfl,Nat.le_refl _⟩
    cases held : m.sessions key with
    | none => simp only [touch,held,stored]
    | some old => simp only [touch,held,Function.update_of_ne same,stored]

theorem entryLives {timeout : Nat} {m : Shared} (timed : Timed m) (key : SessionKey)
    (new : Session) : Lives timeout m.clock m.sessions (entry m.sessions key new m.clock).1 := by
  unfold entry
  split
  · exact touchLives timed key
  · rename_i vacant
    intro other session stored
    have apart : other ≠ key := by
      intro same
      rw [same,vacant] at stored
      contradiction
    exact .inl ⟨session,(Function.update_of_ne apart _ _).trans stored,rfl,Nat.le_refl _⟩

theorem retainLives {timeout now clock : Nat} (read : now ≤ clock) (s : Sessions)
    (key : SessionKey) : Lives timeout clock s (retain timeout now s key) := by
  intro other session stored
  cases held : s key with
  | none =>
    simp only [retain,held]
    exact .inl ⟨session,stored,rfl,Nat.le_refl _⟩
  | some old =>
    by_cases expired : timeout < now-old.lastActivity
    · simp only [retain,held,expired,if_true]
      by_cases same : other = key
      · subst same
        cases Option.some.inj (stored.symm.trans held)
        exact .inr ⟨Function.update_self ..,by omega⟩
      · exact .inl ⟨session,(Function.update_of_ne same _ _).trans stored,rfl,Nat.le_refl _⟩
    · simp only [retain,held,expired,if_false]
      exact .inl ⟨session,stored,rfl,Nat.le_refl _⟩

theorem touchTimed {m : Shared} (timed : Timed m) (key : SessionKey) :
    Timed {m with sessions := touch m.sessions key m.clock} := by
  refine ⟨timed.sweeps,fun other session stored => ?_⟩
  have stored : touch m.sessions key m.clock other = some session := stored
  cases held : m.sessions key with
  | none =>
    simp only [touch,held] at stored
    exact timed.stamps other session stored
  | some old =>
    simp only [touch,held,Function.update_apply] at stored
    split at stored
    · cases Option.some.inj stored
      exact Nat.le_refl m.clock
    · exact timed.stamps other session stored

theorem entryTimed {m : Shared} (timed : Timed m) (key : SessionKey) {new : Session}
    (made : new.lastActivity ≤ m.clock) :
    Timed {m with sessions := (entry m.sessions key new m.clock).1} := by
  refine ⟨timed.sweeps,fun other session stored => ?_⟩
  have stored : (entry m.sessions key new m.clock).1 other = some session := stored
  unfold entry at stored
  split at stored
  · exact (touchTimed timed key).stamps other session stored
  · simp only [Function.update_apply] at stored
    split at stored
    · cases Option.some.inj stored
      exact made
    · exact timed.stamps other session stored

theorem socketsTimed {m : Shared} (timed : Timed m) (id : Nat) (socket : Socket) :
    Timed (setSocket m id socket) := ⟨timed.sweeps,timed.stamps⟩

theorem advancePast {timeout : Nat} {m n : Shared} {pc after : Pc} {move} (timed : Timed m)
    (own : PcTimed m.clock pc) (moved : advance m pc move = some (n,after)) :
    n.clock = m.clock ∧ Timed n ∧ PcTimed m.clock after ∧
      Lives timeout m.clock m.sessions n.sessions := by
  have same : Lives timeout m.clock m.sessions m.sessions := livesRefl m.sessions
  cases advanceTook moved with
  | found stored => exact ⟨rfl,touchTimed timed _,trivial,touchLives timed _⟩
  | bound => exact ⟨rfl,⟨timed.sweeps,timed.stamps⟩,trivial,same⟩
  | connected held => exact ⟨rfl,socketsTimed timed _ _,trivial,same⟩
  | stamped => exact ⟨rfl,timed,Nat.le_refl m.clock,same⟩
  | entered => exact ⟨rfl,entryTimed timed _ own,trivial,entryLives timed _ _⟩
  | sent held =>
    refine ⟨rfl,socketsTimed timed _ _,?_,same⟩
    split <;> trivial
  | answered held queue => exact ⟨rfl,⟨timed.sweeps,timed.stamps⟩,trivial,same⟩
  | emptied held queue => exact ⟨rfl,socketsTimed timed _ _,trivial,same⟩
  | responded => exact ⟨rfl,⟨timed.sweeps,timed.stamps⟩,trivial,same⟩
  | _ => exact ⟨rfl,timed,trivial,same⟩

theorem aroundPast {timeout : Nat} {m n : Shared} {event} (timed : Timed m)
    (moved : around timeout m event = some n) :
    m.clock ≤ n.clock ∧ Timed n ∧ Lives timeout m.clock m.sessions n.sessions := by
  have same : Lives timeout m.clock m.sessions m.sessions := livesRefl m.sessions
  cases event with
  | updateActivity key =>
    cases Option.some.inj moved
    exact ⟨Nat.le_refl _,touchTimed timed key,touchLives timed key⟩
  | cleanup u =>
    cases Option.some.inj moved
    refine ⟨Nat.le_refl _,⟨fun other now read => ?_,timed.stamps⟩,same⟩
    simp only [Function.update_apply] at read
    split at read
    · cases Option.some.inj read
      exact Nat.le_refl m.clock
    · exact timed.sweeps other now read
  | retain u key =>
    obtain ⟨now,read,moved⟩ := Option.bind_eq_some_iff.mp moved
    cases Option.some.inj moved
    exact ⟨Nat.le_refl _,⟨timed.sweeps,fun other session stored =>
      timed.stamps other session (retainStored stored)⟩,
      retainLives (timed.sweeps u now read) m.sessions key⟩
  | backendSend sender id payload =>
    cases Option.some.inj moved
    exact ⟨Nat.le_refl _,⟨timed.sweeps,timed.stamps⟩,same⟩
  | arrive n =>
    obtain ⟨⟨id,d⟩,_,moved⟩ := Option.bind_eq_some_iff.mp moved
    obtain ⟨socket,held,moved⟩ := Option.bind_eq_some_iff.mp moved
    split at moved
    · cases Option.some.inj moved
      exact ⟨Nat.le_refl _,⟨timed.sweeps,timed.stamps⟩,same⟩
    · cases Option.some.inj moved
      exact ⟨Nat.le_refl _,⟨timed.sweeps,timed.stamps⟩,same⟩
  | lose n =>
    cases Option.some.inj moved
    exact ⟨Nat.le_refl _,⟨timed.sweeps,timed.stamps⟩,same⟩
  | tick d =>
    cases Option.some.inj moved
    exact ⟨Nat.le_add_right _ _,⟨fun u now read => (timed.sweeps u now read).trans
      (Nat.le_add_right _ _),fun key session stored => (timed.stamps key session stored).trans
        (Nat.le_add_right _ _)⟩,same⟩

theorem pcLater {clock later : Nat} (le : clock ≤ later) {pc : Pc} (own : PcTimed clock pc) :
    PcTimed later pc := by
  cases pc with
  | entering packet b new => exact Nat.le_trans own le
  | _ => trivial

theorem stepPast {timeout : Nat} {w u : World} {label} (past : Past w)
    (moved : step timeout w label = some u) :
    Past u ∧ w.shared.clock ≤ u.shared.clock ∧
      Lives timeout w.shared.clock w.shared.sessions u.shared.sessions := by
  cases label with
  | task t move =>
    obtain ⟨⟨m,pc⟩,advanced,moved⟩ := Option.bind_eq_some_iff.mp moved
    cases Option.some.inj moved
    obtain ⟨clock,timed,own,lives⟩ := advancePast past.shared (past.tasks t) advanced
    refine ⟨⟨⟨timed.sweeps,timed.stamps⟩,fun other => ?_⟩,clock.ge,lives⟩
    simp only [Function.update_apply]
    split
    · exact pcLater clock.ge own
    · exact pcLater clock.ge (past.tasks other)
  | around event =>
    obtain ⟨m,happened,moved⟩ := Option.bind_eq_some_iff.mp moved
    cases Option.some.inj moved
    obtain ⟨later,timed,lives⟩ := aroundPast past.shared happened
    exact ⟨⟨⟨timed.sweeps,timed.stamps⟩,fun other => pcLater later (past.tasks other)⟩,later,lives⟩

theorem reachablePast {timeout : Nat} {w : World}
    (reach : Transition.Reachable (system timeout) w) : Past w := by
  refine Transition.invariant Past ?_ (fun _ _ _ past moved => (stepPast past moved).1) reach
  intro s begins
  have same : s = start := begins
  subst same
  exact ⟨⟨fun _ _ read => by contradiction,fun _ _ stored => by contradiction⟩,fun _ => trivial⟩

/- The last step of a successful `get_or_create_session`: its task goes on with the
socket that the call returned. -/
def Decides (timeout : Nat) (w u : World) (key : SessionKey) (socket : Nat) : Prop :=
  ∃ t move packet backend, step timeout w (.task t move) = some u ∧
    u.tasks t = .sending packet backend socket ∧ key = ⟨packet.srcAddr,backend⟩

theorem touchHeld {s : Sessions} {key : SessionKey} {session : Session} (held : s key = some session)
    (now : Nat) : touch s key now key = some {session with lastActivity := now} := by
  simp only [touch,held,Function.update_self]

theorem entryVacant {s : Sessions} {key : SessionKey} (vacant : s key = none) (new : Session)
    (now : Nat) : entry s key new now = (Function.update s key (some new),new.socket) := by
  simp only [entry,vacant]

theorem entryOccupied {s : Sessions} {key : SessionKey} {session : Session}
    (held : s key = some session) (new : Session) (now : Nat) :
    entry s key new now = (touch s key now,session.socket) := by
  simp only [entry,held]

theorem decisionEntry {timeout : Nat} {w u : World} {key : SessionKey} {socket : Nat}
    (decides : Decides timeout w u key socket) : ∃ new,
      entry w.shared.sessions key new w.shared.clock = (u.shared.sessions,socket) := by
  obtain ⟨t,move,packet,backend,moved,ends,rfl⟩ := decides
  obtain ⟨⟨m,pc⟩,advanced,moved⟩ := Option.bind_eq_some_iff.mp moved
  cases Option.some.inj moved
  have at_t : pc = .sending packet backend socket :=
    (Function.update_self t pc w.tasks).symm.trans ends
  subst at_t
  have took := advanceTook advanced
  generalize w.tasks t = before at took
  generalize after : Pc.sending packet backend socket = pc at took
  cases took with
  | @found _ _ session stored =>
    cases after
    exact ⟨session,entryOccupied stored ..⟩
  | @entered _ _ new =>
    cases after
    exact ⟨new,rfl⟩
  | sent held =>
    split at after <;> contradiction
  | _ => contradiction

theorem decisionStored {timeout : Nat} {w u : World} {key : SessionKey} {socket : Nat}
    (decides : Decides timeout w u key socket) :
    (∃ session, u.shared.sessions key = some session ∧ session.socket = socket) ∧
    ∀ old, w.shared.sessions key = some old → old.socket = socket := by
  obtain ⟨new,result⟩ := decisionEntry decides
  cases held : w.shared.sessions key with
  | none =>
    rw [entryVacant held] at result
    obtain ⟨stored,same⟩ := Prod.mk.inj result
    refine ⟨⟨new,?_,same⟩,fun old present => by contradiction⟩
    rw [← stored,Function.update_self]
  | some session =>
    rw [entryOccupied held] at result
    obtain ⟨stored,same⟩ := Prod.mk.inj result
    refine ⟨⟨{session with lastActivity := w.shared.clock},?_,same⟩,fun old present => ?_⟩
    · rw [← stored,touchHeld held]
    · cases present
      exact same

/- A decision on an entry that is there stamps it with the clock of its step, and so does
`update_activity`. -/
theorem decisionStamps {timeout : Nat} {w u : World} {key : SessionKey} {socket : Nat}
    (decides : Decides timeout w u key socket) {old : Session}
    (held : w.shared.sessions key = some old) :
    u.shared.sessions key = some {old with lastActivity := w.shared.clock} := by
  obtain ⟨new,result⟩ := decisionEntry decides
  rw [entryOccupied held] at result
  rw [← (Prod.mk.inj result).1,touchHeld held]

theorem updateStamps {timeout : Nat} {w u : World} {key : SessionKey} {old : Session}
    (moved : step timeout w (.around (.updateActivity key)) = some u)
    (held : w.shared.sessions key = some old) :
    u.shared.sessions key = some {old with lastActivity := w.shared.clock} := by
  cases Option.some.inj moved
  exact touchHeld held w.shared.clock

def Kept (timeout : Nat) (key : SessionKey) (socket stamp : Nat) (w : World) : Prop :=
  stamp+timeout < w.shared.clock ∨ ∃ session, w.shared.sessions key = some session ∧
    session.socket = socket ∧ stamp ≤ session.lastActivity

theorem stepKept {timeout : Nat} {w u : World} {label} {key : SessionKey} {socket stamp : Nat}
    (past : Past w) (moved : step timeout w label = some u)
    (kept : Kept timeout key socket stamp w) : Kept timeout key socket stamp u := by
  obtain ⟨_,clock,lives⟩ := stepPast past moved
  rcases kept with late | ⟨session,stored,same,fresh⟩
  · exact .inl (late.trans_le clock)
  · rcases lives key session stored with ⟨later,there,equal,newer⟩ | ⟨_,expired⟩
    · exact .inr ⟨later,there,equal.trans same,fresh.trans newer⟩
    · exact .inl (by omega)

theorem runKept {timeout : Nat} {u v : World} {labels : List Label} {key : SessionKey}
    {socket stamp : Nat} (past : Past u) (ran : run timeout u labels = some v)
    (kept : Kept timeout key socket stamp u) : Kept timeout key socket stamp v := by
  induction labels generalizing u with
  | nil =>
    cases Option.some.inj ran
    exact kept
  | cons label rest ih =>
    obtain ⟨w,moved,later⟩ := Option.bind_eq_some_iff.mp ran
    exact ih (stepPast past moved).1 later (stepKept past moved kept)

theorem sessionsSticky {timeout : Nat} {w : World}
    (reach : Transition.Reachable (system timeout) w) :
    (∀ u key socket, Decides timeout w u key socket →
      ∃ session, u.shared.sessions key = some session ∧ session.socket = socket) ∧
    (∀ label u key session, step timeout w label = some u →
      w.shared.sessions key = some session →
      (¬ ∃ later, u.shared.sessions key = some later ∧ later.socket = session.socket) →
      session.lastActivity+timeout < w.shared.clock) ∧
    ∀ u key socket session, Decides timeout w u key socket →
      u.shared.sessions key = some session →
      ∀ labels v x other, run timeout u labels = some v → Decides timeout v x key other →
        v.shared.clock ≤ session.lastActivity+timeout → other = socket := by
  have past := reachablePast reach
  refine ⟨fun u key socket decides => (decisionStored decides).1,?_,?_⟩
  · intro label u key session moved stored gone
    rcases (stepPast past moved).2.2 key session stored with ⟨later,there,same,_⟩ | ⟨_,expired⟩
    · exact absurd ⟨later,there,same⟩ gone
    · exact expired
  · intro u key socket session decides stored labels v x other ran again intime
    obtain ⟨kept,there,same⟩ := (decisionStored decides).1
    cases Option.some.inj (there.symm.trans stored)
    obtain ⟨t,move,_,_,moved,_⟩ := decides
    have start : Kept timeout key socket session.lastActivity u :=
      .inr ⟨session,stored,same,Nat.le_refl _⟩
    rcases runKept (stepPast past moved).1 ran start with late | ⟨later,held,equal,_⟩
    · exact absurd intime (by omega)
    · exact ((decisionStored again).2 later held).symm.trans equal

def opened : List Label := steps 0 [.packet (query 5000),.choose (some server),.lookup,.bind true,
  .connect true,.stamp]

def pause : List Label := [.around (.tick 30),.around (.cleanup 0),
  .around (.retain 0 ⟨client 5000,server⟩)] ++ steps 1 [.packet (query 5000),.choose (some server)]

def observe (w : World) (t : Nat) : Pc × Option Session × Nat :=
  (w.tasks t,w.shared.sessions ⟨client 5000,server⟩,w.shared.clock)

theorem openedEnters : ((run 30 start opened).bind fun w => (step 30 w (.task 0 .enter)).map
    fun u => observe u 0) = some (.sending (query 5000) server 0,some ⟨server,0,0⟩,0) := by
  decide +kernel

theorem pausedFinds : ((run 30 start opened).bind fun w => (step 30 w (.task 0 .enter)).bind
    fun u => (run 30 u pause).bind fun v => (step 30 v (.task 1 .lookup)).map
      fun x => (observe x 1,v.shared.clock)) =
        some ((.sending (query 5000) server 0,some ⟨server,0,30⟩,30),30) := by
  decide +kernel

theorem secondSticks : ∃ w u v x, run 30 start opened = some w ∧
    Decides 30 w u ⟨client 5000,server⟩ 0 ∧ run 30 u pause = some v ∧ v.shared.clock = 30 ∧
    (∃ other, Decides 30 v x ⟨client 5000,server⟩ other) ∧
    ∀ other, Decides 30 v x ⟨client 5000,server⟩ other → other = 0 := by
  obtain ⟨w,opens,entered⟩ := Option.bind_eq_some_iff.mp openedEnters
  obtain ⟨u,enters,seen⟩ := Option.map_eq_some_iff.mp entered
  obtain ⟨w',opens',paused⟩ := Option.bind_eq_some_iff.mp pausedFinds
  cases Option.some.inj (opens.symm.trans opens')
  obtain ⟨u',enters',paused⟩ := Option.bind_eq_some_iff.mp paused
  cases Option.some.inj (enters.symm.trans enters')
  obtain ⟨v,waits,found⟩ := Option.bind_eq_some_iff.mp paused
  obtain ⟨x,finds,last⟩ := Option.map_eq_some_iff.mp found
  simp only [observe,Prod.mk.injEq] at seen last
  have reach := Transition.runReachable (.init (S := system 30) (s := start) rfl) opens
  have first : Decides 30 w u ⟨client 5000,server⟩ 0 := ⟨0,.enter,_,_,enters,seen.1,rfl⟩
  refine ⟨w,u,v,x,opens,first,waits,last.2,⟨0,1,.lookup,_,_,finds,last.1.1,rfl⟩,?_⟩
  intro other again
  exact (sessionsSticky reach).2.2 u _ 0 _ first seen.2.1 pause v x other waits again last.2.le

end UdpBalancer.SessionStickiness
