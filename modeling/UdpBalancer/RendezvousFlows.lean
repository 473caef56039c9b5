import UdpBalancer.HashKey
import UdpBalancer.RendezvousChoice
import UdpBalancer.RendezvousMoments

/-! The packets of one flow under `RendezvousHashing`, while health checks store flags in
the middle of the calls: the flow leaves a backend only for a failure of that backend or
for the recovery of the other. -/
namespace UdpBalancer.Rendezvous.Threads
open Backends (Bytes)
open HashKey (Packet)
open HashKey.Packet (Agree flowKey)

variable {R : Type} [Field R] [LinearOrder R]

theorem viewsAgree {a : Arith R} {hash : Bytes → Bytes → UInt64}
    {backends : List (WeightedBackend R)} {key : Bytes} {A B : Index backends → Bool}
    {i j : Index backends} (first : next a hash backends A key = some i)
    (second : next a hash backends B key = some j) (kept : B i = true) (known : A j = true) :
    i = j := by
  have lawful := rankingLawful a hash backends key
  have common : ∀ {C : Index backends → Bool} {k}, next a hash backends C key = some k →
      (∀ n, (A n && B n) = true → C n = true) → (A k && B k) = true →
      next a hash backends (fun n => A n && B n) key = some k := by
    intro C k chosen within both
    rw [nextScan] at chosen
    rw [nextScan,filterWithin within]
    exact FirstMax.scanFilter lawful _ chosen both
  have left := common first (fun n both => (Bool.and_eq_true_iff.mp both).1)
    (Bool.and_eq_true_iff.mpr ⟨nextAlive a hash backends first,kept⟩)
  have right := common second (fun n both => (Bool.and_eq_true_iff.mp both).2)
    (Bool.and_eq_true_iff.mpr ⟨known,nextAlive a hash backends second⟩)
  exact Option.some.inj (left.symm.trans right)

/- A call for one packet and a call for another of the same flow, wherever their runs
begin and whatever else happens in them. -/
theorem flowMoves (p : Setting R) {fields : List HashKeyField} {one two : Packet}
    (flow : ∀ field ∈ fields, Agree one two field) {x y z v : World p} {t u early late i j}
    (first : Transition.Run (system p) (goto x t (start p (one.hashKey fields))) early y)
    (alone : ∀ other, .begin t other ∉ early) (answered : y.calls t = .returned (some i))
    (second : Transition.Run (system p) (goto z u (start p (two.hashKey fields))) late v)
    (apart : ∀ other, .begin u other ∉ late) (chosen : v.calls u = .returned (some j))
    (moved : i ≠ j) :
    ¬ Moments.Steady z.alive (changes late) i ∨ ¬ Moments.Steady x.alive (changes early) j := by
  obtain ⟨_,progress⟩ := runProgress first alone
  rw [answered] at progress
  obtain ⟨A,before,picked⟩ := progress
  obtain ⟨_,progress⟩ := runProgress second apart
  rw [chosen] at progress
  obtain ⟨B,after,taken⟩ := progress
  by_contra steady
  rw [not_or,not_not,not_not] at steady
  rw [flowKey flow] at picked
  exact moved (viewsAgree picked.symm taken.symm ((after i).1 steady.1) ((before j).1 steady.2))

theorem visitReturns {p : Setting R} (x : World p) (t : Nat) (key : Bytes)
    (rest : List (Index p.backends)) (best : Option (Index p.backends) × F64 R) :
    Transition.Run (system p) (goto x t (.visiting key rest best))
      (List.replicate (rest.length+1) (.step t))
      (goto x t (.returned (rest.foldl (visit p.arith p.hash p.backends x.alive key) best).1)) := by
  have again : ∀ pc after, goto (goto x t pc) t after = goto x t after := by
    intro pc after
    simp only [goto,Function.update_idem]
  induction rest generalizing best with
  | nil =>
    have last : callStep t (goto x t (.visiting key [] best)) = goto x t (.returned best.1) := by
      simp only [callStep,gotoCall,again]
    exact .step .nil (last ▸ .step t)
  | cons i rest ih =>
    have next : callStep t (goto x t (.visiting key (i::rest) best)) =
        goto x t (.visiting key rest (visit p.arith p.hash p.backends x.alive key best i)) := by
      simp only [callStep,gotoCall,again]
      exact rfl
    have one : Transition.Run (system p) (goto x t (.visiting key (i::rest) best)) [.step t]
        (goto x t (.visiting key rest (visit p.arith p.hash p.backends x.alive key best i))) :=
      .step .nil (next ▸ .step t)
    exact Transition.runAppend one (ih _)

theorem soloReturns {p : Setting R} (x : World p) (t : Nat) (key : Bytes) : ∃ n,
    Transition.Run (system p) (goto x t (start p key)) (List.replicate n (.step t))
      (goto x t (.returned (next p.arith p.hash p.backends x.alive key))) := by
  by_cases empty : p.backends = []
  · rw [start,if_pos empty,next,if_pos empty]
    exact ⟨0,.nil⟩
  · rw [start,if_neg empty,next,if_neg empty]
    exact ⟨_,visitReturns x t key _ _⟩

def query (port : UInt16) : Packet :=
  ⟨.v4 (.new 192 0 2 1),.v4 (.new 192 0 2 9),port,53,[1]⟩

noncomputable def exactTwo : ExactPool where
  backends := twoBackends.backends
  weight _ := 1
  weighted := Fin.forall_fin_two.mpr ⟨rfl,rfl⟩
  positive _ := one_pos

noncomputable def onlyUp (i : Index twoBackends.backends) : World twoBackends :=
  ⟨fun j => decide (j = i),fun _ => .idle⟩

theorem onlyAnswers {key : Bytes} (i : Index twoBackends.backends)
    (nonzero : exactTwo.hashOf twoBackends.hash key i ≠ 0) :
    next twoBackends.arith twoBackends.hash twoBackends.backends (onlyUp i).alive key = some i := by
  have up : (onlyUp i).alive i = true := decide_eq_true rfl
  have ranked := ExactPool.scoreRanked.mpr nonzero
  obtain ⟨j,found⟩ := nextRanked twoBackends.arith twoBackends.hash twoBackends.backends up ranked
  have same : j = i := of_decide_eq_true (nextAlive _ _ _ found)
  exact same ▸ found

theorem queryMoves : (query 4000).hashKey [.srcIp] = (query 4001).hashKey [.srcIp] ∧
    ∃ early late y v, Transition.Run (system twoBackends)
      (goto (onlyUp first) 0 (start twoBackends ((query 4000).hashKey [.srcIp]))) early y ∧
    y.calls 0 = .returned (some first) ∧ Transition.Run (system twoBackends)
      (goto (onlyUp second) 0 (start twoBackends ((query 4001).hashKey [.srcIp]))) late v ∧
    v.calls 0 = .returned (some second) ∧
    (¬ Moments.Steady (onlyUp second).alive (changes late) first ∨
      ¬ Moments.Steady (onlyUp first).alive (changes early) second) := by
  have flow : ∀ field ∈ [HashKeyField.srcIp], Agree (query 4000) (query 4001) field := by
    intro field mem
    cases List.mem_singleton.mp mem
    exact rfl
  obtain ⟨n,early⟩ := soloReturns (onlyUp first) 0 ((query 4000).hashKey [.srcIp])
  obtain ⟨m,late⟩ := soloReturns (onlyUp second) 0 ((query 4001).hashKey [.srcIp])
  rw [onlyAnswers first (by decide +kernel)] at early
  rw [onlyAnswers second (by decide +kernel)] at late
  have quiet : ∀ (k : Nat) (key : Bytes),
      (Label.begin 0 key : Label twoBackends) ∉ List.replicate k (.step 0) :=
    fun k key mem => by cases List.eq_of_mem_replicate mem
  have apart : first ≠ second := fun same => Nat.zero_ne_one (congrArg Fin.val same)
  refine ⟨rfl,_,_,_,_,early,gotoCall ..,late,gotoCall ..,?_⟩
  exact flowMoves twoBackends flow early (quiet n) (gotoCall ..) late (quiet m) (gotoCall ..) apart

end UdpBalancer.Rendezvous.Threads
