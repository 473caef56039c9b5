import Mathlib.Data.List.Induction

/-! The loop that keeps the first strict maximum of a list, starting below every
score. `gt` need not be total: a score that exceeds nothing, as a NaN, is
skipped. Indices and scores are arbitrary. -/
namespace UdpBalancer.FirstMax

structure Ranking (ι : Type u) (S : Type v) where
  score : ι → S
  gt : S → S → Bool
  bottom : S

variable {ι : Type u} {S : Type v}

def scanStep (r : Ranking ι S) (best : Option ι × S) (x : ι) : Option ι × S :=
  if r.gt (r.score x) best.2 then (some x,r.score x) else best

def scan (r : Ranking ι S) (xs : List ι) : Option ι × S :=
  xs.foldl (scanStep r) (none,r.bottom)

/- What a comparison of scores has to satisfy: among the scores that exceed the
bottom, and the bottom itself, it is a strict weak order. -/
structure Lawful (r : Ranking ι S) : Prop where
  irrefl : ∀ a, r.gt a a = false
  trans : ∀ {a b c}, r.gt a b = true → r.gt b c = true → r.gt a c = true
  split : ∀ {a b c}, r.gt a c = true → b = r.bottom ∨ r.gt b r.bottom = true →
    r.gt a b = true ∨ r.gt b c = true

structure Wins (r : Ranking ι S) (before : List ι) (x : ι) (later : List ι) : Prop where
  ranked : r.gt (r.score x) r.bottom = true
  above : ∀ y ∈ before, r.gt (r.score y) r.bottom = true → r.gt (r.score x) (r.score y) = true
  unbeaten : ∀ y ∈ later, r.gt (r.score y) (r.score x) = false

variable {r : Ranking ι S}

theorem scanAppend (xs : List ι) (x : ι) : scan r (xs ++ [x]) = scanStep r (scan r xs) x := by
  simp only [scan,List.foldl_append,List.foldl_cons,List.foldl_nil]

def Found (r : Ranking ι S) (xs : List ι) : Option ι × S → Prop
  | (none,s) => s = r.bottom ∧ ∀ y ∈ xs, r.gt (r.score y) r.bottom = false
  | (some x,s) => s = r.score x ∧ ∃ before later, xs = before ++ x::later ∧ Wins r before x later

theorem stepFound (lawful : Lawful r) {xs best} (found : Found r xs best) (x : ι) :
    Found r (xs ++ [x]) (scanStep r best x) := by
  unfold scanStep
  obtain ⟨held,s⟩ := best
  split
  · rename_i higher
    refine ⟨rfl,xs,[],rfl,?_⟩
    cases held with
    | none =>
      obtain ⟨rfl,low⟩ := found
      refine ⟨higher,fun y mem high => ?_,fun y mem => absurd mem List.not_mem_nil⟩
      rw [low y mem] at high
      contradiction
    | some w =>
      obtain ⟨rfl,before,later,rfl,wins⟩ := found
      have ranked := lawful.trans higher wins.ranked
      refine ⟨ranked,fun y mem high => ?_,fun y mem => absurd mem List.not_mem_nil⟩
      rcases List.mem_append.mp mem with early | late
      · exact lawful.trans higher (wins.above y early high)
      · rcases List.mem_cons.mp late with rfl | after
        · exact higher
        · rcases lawful.split higher (.inr high) with above | below
          · exact above
          · rw [wins.unbeaten y after] at below
            contradiction
  · rename_i lower
    have lower := eq_false_of_ne_true lower
    cases held with
    | none =>
      obtain ⟨rfl,low⟩ := found
      refine ⟨rfl,fun y mem => ?_⟩
      rcases List.mem_append.mp mem with early | last
      · exact low y early
      · exact List.mem_singleton.mp last ▸ lower
    | some w =>
      obtain ⟨rfl,before,later,rfl,wins⟩ := found
      refine ⟨rfl,before,later ++ [x],by simp only [List.append_assoc,List.cons_append],
        wins.ranked,wins.above,fun y mem => ?_⟩
      rcases List.mem_append.mp mem with after | last
      · exact wins.unbeaten y after
      · exact List.mem_singleton.mp last ▸ lower

theorem scanFound (lawful : Lawful r) (xs : List ι) : Found r xs (scan r xs) := by
  induction xs using List.reverseRecOn with
  | nil => exact ⟨rfl,fun y mem => absurd mem List.not_mem_nil⟩
  | append_singleton xs x ih =>
    rw [scanAppend]
    exact stepFound lawful ih x

theorem scanWins (lawful : Lawful r) {before x later} (wins : Wins r before x later) :
    (scan r (before ++ x::later)).1 = some x := by
  have first : scanStep r (scan r before) x = (some x,r.score x) := by
    have found := scanFound lawful before
    generalize scan r before = best at found
    obtain ⟨held,s⟩ := best
    unfold scanStep
    have higher : r.gt (r.score x) s = true := by
      cases held with
      | none => exact found.1 ▸ wins.ranked
      | some w =>
        obtain ⟨rfl,early,late,rfl,inner⟩ := found
        exact wins.above w (List.mem_append_right _ List.mem_cons_self) inner.ranked
    simp only [higher,if_true]
  have rest : later.foldl (scanStep r) (some x,r.score x) = (some x,r.score x) := by
    have unbeaten := wins.unbeaten
    induction later with
    | nil => rfl
    | cons y later ih =>
      have kept : scanStep r (some x,r.score x) y = (some x,r.score x) := by
        simp only [scanStep,unbeaten y List.mem_cons_self,Bool.false_eq_true,if_false]
      rw [List.foldl_cons,kept]
      exact ih ⟨wins.ranked,wins.above,fun z mem => unbeaten z (List.mem_cons_of_mem y mem)⟩
        fun z mem => unbeaten z (List.mem_cons_of_mem y mem)
  unfold scan at first ⊢
  rw [List.foldl_append,List.foldl_cons,first,rest]

theorem scanWinner (lawful : Lawful r) {xs x} (won : (scan r xs).1 = some x) :
    ∃ before later, xs = before ++ x::later ∧ Wins r before x later := by
  have found := scanFound lawful xs
  generalize scan r xs = best at won found
  obtain ⟨held,s⟩ := best
  cases won
  exact found.2

theorem scanLow (lawful : Lawful r) {xs} (none : (scan r xs).1 = none) :
    ∀ y ∈ xs, r.gt (r.score y) r.bottom = false := by
  have found := scanFound lawful xs
  generalize scan r xs = best at none found
  obtain ⟨held,s⟩ := best
  cases none
  exact found.2

theorem scanMem (lawful : Lawful r) {xs x} (won : (scan r xs).1 = some x) : x ∈ xs := by
  obtain ⟨before,later,rfl,_⟩ := scanWinner lawful won
  exact List.mem_append_right _ List.mem_cons_self

theorem scanUnbeaten (lawful : Lawful r) {xs x} (won : (scan r xs).1 = some x) :
    ∀ y ∈ xs, r.gt (r.score y) (r.score x) = false := by
  obtain ⟨before,later,rfl,wins⟩ := scanWinner lawful won
  intro y mem
  rcases List.mem_append.mp mem with early | late
  · cases higher : r.gt (r.score y) (r.score x) with
    | false => rfl
    | true =>
      have above := wins.above y early (lawful.trans higher wins.ranked)
      have cycle := lawful.trans higher above
      rw [lawful.irrefl] at cycle
      contradiction
  · rcases List.mem_cons.mp late with rfl | after
    · exact lawful.irrefl _
    · exact wins.unbeaten y after

theorem scanRanked (lawful : Lawful r) {xs y} (mem : y ∈ xs)
    (ranked : r.gt (r.score y) r.bottom = true) : ∃ x, (scan r xs).1 = some x := by
  cases found : (scan r xs).1 with
  | none =>
    rw [scanLow lawful found y mem] at ranked
    contradiction
  | some x => exact ⟨x,rfl⟩

theorem scanFilter (lawful : Lawful r) (keep : ι → Bool) {xs x}
    (won : (scan r xs).1 = some x) (kept : keep x = true) :
    (scan r (xs.filter keep)).1 = some x := by
  obtain ⟨before,later,rfl,wins⟩ := scanWinner lawful won
  rw [List.filter_append,List.filter_cons_of_pos kept]
  exact scanWins lawful ⟨wins.ranked,fun y mem => wins.above y (List.mem_filter.mp mem).1,
    fun y mem => wins.unbeaten y (List.mem_filter.mp mem).1⟩

theorem scanNone (lawful : Lawful r) (keep : ι → Bool) {xs} (none : (scan r xs).1 = none) :
    (scan r (xs.filter keep)).1 = Option.none := by
  cases found : (scan r (xs.filter keep)).1 with
  | none => rfl
  | some w =>
    have inside := (List.mem_filter.mp (scanMem lawful found)).1
    obtain ⟨_,_,_,wins⟩ := scanWinner lawful found
    have high := wins.ranked
    rw [scanLow lawful none w inside] at high
    contradiction

end UdpBalancer.FirstMax
