import Mathlib.Data.Nat.Find

/-! Loops without a bound of their own. A body either leaves with a result or
goes on with a new state; fuel counts turns and is never part of a meaning.
`Returns` says that some number of turns suffices, `Diverges` that none does. -/
namespace UdpBalancer.Loop

inductive Turn (σ ρ : Type) where
  | more (s : σ)
  | done (r : ρ)

def run {σ ρ : Type} (body : σ → Turn σ ρ) : Nat → σ → Option ρ
  | 0, _ => none
  | fuel+1, s => match body s with
    | .done r => some r
    | .more t => run body fuel t

def Returns {σ ρ : Type} (body : σ → Turn σ ρ) (s : σ) (r : ρ) : Prop :=
  ∃ fuel, run body fuel s = some r

def Diverges {σ ρ : Type} (body : σ → Turn σ ρ) (s : σ) : Prop :=
  ∀ fuel, run body fuel s = none

variable {σ ρ : Type} {body : σ → Turn σ ρ}

theorem runDone {s r} (leaves : body s = .done r) (fuel : Nat) :
    run body (fuel+1) s = some r := by
  simp only [run,leaves]

theorem runMore {s t} (goes : body s = .more t) (fuel : Nat) :
    run body (fuel+1) s = run body fuel t := by
  simp only [run,goes]

theorem runMono {fuel s r} (ok : run body fuel s = some r) {large} (le : fuel ≤ large) :
    run body large s = some r := by
  induction fuel generalizing s large with
  | zero => simp [run] at ok
  | succ fuel ih =>
    obtain ⟨large,rfl⟩ : ∃ k, large = k+1 := ⟨large-1,by omega⟩
    cases h : body s with
    | done x =>
      rw [runDone h] at ok ⊢
      exact ok
    | more t =>
      rw [runMore h] at ok ⊢
      exact ih ok (by omega)

theorem returnsMore {s t r} (goes : body s = .more t) : Returns body s r ↔ Returns body t r := by
  constructor
  · intro ⟨fuel,ok⟩
    cases fuel with
    | zero => contradiction
    | succ fuel => exact ⟨fuel,(runMore goes fuel).symm.trans ok⟩
  · intro ⟨fuel,ok⟩
    exact ⟨fuel+1,(runMore goes fuel).trans ok⟩

theorem returnsDone {s r} (leaves : body s = .done r) : Returns body s r :=
  ⟨1,runDone leaves 0⟩

theorem returnsUnique {s a b} (left : Returns body s a) (right : Returns body s b) : a = b := by
  obtain ⟨m,hm⟩ := left
  obtain ⟨n,hn⟩ := right
  have atMax := runMono hm (Nat.le_max_left m n)
  rw [runMono hn (Nat.le_max_right m n)] at atMax
  exact (Option.some.inj atMax).symm

theorem divergesIff {s} : Diverges body s ↔ ¬ ∃ r, Returns body s r := by
  constructor
  · intro never ⟨r,fuel,ok⟩
    rw [never fuel] at ok
    contradiction
  · intro none fuel
    cases h : run body fuel s with
    | none => rfl
    | some r => exact absurd ⟨r,fuel,h⟩ none

/- The variant rule: an invariant under which every turn leaves or lowers a
natural number bounds the turns by that number. -/
theorem returnsWithin (inv : σ → Prop) (measure : σ → Nat)
    (turn : ∀ s, inv s → (∃ r, body s = .done r) ∨
      ∃ t, body s = .more t ∧ inv t ∧ measure t < measure s)
    {s} (start : inv s) (fuel : Nat) (enough : measure s < fuel) : ∃ r, run body fuel s = some r := by
  induction fuel generalizing s with
  | zero => omega
  | succ fuel ih =>
    rcases turn s start with ⟨r,leaves⟩ | ⟨t,goes,kept,lower⟩
    · exact ⟨r,runDone leaves fuel⟩
    · rw [runMore goes]
      exact ih kept (by omega)

theorem lastTurn (inv : σ → Prop) (turn : ∀ s t, inv s → body s = .more t → inv t)
    {fuel s r} (start : inv s) (ok : run body fuel s = some r) :
    ∃ last, inv last ∧ body last = .done r := by
  induction fuel generalizing s with
  | zero => simp [run] at ok
  | succ fuel ih =>
    cases h : body s with
    | done x =>
      rw [runDone h] at ok
      cases Option.some.inj ok
      exact ⟨s,start,h⟩
    | more t =>
      rw [runMore h] at ok
      exact ih (turn s t start h) ok

def logged {τ : Type} (body : σ → Turn σ ρ) (emit : σ → List τ) : Nat → σ → List τ
  | 0, _ => []
  | fuel+1, s => match body s with
    | .done _ => []
    | .more t => emit s ++ logged body emit fuel t

theorem loggedMore {τ : Type} {emit : σ → List τ} {s t} (goes : body s = .more t) (fuel : Nat) :
    logged body emit (fuel+1) s = emit s ++ logged body emit fuel t := by
  simp only [logged,goes]

theorem loggedDone {τ : Type} {emit : σ → List τ} {s r} (leaves : body s = .done r) (fuel : Nat) :
    logged body emit (fuel+1) s = [] := by
  simp only [logged,leaves]

theorem runAgree {other : σ → Turn σ ρ} (inv : σ → Prop)
    (agree : ∀ s, inv s → other s = body s) (turn : ∀ s t, inv s → body s = .more t → inv t)
    {s} (start : inv s) (fuel : Nat) : run other fuel s = run body fuel s := by
  induction fuel generalizing s with
  | zero => rfl
  | succ fuel ih =>
    cases h : body s with
    | done r => rw [runDone h,runDone ((agree s start).trans h)]
    | more t =>
      rw [runMore h,runMore ((agree s start).trans h)]
      exact ih (turn s t start h)

theorem divergesWhile (inv : σ → Prop) (turn : ∀ s, inv s → ∃ t, body s = .more t ∧ inv t)
    {s} (start : inv s) : Diverges body s := by
  intro fuel
  induction fuel generalizing s with
  | zero => rfl
  | succ fuel ih =>
    obtain ⟨t,goes,kept⟩ := turn s start
    rw [runMore goes]
    exact ih kept

def Turn.image {σ' ρ' : Type} (f : σ → σ') (g : ρ → ρ') : Turn σ ρ → Turn σ' ρ'
  | .more s => .more (f s)
  | .done r => .done (g r)

theorem runImage {σ' ρ' : Type} {other : σ' → Turn σ' ρ'} {f : σ → σ'} {g : ρ → ρ'}
    (inv : σ → Prop) (agree : ∀ s, inv s → other (f s) = (body s).image f g)
    (turn : ∀ s t, inv s → body s = .more t → inv t) {s} (start : inv s) (fuel : Nat) :
    run other fuel (f s) = (run body fuel s).map g := by
  induction fuel generalizing s with
  | zero => rfl
  | succ fuel ih =>
    have same := agree s start
    cases h : body s with
    | done r =>
      rw [h] at same
      rw [runDone h,runDone same]
      exact rfl
    | more t =>
      rw [h] at same
      rw [runMore h,runMore same]
      exact ih (turn s t start h)

/- A search loop walks the states `f n, f (n+1), …` and leaves at the first
index that meets a predicate. -/
def Searches (body : σ → Turn σ ρ) (f : Nat → σ) (hit : Nat → Prop) (out : Nat → ρ) : Prop :=
  ∀ n, (hit n → body (f n) = .done (out n)) ∧ (¬ hit n → body (f n) = .more (f (n+1)))

def FirstFrom (hit : Nat → Prop) (n k : Nat) : Prop :=
  n ≤ k ∧ hit k ∧ ∀ j, n ≤ j → j < k → ¬ hit j

theorem firstFromExists {hit : Nat → Prop} {n k} (le : n ≤ k) (found : hit k) :
    ∃ first, FirstFrom hit n first ∧ first ≤ k := by
  classical
  have some : ∃ d, hit (n+d) := ⟨k-n,by rwa [Nat.add_sub_cancel' le]⟩
  refine ⟨n+Nat.find some,⟨Nat.le_add_right _ _,Nat.find_spec some,?_⟩,?_⟩
  · intro j low high h
    have early := Nat.find_min some (m := j-n) (by omega)
    rw [Nat.add_sub_cancel' low] at early
    exact early h
  · have least : Nat.find some ≤ k-n := Nat.find_min' some (by rwa [Nat.add_sub_cancel' le])
    omega

theorem firstFromUnique {hit : Nat → Prop} {n a b} (ha : FirstFrom hit n a)
    (hb : FirstFrom hit n b) : a = b := by
  rcases Nat.lt_trichotomy a b with less | same | more
  · exact absurd ha.2.1 (hb.2.2 a ha.1 less)
  · exact same
  · exact absurd hb.2.1 (ha.2.2 b hb.1 more)

variable {f : Nat → σ} {hit : Nat → Prop} {out : Nat → ρ}

theorem searchWithin {n k} (search : ∀ j, n ≤ j → j ≤ k →
      (hit j → body (f j) = .done (out j)) ∧ (¬ hit j → body (f j) = .more (f (j+1))))
    (first : FirstFrom hit n k) (fuel : Nat) (enough : k-n < fuel) :
    run body fuel (f n) = some (out k) := by
  induction fuel generalizing n with
  | zero => omega
  | succ fuel ih =>
    have here := search n (Nat.le_refl n) first.1
    by_cases now : hit n
    · have same : k = n := by
        by_contra apart
        exact first.2.2 n (Nat.le_refl n) (by have := first.1; omega) now
      subst same
      exact runDone (here.1 now) fuel
    · have later : n ≠ k := fun same => now (same ▸ first.2.1)
      have le := first.1
      rw [runMore (here.2 now)]
      exact ih (fun j low => search j (by omega))
        ⟨by omega,first.2.1,fun j low high => first.2.2 j (by omega) high⟩ (by omega)

theorem searchRun (search : Searches body f hit out) {n k} (first : FirstFrom hit n k)
    (fuel : Nat) (enough : k-n < fuel) : run body fuel (f n) = some (out k) :=
  searchWithin (fun j _ _ => search j) first fuel enough

theorem searchReturns (search : Searches body f hit out) {n r} :
    Returns body (f n) r ↔ ∃ k, FirstFrom hit n k ∧ r = out k := by
  constructor
  · intro ⟨fuel,ok⟩
    induction fuel generalizing n with
    | zero => simp [run] at ok
    | succ fuel ih =>
      by_cases now : hit n
      · rw [runDone ((search n).1 now)] at ok
        exact ⟨n,⟨Nat.le_refl n,now,fun j low high => absurd high (by omega)⟩,
          (Option.some.inj ok).symm⟩
      · rw [runMore ((search n).2 now)] at ok
        obtain ⟨k,first,same⟩ := ih ok
        refine ⟨k,⟨by have := first.1; omega,first.2.1,?_⟩,same⟩
        intro j low high
        rcases Nat.eq_or_lt_of_le low with here | after
        · exact here ▸ now
        · exact first.2.2 j after high
  · intro ⟨k,first,same⟩
    subst same
    exact ⟨k-n+1,searchRun search first _ (by omega)⟩

theorem searchDiverges (search : Searches body f hit out) {n}
    (never : ∀ k, n ≤ k → ¬ hit k) : Diverges body (f n) := by
  rw [divergesIff]
  intro ⟨r,returned⟩
  obtain ⟨k,first,_⟩ := (searchReturns search).mp returned
  exact never k first.1 first.2.1

end UdpBalancer.Loop
