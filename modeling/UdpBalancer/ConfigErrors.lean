import UdpBalancer.Config
import UdpBalancer.Requests

/-! Where a configuration is wrong. The message of a refused configuration names the
part whose check failed first, and it names no other. -/
namespace UdpBalancer.Config
open NetParse Reader Requests

inductive Part where
  | status
  | server (index : Nat)
  | backend (server index : Nat)
  | mirror (server index : Nat)
  deriving DecidableEq, Repr

/- What a message about a part begins with. The path of a server is also in front of
its backends and mirror targets, so the colon belongs to it. -/
def Part.path : Part → String
  | .status => "invalid status address '"
  | .server i => serverPath i ++ ":"
  | .backend i j => backendPath i j
  | .mirror i j => mirrorPath i j

variable (showF64 : F64 ℚ → String)

abbrev Checked := Part × Except ConfigError Unit

def asked {α : Type} (part : Part) (x : Except ConfigError α) : Checked := (part,x.map fun _ => ())

def checkedAll {α : Type} (xs : List α) (plan : α → Nat → List Checked) (index : Nat) :
    List Checked := (xs.zipIdx index).flatMap fun (x,k) => plan x k

def backendChecks (index : Nat) (balancer : BalancerConfig) : List Checked :=
  asked (.server index) (check balancer.backends.isEmpty
    (serverPath index ++ ": balancer must have at least one backend"))::
  asked (.server index) (check
    ((balancer.algorithm == .rh || balancer.algorithm == .maglev) && balancer.hashKey.isEmpty)
    (serverPath index ++ ": " ++ algorithmName balancer.algorithm ++
      " algorithm requires at least one hash_key field"))::
  asked (.server index) (check (balancer.proxyTimeout == 0)
    (serverPath index ++ ": proxy_timeout must be greater than 0"))::
  checkedAll balancer.backends
    (fun backend j => [asked (.backend index j) (validateBackend showF64 backend index j)]) 0

def mirrorChecks (index : Nat) (mirrors : MirrorSectionConfig) : List Checked :=
  checkedAll mirrors.targets
    (fun mirror j => [asked (.mirror index j) (validateMirror showF64 mirror index j)]) 0

def serverChecks (server : ServerConfig) (index : Nat) : List Checked :=
  asked (.server index) (expectAddress (serverPath index) server.address)::
  asked (.server index) (check (decide (1024 < server.listenerWorkers))
    (serverPath index ++ ": listener_workers must be 0-1024, got " ++
      toString server.listenerWorkers))::
  asked (.server index) (check (server.balancer.isNone && !hasMirror server)
    (serverPath index ++ ": must have at least one balancer or mirror"))::
  (server.balancer.elim [] (backendChecks showF64 index) ++
    server.mirror.elim [] (mirrorChecks showF64 index))

def checks (config : Config) : List Checked :=
  asked .status (validateStatusAddr config.status)::
    checkedAll config.servers (serverChecks showF64) 0

abbrev Asks {α : Type} (plan : List Checked) (x : Except ConfigError α) : Prop :=
  Follows Prod.snd (fun _ => True) plan x

theorem asksOne {α : Type} (part : Part) (x : Except ConfigError α) : Asks [asked part x] x :=
  followsWiden (followsOne rfl) fun _ _ => trivial

theorem asksThen {α β : Type} {plan later : List Checked} {x : Except ConfigError α}
    {f : α → Except ConfigError β} (first : Asks plan x) (next : ∀ a, Asks later (f a)) :
    Asks (plan ++ later) (x >>= f) := followsThen first fun a _ => next a

theorem asksNext {α β : Type} {part : Part} {later : List Checked} {x : Except ConfigError α}
    {f : α → Except ConfigError β} (next : ∀ a, Asks later (f a)) :
    Asks (asked part x::later) (x >>= f) := asksThen (asksOne part x) next

theorem asksOptional {α : Type} {field : Option α} {validate : α → Except ConfigError Unit}
    {plan : α → List Checked} (each : ∀ x, Asks (plan x) (validate x)) :
    Asks (field.elim [] plan) (optional field validate) := by
  cases field with
  | none => exact .done trivial
  | some x => exact each x

theorem asksAll {α : Type} {xs : List α} {validate : α → Nat → Except ConfigError Unit}
    {plan : α → Nat → List Checked} (each : ∀ x k, Asks (plan x k) (validate x k)) (index : Nat) :
    Asks (checkedAll xs plan index) (validateAll xs validate index) := by
  induction xs generalizing index with
  | nil => exact .done trivial
  | cons x rest ih => exact asksThen (each x index) fun _ => ih (index+1)

theorem balancerAsks (balancer : BalancerConfig) (index : Nat) :
    Asks (backendChecks showF64 index balancer) (validateBalancer showF64 balancer index) :=
  asksNext fun _ => asksNext fun _ => asksNext fun _ => asksAll (fun _ _ => asksOne _ _) 0

theorem serverAsks (server : ServerConfig) (index : Nat) :
    Asks (serverChecks showF64 server index) (validateServer showF64 server index) :=
  asksNext fun _ => asksNext fun _ => asksNext fun _ =>
    asksThen (asksOptional fun balancer => balancerAsks showF64 balancer index) fun _ =>
      asksOptional fun _ => asksAll (fun _ _ => asksOne _ _) 0

theorem validateAsks (config : Config) :
    Asks (checks showF64 config) (validate showF64 config) :=
  asksNext fun _ => asksAll (serverAsks showF64) 0

def Signed (c : Checked) : Prop := Names c.1.path c.2

theorem signedAsked {α : Type} {part : Part} {x : Except ConfigError α}
    (names : Names part.path x) : Signed (asked part x) := by
  intro message failed
  cases x with
  | ok a => contradiction
  | error e => exact names message (congrArg Except.error (Except.error.inj failed))

theorem beginsList {path message : String} :
    Begins path message ↔ path.toList <+: message.toList := by
  constructor
  · rintro ⟨rest,rfl⟩
    exact ⟨rest.toList,String.toList_append.symm⟩
  · intro ⟨rest,same⟩
    refine ⟨String.ofList rest,String.toList_inj.mp ?_⟩
    rw [String.toList_append,String.toList_ofList,same]

theorem beginsColon (path : String) {text : String} (colon : text.toList.head? = some ':') :
    Begins (path ++ ":") (path ++ text) := by
  rw [beginsList,String.toList_append,String.toList_append,List.prefix_append_right_inj]
  obtain ⟨rest,same⟩ := List.head?_eq_some_iff.mp colon
  exact ⟨rest,same.symm⟩

theorem addressNames (index : Nat) (address : String) :
    Names (serverPath index ++ ":") (expectAddress (serverPath index) address) :=
  namesExpect (beginsMore (beginsMore (beginsColon _ rfl) _) _) _

theorem checkedAllSigned {α : Type} {xs : List α} {plan : α → Nat → List Checked} {index : Nat}
    (each : ∀ x k, ∀ c ∈ plan x k, Signed c) : ∀ c ∈ checkedAll xs plan index, Signed c := by
  intro c mem
  obtain ⟨⟨x,k⟩,_,inside⟩ := List.mem_flatMap.mp mem
  exact each x k c inside

theorem elimSigned {α : Type} {field : Option α} {plan : α → List Checked}
    (each : ∀ x, ∀ c ∈ plan x, Signed c) : ∀ c ∈ field.elim [] plan, Signed c := by
  cases field with
  | none => exact fun c mem => absurd mem List.not_mem_nil
  | some x => exact each x

theorem consSigned {c : Checked} {later : List Checked} (first : Signed c)
    (rest : ∀ d ∈ later, Signed d) : ∀ d ∈ c::later, Signed d :=
  List.forall_mem_cons.mpr ⟨first,rest⟩

theorem backendChecksSigned (index : Nat) (balancer : BalancerConfig) :
    ∀ c ∈ backendChecks showF64 index balancer, Signed c := by
  refine consSigned (signedAsked (namesCheck (beginsColon _ rfl) _))
    (consSigned (signedAsked (namesCheck (beginsMore (beginsMore (beginsColon _ rfl) _) _) _))
      (consSigned (signedAsked (namesCheck (beginsColon _ rfl) _))
        (checkedAllSigned fun backend j => consSigned (signedAsked ?_)
          fun c mem => absurd mem List.not_mem_nil)))
  exact backendNames showF64 backend index j

theorem serverChecksSigned (server : ServerConfig) (index : Nat) :
    ∀ c ∈ serverChecks showF64 server index, Signed c := by
  refine consSigned (signedAsked (addressNames index server.address))
    (consSigned (signedAsked (namesCheck (beginsMore (beginsColon _ rfl) _) _))
      (consSigned (signedAsked (namesCheck (beginsColon _ rfl) _)) fun c mem => ?_))
  rcases List.mem_append.mp mem with balancing | mirroring
  · exact elimSigned (backendChecksSigned showF64 index) c balancing
  · refine elimSigned (fun mirrors => checkedAllSigned fun mirror j =>
      consSigned (signedAsked ?_) fun c mem => absurd mem List.not_mem_nil) c mirroring
    exact mirrorNames showF64 mirror index j

theorem checksSigned (config : Config) : ∀ c ∈ checks showF64 config, Signed c :=
  consSigned (signedAsked (namesThen (namesExpect (beginsShown _ _ _) _)
    fun _ _ failed => by contradiction))
    (checkedAllSigned (serverChecksSigned showF64))

theorem bracketed {n m : Nat} {x y : List Char}
    (same : Nat.toDigits 10 n ++ ']'::x = Nat.toDigits 10 m ++ ']'::y) : n = m ∧ x = y := by
  have ends : ∀ s, Ends 10 (']'::s) := endsAt (by decide)
  have first : number 10 none false (max n m) (Nat.toDigits 10 n ++ ']'::x) = some (n,']'::x) :=
    numberPrinted decimal false (fitsFree (Nat.le_max_left n m)) (Nat.le_max_left n m) (ends x)
  have second : number 10 none false (max n m) (Nat.toDigits 10 m ++ ']'::y) = some (m,']'::y) :=
    numberPrinted decimal false (fitsFree (Nat.le_max_right n m)) (Nat.le_max_right n m) (ends y)
  rw [same,second] at first
  obtain ⟨numbers,rests⟩ := Prod.mk.inj (Option.some.inj first)
  exact ⟨numbers.symm,(List.cons.inj rests).2.symm⟩

def opened (index : Nat) (tail : List Char) : List Char :=
  ['s','e','r','v','e','r','['] ++ (Nat.toDigits 10 index ++ ']'::tail)

theorem openedSame {i k : Nat} {a b x y : List Char} (same : opened i a ++ x = opened k b ++ y) :
    i = k ∧ a ++ x = b ++ y := by
  simp only [opened,List.append_assoc] at same
  exact bracketed (List.append_cancel_left same)

theorem openedHead (i : Nat) (a x : List Char) : (opened i a ++ x).head? = some 's' := by
  simp [opened]

theorem statusHead (x : List Char) : (Part.status.path.toList ++ x).head? = some 'i' := by
  simp [Part.path]

theorem serverList (i : Nat) : (Part.server i).path.toList = opened i [':'] := by
  simp [Part.path,serverPath,opened]

theorem backendList (i j : Nat) : (Part.backend i j).path.toList =
    opened i ('.' :: 'b' :: ("ackend[".toList ++ (Nat.toDigits 10 j ++ [']']))) := by
  simp [Part.path,backendPath,serverPath,opened]

theorem mirrorList (i j : Nat) : (Part.mirror i j).path.toList =
    opened i ('.' :: 'm' :: ("irror.targets[".toList ++ (Nat.toDigits 10 j ++ [']']))) := by
  simp [Part.path,mirrorPath,serverPath,opened]

theorem closedSame {j k : Nat} {a x y : List Char}
    (same : a ++ (Nat.toDigits 10 j ++ [']']) ++ x = a ++ (Nat.toDigits 10 k ++ [']']) ++ y) :
    j = k := by
  simp only [List.append_assoc] at same
  exact (bracketed (List.append_cancel_left same)).1

theorem statusApart {i : Nat} {a x y : List Char}
    (same : Part.status.path.toList ++ x = opened i a ++ y) : False := by
  have heads := congrArg List.head? same
  rw [statusHead,openedHead] at heads
  exact absurd heads (by decide)

theorem pathsApart {p q : Part} {x y : List Char}
    (same : p.path.toList ++ x = q.path.toList ++ y) : p = q := by
  cases p with
  | status =>
    cases q with
    | status => exact rfl
    | server k =>
      rw [serverList] at same
      exact (statusApart same).elim
    | backend k n =>
      rw [backendList] at same
      exact (statusApart same).elim
    | mirror k n =>
      rw [mirrorList] at same
      exact (statusApart same).elim
  | server i =>
    rw [serverList] at same
    cases q with
    | status => exact (statusApart same.symm).elim
    | server k =>
      rw [serverList] at same
      rw [(openedSame same).1]
    | backend k n =>
      rw [backendList] at same
      have dot := (List.cons.inj (openedSame same).2).1
      exact absurd dot (by decide)
    | mirror k n =>
      rw [mirrorList] at same
      have dot := (List.cons.inj (openedSame same).2).1
      exact absurd dot (by decide)
  | backend i j =>
    rw [backendList] at same
    cases q with
    | status => exact (statusApart same.symm).elim
    | server k =>
      rw [serverList] at same
      have dot := (List.cons.inj (openedSame same).2).1
      exact absurd dot (by decide)
    | backend k n =>
      rw [backendList] at same
      obtain ⟨rfl,rest⟩ := openedSame same
      have tails := (List.cons.inj (List.cons.inj rest).2).2
      rw [closedSame tails]
    | mirror k n =>
      rw [mirrorList] at same
      have letter := (List.cons.inj (List.cons.inj (openedSame same).2).2).1
      exact absurd letter (by decide)
  | mirror i j =>
    rw [mirrorList] at same
    cases q with
    | status => exact (statusApart same.symm).elim
    | server k =>
      rw [serverList] at same
      have dot := (List.cons.inj (openedSame same).2).1
      exact absurd dot (by decide)
    | backend k n =>
      rw [backendList] at same
      have letter := (List.cons.inj (List.cons.inj (openedSame same).2).2).1
      exact absurd letter (by decide)
    | mirror k n =>
      rw [mirrorList] at same
      obtain ⟨rfl,rest⟩ := openedSame same
      have tails := (List.cons.inj (List.cons.inj rest).2).2
      rw [closedSame tails]

theorem errorsLocate {config : Config} {message : String}
    (failed : validate showF64 config = .error (.validation message)) :
    ∃ before part after, checks showF64 config =
        before ++ (part,.error (.validation message))::after ∧
      (∀ c ∈ before, c.2 = .ok ()) ∧ ∀ other, Begins other.path message ↔ other = part := by
  obtain ⟨before,⟨part,x⟩,after,split,passed,refused⟩ :=
    followsFails (validateAsks showF64 config) failed
  cases refused
  have signed := checksSigned showF64 config (part,.error (.validation message))
    (split ▸ List.mem_append_right before List.mem_cons_self)
  have named : Begins part.path message := signed message rfl
  refine ⟨before,part,after,split,passed,fun other => ⟨fun begins => ?_,fun same => same ▸ named⟩⟩
  obtain ⟨x,one⟩ := beginsList.mp begins
  obtain ⟨y,two⟩ := beginsList.mp named
  exact pathsApart (one.trans two.symm)

def portless : Config := {servers := [
  {address := ":53",balancer := some {backends := [{address := "10.0.0.1:53"}]}},
  {address := ":54",balancer := some {backends := [{address := "10.0.0.1:53"},
    {address := "10.0.0.2"}]}}]}

theorem portlessLocated : ∃ before part after, checks (fun _ => "") portless =
      before ++ (part,.error (.validation ("server[1].backend[1]: invalid address '10.0.0.2': " ++
        "invalid address: invalid socket address syntax")))::after ∧
    (∀ c ∈ before, c.2 = .ok ()) ∧ ∀ other, Begins other.path
      ("server[1].backend[1]: invalid address '10.0.0.2': " ++
        "invalid address: invalid socket address syntax") ↔ other = part :=
  errorsLocate (fun _ => "") (by decide +kernel)

end UdpBalancer.Config
