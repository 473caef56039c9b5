import Mathlib.Logic.Function.Basic

/-! Flags read one after the other while others store into them. What a reader has
loaded is no moment's state; it lies between the flags that stayed up the whole time
and those that were up at some moment. -/
namespace UdpBalancer.Moments

variable {ι : Type} {alive now view : ι → Bool} {changes : List (ι × Bool)}

/- Since the flags were `alive`, with the stores `changes` after that. -/
def Steady (alive : ι → Bool) (changes : List (ι × Bool)) (i : ι) : Prop :=
  alive i = true ∧ (i,false) ∉ changes

def Seen (alive : ι → Bool) (changes : List (ι × Bool)) (i : ι) : Prop :=
  alive i = true ∨ (i,true) ∈ changes

def Between (alive : ι → Bool) (changes : List (ι × Bool)) (i : ι) (flag : Bool) : Prop :=
  (Steady alive changes i → flag = true) ∧ (flag = true → Seen alive changes i)

theorem betweenNil (i : ι) : Between alive [] i (alive i) := ⟨fun steady => steady.1,.inl⟩

theorem betweenLater {i flag} (between : Between alive changes i flag) (more : List (ι × Bool)) :
    Between alive (changes ++ more) i flag := by
  refine ⟨fun steady => between.1 ⟨steady.1,fun mem => steady.2 (List.mem_append_left _ mem)⟩,
    fun up => ?_⟩
  exact (between.2 up).imp_right (List.mem_append_left _)

theorem betweenStore [DecidableEq ι] (between : ∀ i, Between alive changes i (now i)) (j : ι)
    (flag : Bool) (i : ι) :
    Between alive (changes ++ [(j,flag)]) i (Function.update now j flag i) := by
  by_cases same : i = j
  · subst same
    rw [Function.update_self]
    have stored : (i,flag) ∈ changes ++ [(i,flag)] := List.mem_append_right _ List.mem_cons_self
    cases flag with
    | true => exact ⟨fun _ => rfl,fun _ => .inr stored⟩
    | false => exact ⟨fun steady => absurd stored steady.2,nofun⟩
  · rw [Function.update_of_ne same]
    exact betweenLater (between i) _

def Loaded (alive : ι → Bool) (changes : List (ι × Bool)) (visited : List ι) (view : ι → Bool) :
    Prop :=
  ∀ i ∈ visited, Between alive changes i (view i)

theorem loadedLater {visited} (loaded : Loaded alive changes visited view)
    (more : List (ι × Bool)) : Loaded alive (changes ++ more) visited view :=
  fun i mem => betweenLater (loaded i mem) more

theorem loadedNext [DecidableEq ι] {visited} (loaded : Loaded alive changes visited view)
    (between : ∀ i, Between alive changes i (now i)) (j : ι) :
    Loaded alive changes (visited ++ [j]) (Function.update view j (now j)) := by
  intro i mem
  by_cases same : i = j
  · subst same
    rw [Function.update_self]
    exact between i
  · rw [Function.update_of_ne same]
    have earlier : i ∈ visited := by
      rcases List.mem_append.mp mem with held | last
      · exact held
      · exact absurd (List.mem_singleton.mp last) same
    exact loaded i earlier

end UdpBalancer.Moments
