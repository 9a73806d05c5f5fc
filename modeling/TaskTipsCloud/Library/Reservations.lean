import Mathlib

/-!
# Reservations of a budget

Tasks reserve parts of a budget. What they hold together is kept in one atomic counter of a machine
word: a task adds its part in a loop of compare-and-exchange, which may fail without a reason, and
subtracts it when it gives the part back. Seen from outside each part is taken and given back at
once, and the parts together never exceed the budget.
-/

namespace TaskTipsCloud

/-! ## What the counter is for -/

/-- The parts that the tasks hold change: a task takes a part that fits, or gives its part back. -/
inductive PoolStep {ι : Type} [DecidableEq ι] [Fintype ι] (capacity : ℕ) :
    (ι → ℕ) → (ι → ℕ) → Prop
  | stay (held : ι → ℕ) : PoolStep capacity held held
  | take {held : ι → ℕ} {i : ι} {n : ℕ} (hfree : held i = 0)
    (hfits : ∑ j, held j + n ≤ capacity) : PoolStep capacity held (Function.update held i n)
  | giveBack (held : ι → ℕ) (i : ι) : PoolStep capacity held (Function.update held i 0)

/-! ## The counter -/

/-- Addition that fails when it leaves the word. -/
def addWithin (word a b : ℕ) : Option ℕ := if a + b < word then some (a + b) else none

/-- Subtraction modulo the word. -/
def wrappingSub (word a b : ℕ) : ℕ := (a + word - b) % word

/-- Where a task stands. -/
inductive Phase where
  | idle
  /-- It asks for a part, and has not looked at the counter yet. -/
  | loading (bytes : ℕ)
  /-- It has last seen `current` in the counter. -/
  | comparing (bytes current : ℕ)
  | holding (bytes : ℕ)
deriving DecidableEq

/-- The part that a task holds. -/
def Phase.held : Phase → ℕ
  | .holding n => n
  | _ => 0

/-- The counter, and where the tasks stand. -/
structure Counter (ι : Type) where
  used : ℕ
  phase : ι → Phase

section

variable {ι : Type} [DecidableEq ι]

/-- The counter after a task has moved on. -/
def Counter.moveTo (c : Counter ι) (i : ι) (used : ℕ) (p : Phase) : Counter ι :=
  ⟨used, Function.update c.phase i p⟩

/-- What the counter becomes, if the part fits beside `current`. -/
def nextUse (word capacity current bytes : ℕ) : Option ℕ :=
  (addWithin word current bytes).filter (· ≤ capacity)

/-- What a step of a task is. -/
inductive CounterEvent where
  | asked (bytes : ℕ)
  /-- It looks at the counter, or fails to exchange it. -/
  | looked
  | answered (bytes : ℕ) (granted : Bool)
  | gaveBack

/-- One atomic step of a task. -/
inductive CounterStep (word capacity : ℕ) (c : Counter ι) (i : ι) :
    CounterEvent → Counter ι → Prop
  | asks (h : c.phase i = .idle) (n : ℕ) :
    CounterStep word capacity c i (.asked n) (c.moveTo i c.used (.loading n))
  | loads {n : ℕ} (h : c.phase i = .loading n) :
    CounterStep word capacity c i .looked (c.moveTo i c.used (.comparing n c.used))
  /-- The exchange succeeds only when the counter is still what was seen. -/
  | exchanges {n next : ℕ} (h : c.phase i = .comparing n c.used)
    (hnext : nextUse word capacity c.used n = some next) :
    CounterStep word capacity c i (.answered n true) (c.moveTo i next (.holding n))
  /-- It may fail in any case, and shows what the counter is. -/
  | fails {n current next : ℕ} (h : c.phase i = .comparing n current)
    (hnext : nextUse word capacity current n = some next) :
    CounterStep word capacity c i .looked (c.moveTo i c.used (.comparing n c.used))
  | refuses {n current : ℕ} (h : c.phase i = .comparing n current)
    (hnext : nextUse word capacity current n = none) :
    CounterStep word capacity c i (.answered n false) (c.moveTo i c.used .idle)
  | givesBack {n : ℕ} (h : c.phase i = .holding n) :
    CounterStep word capacity c i .gaveBack (c.moveTo i (wrappingSub word c.used n) .idle)

variable {word capacity : ℕ} {c c' : Counter ι} {i : ι} {e : CounterEvent}

/-- A sum is counted when it fits the word. -/
theorem addWithin_eq_some_iff {a b n : ℕ} :
    addWithin word a b = some n ↔ a + b < word ∧ n = a + b := by
  unfold addWithin
  split <;> simp_all [eq_comm]

/-- A use is granted when its sum fits the word and the capacity. -/
theorem nextUse_eq_some_iff {current bytes next : ℕ} :
    nextUse word capacity current bytes = some next ↔
      current + bytes < word ∧ current + bytes ≤ capacity ∧ next = current + bytes := by
  simp only [nextUse, Option.filter_eq_some_iff, addWithin_eq_some_iff, decide_eq_true_eq]
  constructor
  · rintro ⟨⟨hword, rfl⟩, hfits⟩
    exact ⟨hword, hfits, rfl⟩
  · rintro ⟨hword, hfits, rfl⟩
    exact ⟨⟨hword, rfl⟩, hfits⟩

/-- A use is refused when its sum exceeds the capacity. -/
theorem nextUse_eq_none_iff {current bytes : ℕ} (hword : capacity < word) :
    nextUse word capacity current bytes = none ↔ capacity < current + bytes := by
  rw [Option.eq_none_iff_forall_ne_some]
  constructor
  · intro h
    by_contra hle
    exact h _ (nextUse_eq_some_iff.mpr ⟨by omega, by omega, rfl⟩)
  · intro h next hnext
    have hle := (nextUse_eq_some_iff.mp hnext).2.1
    omega

/-- The subtraction is exact when the part is in the counter. -/
theorem wrappingSub_eq {a b : ℕ} (hle : b ≤ a) (hlt : a < word) : wrappingSub word a b = a - b := by
  unfold wrappingSub
  rw [show a + word - b = a - b + word by omega, Nat.add_mod_right]
  exact Nat.mod_eq_of_lt (by omega)

/-- The parts that the tasks hold. -/
def Counter.held (c : Counter ι) (i : ι) : ℕ := (c.phase i).held

/-- A user that moves is in its new phase. -/
@[simp] theorem Counter.phase_moveTo_self (u : ℕ) (p : Phase) :
    (c.moveTo i u p).phase i = p := Function.update_self ..

/-- The others stay in theirs. -/
theorem Counter.phase_moveTo_of_ne {j : ι} (h : j ≠ i) (u : ℕ) (p : Phase) :
    (c.moveTo i u p).phase j = c.phase j := Function.update_of_ne h ..

/-- The user that moves holds what its new phase does. -/
theorem Counter.held_moveTo (u : ℕ) (p : Phase) :
    (c.moveTo i u p).held = Function.update c.held i p.held := by
  funext j
  by_cases hj : j = i
  · subst hj
    simp [Counter.held]
  · rw [Function.update_of_ne hj]
    simp [Counter.held, Counter.phase_moveTo_of_ne hj]

/-- A task that held nothing and takes nothing changes nothing. -/
theorem Counter.held_moveTo_of_zero {u : ℕ} {p : Phase} (h : c.held i = 0) (hp : p.held = 0) :
    (c.moveTo i u p).held = c.held := by
  rw [c.held_moveTo, hp, ← h, Function.update_eq_self]

/-- Other tasks stay where they are. -/
theorem CounterStep.phase_of_ne (h : CounterStep word capacity c i e c') {j : ι} (hj : j ≠ i) :
    c'.phase j = c.phase j := by
  cases h <;> exact Counter.phase_moveTo_of_ne hj ..

/-- What a task compares with, it has seen in the counter. -/
theorem CounterStep.comparing (h : CounterStep word capacity c i e c') {j : ι} {n v : ℕ}
    (hj : c'.phase j = .comparing n v) : c.phase j = .comparing n v ∨ c'.used = v := by
  by_cases hji : j = i
  · subst hji
    cases h <;> rw [Counter.phase_moveTo_self] at hj <;> cases hj <;> exact .inr rfl
  · rw [h.phase_of_ne hji] at hj
    exact .inl hj

/-! ## The counter keeps the parts -/

variable [Fintype ι]

/-- The counter is the sum of the parts, and within the budget. -/
structure Counter.Sound (capacity : ℕ) (c : Counter ι) : Prop where
  used_eq : c.used = ∑ i, c.held i
  used_le : c.used ≤ capacity

/-- A sum when one term changes. -/
theorem sum_update (f : ι → ℕ) (i : ι) (n : ℕ) :
    ∑ j, Function.update f i n j + f i = ∑ j, f j + n := by
  rw [Finset.sum_update_of_mem (Finset.mem_univ i), ← Finset.add_sum_erase _ f (Finset.mem_univ i),
    Finset.sdiff_singleton_eq_erase]
  ring

/-- A step that changes no part keeps the counter sound. -/
theorem Counter.Sound.moveTo (hc : c.Sound capacity) {p : Phase} (h : c.held i = 0)
    (hp : p.held = 0) :
    (c.moveTo i c.used p).Sound capacity ∧ PoolStep capacity c.held (c.moveTo i c.used p).held := by
  have hheld : (c.moveTo i c.used p).held = c.held := Counter.held_moveTo_of_zero h hp
  refine ⟨⟨?_, hc.used_le⟩, ?_⟩
  · rw [hheld]
    exact hc.used_eq
  · rw [hheld]
    exact .stay _

/-- Each step of the counter takes a part that fits, gives one back, or changes nothing. -/
theorem CounterStep.refines (hword : capacity < word) (hc : c.Sound capacity)
    (h : CounterStep word capacity c i e c') :
    c'.Sound capacity ∧ PoolStep capacity c.held c'.held := by
  cases h with
  | asks h n => exact hc.moveTo (by simp [Counter.held, h, Phase.held]) rfl
  | loads h => exact hc.moveTo (by simp [Counter.held, h, Phase.held]) rfl
  | fails h hnext => exact hc.moveTo (by simp [Counter.held, h, Phase.held]) rfl
  | refuses h hnext => exact hc.moveTo (by simp [Counter.held, h, Phase.held]) rfl
  | @exchanges n next h hnext =>
    obtain ⟨-, hfits, rfl⟩ := nextUse_eq_some_iff.mp hnext
    have hfree : c.held i = 0 := by simp [Counter.held, h, Phase.held]
    have hsum := sum_update c.held i n
    rw [hfree, Nat.add_zero] at hsum
    refine ⟨⟨?_, hfits⟩, ?_⟩
    · rw [Counter.held_moveTo]
      show c.used + n = _
      rw [Phase.held, hsum, hc.used_eq]
    · rw [Counter.held_moveTo]
      exact .take hfree (by rw [← hc.used_eq]; exact hfits)
  | @givesBack n h =>
    have hpart : c.held i = n := by simp [Counter.held, h, Phase.held]
    have hle : c.held i ≤ c.used := by
      rw [hc.used_eq]
      exact Finset.single_le_sum (fun _ _ => Nat.zero_le _) (Finset.mem_univ i)
    have hsub : wrappingSub word c.used n = c.used - n :=
      wrappingSub_eq (by omega) (lt_of_le_of_lt hc.used_le hword)
    have hsum := sum_update c.held i 0
    have hused := hc.used_eq
    rw [hsub]
    refine ⟨⟨?_, le_trans (Nat.sub_le ..) hc.used_le⟩, ?_⟩
    · rw [Counter.held_moveTo]
      show c.used - n = ∑ j, Function.update c.held i 0 j
      omega
    · rw [Counter.held_moveTo]
      exact .giveBack _ _

end

end TaskTipsCloud
