import Mathlib

/-!
# Programs that call operations

A program calls operations one after the other. Each one replies with a value or an error, and what
the program does next depends on the reply. What the operations do is left open: a program only
determines which lists of calls it can make, and how it ends after each of them.
-/

namespace TaskTipsCloud

/-- A program over the operations `Op`. -/
inductive Program (Op : Type) (Reply : Op → Type) (ε α : Type) where
  | done (a : α)
  | fail (e : ε)
  | call (op : Op) (next : Except ε (Reply op) → Program Op Reply ε α)

/-- An operation that was called, with its reply. -/
structure Called (Op : Type) (Reply : Op → Type) (ε : Type) where
  op : Op
  reply : Except ε (Reply op)

/-- Whether an operation failed. -/
def Called.Failed {Op : Type} {Reply : Op → Type} {ε : Type} (c : Called Op Reply ε) : Prop :=
  ∃ e, c.reply = .error e

namespace Program

variable {Op : Type} {Reply : Op → Type} {ε α β : Type}

/-- Goes on after a program has ended, with or without an error. -/
def handle : Program Op Reply ε α → (Except ε α → Program Op Reply ε β) → Program Op Reply ε β
  | .done a, f => f (.ok a)
  | .fail e, f => f (.error e)
  | .call op next, f => .call op fun reply => (next reply).handle f

/-- The program that ends with a result. -/
def ofExcept : Except ε α → Program Op Reply ε α
  | .ok a => .done a
  | .error e => .fail e

/-- Goes on after a program, unless it has failed. -/
def andThen (x : Program Op Reply ε α) (f : α → Program Op Reply ε β) : Program Op Reply ε β :=
  x.handle fun
    | .ok a => f a
    | .error e => .fail e

/-- Programs are sequenced by `andThen`. -/
instance : Monad (Program Op Reply ε) where
  pure := .done
  bind := andThen

/-- Calls one operation and fails when it does. -/
def perform (op : Op) : Program Op Reply ε (Reply op) := .call op ofExcept

/-- The result of a program as a value. -/
def attempt (x : Program Op Reply ε α) : Program Op Reply ε (Except ε α) := x.handle .done

/-- Runs `cleanup` after a program, however it ends. -/
def ensure (x : Program Op Reply ε α) (cleanup : Program Op Reply ε Unit) :
    Program Op Reply ε α :=
  x.handle fun r => cleanup.handle fun _ => ofExcept r

/-- Runs a body for some values until it fails. -/
def forEach (body : α → Program Op Reply ε Unit) : List α → Program Op Reply ε Unit
  | [] => .done ()
  | a :: as => (body a).andThen fun _ => forEach body as

/-- A program as one over other operations, which reply as its own do. -/
def lift {Op' : Type} {Reply' : Op' → Type} {ε' : Type} (embed : Op → Op')
    (reply : (op : Op) → Except ε' (Reply' (embed op)) → Except ε (Reply op)) (error : ε → ε') :
    Program Op Reply ε α → Program Op' Reply' ε' α
  | .done a => .done a
  | .fail e => .fail (error e)
  | .call op next => .call (embed op) fun r => (next (reply op r)).lift embed reply error

/-! ## The calls of a program -/

/-- After the calls, the program that is left. -/
inductive After : Program Op Reply ε α → List (Called Op Reply ε) → Program Op Reply ε α → Prop
  | start {x : Program Op Reply ε α} : After x [] x
  | call {op : Op} {next : Except ε (Reply op) → Program Op Reply ε α}
      {reply : Except ε (Reply op)} {calls : List (Called Op Reply ε)} {x : Program Op Reply ε α}
      (h : After (next reply) calls x) : After (.call op next) (⟨op, reply⟩ :: calls) x

/-- A program goes on after calls in two parts. -/
theorem after_append_iff {x y : Program Op Reply ε α} {calls calls' : List (Called Op Reply ε)} :
    After x (calls ++ calls') y ↔ ∃ z, After x calls z ∧ After z calls' y := by
  induction calls generalizing x with
  | nil =>
    constructor
    · exact fun h => ⟨x, .start, h⟩
    · rintro ⟨_, ⟨⟩, h⟩
      exact h
  | cons c calls ih =>
    constructor
    · intro h
      cases h with
      | call h =>
        obtain ⟨z, hz, hy⟩ := ih.mp h
        exact ⟨z, .call hz, hy⟩
    · rintro ⟨z, hz, hy⟩
      cases hz with
      | call hz => exact .call (ih.mpr ⟨z, hz, hy⟩)

/-- After the calls, the program has ended with the result. -/
def Ends (x : Program Op Reply ε α) (calls : List (Called Op Reply ε)) (r : Except ε α) : Prop :=
  After x calls (ofExcept r)

variable {x : Program Op Reply ε α} {f : α → Program Op Reply ε β}
  {calls : List (Called Op Reply ε)}

/-- A program that is done has ended. -/
@[simp] theorem ends_done_iff {a : α} {r : Except ε α} :
    Ends (.done a : Program Op Reply ε α) calls r ↔ calls = [] ∧ r = .ok a := by
  constructor
  · intro h
    cases r with
    | ok b => cases h; exact ⟨rfl, rfl⟩
    | error e => cases h
  · rintro ⟨rfl, rfl⟩
    exact .start

/-- A program that fails has ended. -/
@[simp] theorem ends_fail_iff {e : ε} {r : Except ε α} :
    Ends (.fail e : Program Op Reply ε α) calls r ↔ calls = [] ∧ r = .error e := by
  constructor
  · intro h
    cases r with
    | ok b => cases h
    | error e => cases h; exact ⟨rfl, rfl⟩
  · rintro ⟨rfl, rfl⟩
    exact .start

/-- A program that calls ends after the reply. -/
theorem ends_call_iff {op : Op} {next : Except ε (Reply op) → Program Op Reply ε α}
    {r : Except ε α} : Ends (.call op next) calls r ↔
      ∃ reply rest, calls = ⟨op, reply⟩ :: rest ∧ Ends (next reply) rest r := by
  constructor
  · intro h
    cases r with
    | ok a => cases h with
      | call h => exact ⟨_, _, rfl, h⟩
    | error e => cases h with
      | call h => exact ⟨_, _, rfl, h⟩
  · rintro ⟨reply, rest, rfl, h⟩
    exact .call h

/-- A result ends with itself. -/
@[simp] theorem ends_ofExcept_iff {r r' : Except ε α} :
    Ends (ofExcept r : Program Op Reply ε α) calls r' ↔ calls = [] ∧ r' = r := by
  cases r with
  | ok a => exact ends_done_iff
  | error e => exact ends_fail_iff

/-- An operation ends with its reply. -/
theorem ends_perform_iff {op : Op} {r : Except ε (Reply op)} :
    Ends (perform op) calls r ↔ calls = [⟨op, r⟩] := by
  rw [perform, ends_call_iff]
  constructor
  · rintro ⟨reply, rest, rfl, h⟩
    obtain ⟨rfl, rfl⟩ := ends_ofExcept_iff.mp h
    rfl
  · rintro rfl
    exact ⟨r, [], rfl, ends_ofExcept_iff.mpr ⟨rfl, rfl⟩⟩

/-- A program that is handled ends, and then its handler. -/
theorem ends_handle_iff {g : Except ε α → Program Op Reply ε β} {r : Except ε β} :
    Ends (x.handle g) calls r ↔ ∃ calls₁ r₁ calls₂, Ends x calls₁ r₁ ∧ Ends (g r₁) calls₂ r ∧
      calls = calls₁ ++ calls₂ := by
  induction x generalizing calls with
  | done a =>
    simp only [handle, ends_done_iff]
    constructor
    · exact fun h => ⟨[], .ok a, calls, ⟨rfl, rfl⟩, h, rfl⟩
    · rintro ⟨_, _, _, ⟨rfl, rfl⟩, h, rfl⟩
      exact h
  | fail e =>
    simp only [handle, ends_fail_iff]
    constructor
    · exact fun h => ⟨[], .error e, calls, ⟨rfl, rfl⟩, h, rfl⟩
    · rintro ⟨_, _, _, ⟨rfl, rfl⟩, h, rfl⟩
      exact h
  | call op next ih =>
    simp only [handle, ends_call_iff, ih]
    constructor
    · rintro ⟨reply, _, rfl, calls₁, r₁, calls₂, h₁, h₂, rfl⟩
      exact ⟨_, r₁, calls₂, ⟨reply, calls₁, rfl, h₁⟩, h₂, rfl⟩
    · rintro ⟨_, r₁, calls₂, ⟨reply, calls₁, rfl, h₁⟩, h₂, rfl⟩
      exact ⟨reply, _, rfl, calls₁, r₁, calls₂, h₁, h₂, rfl⟩

/-- A program with a continuation goes on, or its error ends it. -/
theorem ends_andThen_iff {r : Except ε β} : Ends (x.andThen f) calls r ↔
    (∃ calls₁ a calls₂, Ends x calls₁ (.ok a) ∧ Ends (f a) calls₂ r ∧ calls = calls₁ ++ calls₂) ∨
      ∃ e, Ends x calls (.error e) ∧ r = .error e := by
  rw [andThen, ends_handle_iff]
  constructor
  · rintro ⟨calls₁, r₁, calls₂, h₁, h₂, rfl⟩
    cases r₁ with
    | ok a => exact .inl ⟨calls₁, a, calls₂, h₁, h₂, rfl⟩
    | error e =>
      obtain ⟨rfl, rfl⟩ := ends_fail_iff.mp h₂
      exact .inr ⟨e, by rwa [List.append_nil], rfl⟩
  · rintro (⟨calls₁, a, calls₂, h₁, h₂, rfl⟩ | ⟨e, h, rfl⟩)
    · exact ⟨calls₁, .ok a, calls₂, h₁, h₂, rfl⟩
    · exact ⟨calls, .error e, [], h, ends_fail_iff.mpr ⟨rfl, rfl⟩, (List.append_nil _).symm⟩

/-- A sequence succeeds when both programs do. -/
theorem ends_andThen_ok_iff {b : β} : Ends (x.andThen f) calls (.ok b) ↔
    ∃ calls₁ a calls₂, Ends x calls₁ (.ok a) ∧ Ends (f a) calls₂ (.ok b) ∧
      calls = calls₁ ++ calls₂ := by
  rw [ends_andThen_iff]
  constructor
  · rintro (h | ⟨e, -, he⟩)
    · exact h
    · cases he
  · exact .inl

/-- A program goes on after an operation that has not failed. -/
theorem ends_perform_andThen {op : Op} {g : Reply op → Program Op Reply ε β} {r : Except ε β}
    (h : Ends ((perform op).andThen g) calls r) (hcalls : ∀ c ∈ calls, ¬ c.Failed) :
    ∃ a rest, calls = ⟨op, .ok a⟩ :: rest ∧ Ends (g a) rest r := by
  rcases ends_andThen_iff.mp h with ⟨calls₁, a, calls₂, h₁, h₂, rfl⟩ | ⟨e, he, rfl⟩
  · obtain rfl := ends_perform_iff.mp h₁
    exact ⟨a, calls₂, rfl, h₂⟩
  · obtain rfl := ends_perform_iff.mp he
    exact absurd ⟨e, rfl⟩ (hcalls _ List.mem_cons_self)

/-- A program whose result is taken as a value ends with its result. -/
theorem ends_attempt_iff {r : Except ε (Except ε α)} :
    Ends x.attempt calls r ↔ ∃ r₁, Ends x calls r₁ ∧ r = .ok r₁ := by
  rw [attempt, ends_handle_iff]
  constructor
  · rintro ⟨calls₁, r₁, calls₂, h₁, h₂, rfl⟩
    obtain ⟨rfl, rfl⟩ := ends_done_iff.mp h₂
    exact ⟨r₁, by rwa [List.append_nil], rfl⟩
  · rintro ⟨r₁, h, rfl⟩
    exact ⟨calls, r₁, [], h, ends_done_iff.mpr ⟨rfl, rfl⟩, (List.append_nil _).symm⟩

/-- A program that is done is followed by the next one. -/
@[simp] theorem done_andThen (a : α) : (.done a : Program Op Reply ε α).andThen f = f a := rfl

/-- A program that fails is not followed. -/
@[simp] theorem fail_andThen (e : ε) :
    (.fail e : Program Op Reply ε α).andThen f = .fail e := rfl

/-- The sequence is `andThen`. -/
@[simp] theorem bind_eq (x : Program Op Reply ε α) (f : α → Program Op Reply ε β) :
    x >>= f = x.andThen f := rfl

/-- A value is a program that is done. -/
@[simp] theorem pure_eq (a : α) : (pure a : Program Op Reply ε α) = .done a := rfl

/-! ## What a program has called before -/

/-- Each call of a program is allowed by the calls before it, of which `before` have been made. -/
def Respects (P : List (Called Op Reply ε) → Op → Prop) :
    List (Called Op Reply ε) → Program Op Reply ε α → Prop
  | _, .done _ => True
  | _, .fail _ => True
  | before, .call op next =>
    P before op ∧ ∀ reply, Respects P (before ++ [⟨op, reply⟩]) (next reply)

section Respects

variable {P : List (Called Op Reply ε) → Op → Prop} {before : List (Called Op Reply ε)}

/-- A result makes no call. -/
theorem respects_ofExcept (r : Except ε α) :
    Respects P before (ofExcept r : Program Op Reply ε α) := by cases r <;> trivial

/-- An operation respects what allows it. -/
theorem respects_perform {op : Op} (h : P before op) :
    Respects P before (perform op : Program Op Reply ε (Reply op)) :=
  ⟨h, fun r => respects_ofExcept r⟩

/-- A handler respects what its program does, and goes on with its calls. -/
theorem Respects.handle {g : Except ε α → Program Op Reply ε β} (hx : Respects P before x)
    (hg : ∀ calls r, Ends x calls r → Respects P (before ++ calls) (g r)) :
    Respects P before (x.handle g) := by
  induction x generalizing before with
  | done a => simpa [Program.handle] using hg [] (.ok a) (ends_done_iff.mpr ⟨rfl, rfl⟩)
  | fail e => simpa [Program.handle] using hg [] (.error e) (ends_fail_iff.mpr ⟨rfl, rfl⟩)
  | call op next ih =>
    refine ⟨hx.1, fun reply => ih reply (hx.2 reply) fun calls r h => ?_⟩
    have hrest := hg (⟨op, reply⟩ :: calls) r (ends_call_iff.mpr ⟨reply, calls, rfl, h⟩)
    rwa [List.append_assoc]

/-- What is allowed may be weaker. -/
theorem Respects.mono {P' : List (Called Op Reply ε) → Op → Prop} (hx : Respects P before x)
    (h : ∀ calls op, P calls op → P' calls op) : Respects P' before x := by
  induction x generalizing before with
  | done a => trivial
  | fail e => trivial
  | call op next ih => exact ⟨h before op hx.1, fun reply => ih reply (hx.2 reply)⟩

/-- An embedded program respects what allows all that it embeds. -/
theorem respects_lift {Op₀ : Type} {Reply₀ : Op₀ → Type} {ε₀ : Type} {embed : Op₀ → Op}
    {reply : (op : Op₀) → Except ε (Reply (embed op)) → Except ε₀ (Reply₀ op)} {error : ε₀ → ε}
    (h : ∀ calls op, P calls (embed op)) (x : Program Op₀ Reply₀ ε₀ α) :
    Respects P before (x.lift embed reply error) := by
  induction x generalizing before with
  | done a => trivial
  | fail e => trivial
  | call op next ih => exact ⟨h before op, fun r => ih (reply op r)⟩

/-- A program over other operations respects what its calls respect. -/
theorem Respects.lift {Op' : Type} {Reply' : Op' → Type} {ε' : Type} (embed : Op → Op')
    {reply : (op : Op) → Except ε' (Reply' (embed op)) → Except ε (Reply op)} {error : ε → ε'}
    (back : (op : Op) → Except ε (Reply op) → Except ε' (Reply' (embed op)))
    (hback : ∀ op r, back op (reply op r) = r)
    {P' : List (Called Op' Reply' ε') → Op' → Prop}
    (h : ∀ calls op, P calls op →
      P' (calls.map fun c => ⟨embed c.op, back c.op c.reply⟩) (embed op))
    (hx : Respects P before x) :
    Respects P' (before.map fun c => ⟨embed c.op, back c.op c.reply⟩)
      (x.lift embed reply error) := by
  induction x generalizing before with
  | done a => trivial
  | fail e => trivial
  | call op next ih =>
    refine ⟨h before op hx.1, fun r => ?_⟩
    have hrest := ih (reply op r) (hx.2 (reply op r))
    rw [List.map_append, List.map_singleton, hback] at hrest
    exact hrest

/-- Whatever a program calls is allowed where everything is. -/
theorem respects_of_forall (h : ∀ calls op, P (before ++ calls) op) : Respects P before x := by
  induction x generalizing before with
  | done a => trivial
  | fail e => trivial
  | call op next ih =>
    refine ⟨by simpa using h [] op, fun r => ih r fun calls op => ?_⟩
    rw [List.append_assoc]
    exact h _ op

/-- A program that is attempted respects the same. -/
theorem Respects.attempt (hx : Respects P before x) : Respects P before x.attempt :=
  hx.handle fun _ _ _ => trivial

/-- A sequence respects what both programs do. -/
theorem Respects.andThen (hx : Respects P before x)
    (hf : ∀ calls a, Ends x calls (.ok a) → Respects P (before ++ calls) (f a)) :
    Respects P before (x.andThen f) := by
  refine hx.handle fun calls r h => ?_
  cases r with
  | ok a => exact hf calls a h
  | error e => trivial

/-- A loop respects what its body does. -/
theorem Respects.forEach {β : Type} {body : β → Program Op Reply ε Unit} {as : List β}
    (h : ∀ a ∈ as, ∀ calls, Respects P (before ++ calls) (body a)) :
    Respects P before (forEach body as) := by
  induction as generalizing before with
  | nil => trivial
  | cons a as ih =>
    refine Respects.andThen (by simpa using h a List.mem_cons_self []) fun calls _ _ => ?_
    refine ih fun a' ha' calls' => ?_
    rw [List.append_assoc]
    exact h a' (List.mem_cons_of_mem _ ha') _

/-- A call of a program is allowed by the calls before it. -/
theorem Respects.of_after {calls rest : List (Called Op Reply ε)} {c : Called Op Reply ε}
    {y : Program Op Reply ε α} (hx : Respects P before x) (h : After x (calls ++ c :: rest) y) :
    P (before ++ calls) c.op := by
  induction calls generalizing x before with
  | nil =>
    cases h with
    | call h => simpa using hx.1
  | cons d calls ih =>
    cases h with
    | call h => simpa using ih (hx.2 _) h

/-- All calls of a program are allowed. -/
theorem Respects.forall_mem {K : Op → Prop} {calls : List (Called Op Reply ε)} {r : Except ε α}
    (hx : Respects (fun _ => K) before x) (h : Ends x calls r) : ∀ c ∈ calls, K c.op := by
  intro c hc
  obtain ⟨l, l', rfl⟩ := List.append_of_mem hc
  exact hx.of_after h

end Respects

/-! ## Running a program -/

section Run

variable {σ : Type} {serve : (op : Op) → σ → Except ε (Reply op) × σ} {s : σ}

/-- Runs a program alone, with operations that reply in one way. -/
def run (serve : (op : Op) → σ → Except ε (Reply op) × σ) :
    Program Op Reply ε α → σ → Except ε α × σ
  | .done a, s => (.ok a, s)
  | .fail e, s => (.error e, s)
  | .call op next, s => (next (serve op s).1).run serve (serve op s).2

/-- The calls of this run. -/
def record (serve : (op : Op) → σ → Except ε (Reply op) × σ) :
    Program Op Reply ε α → σ → List (Called Op Reply ε)
  | .done _, _ => []
  | .fail _, _ => []
  | .call op next, s =>
    ⟨op, (serve op s).1⟩ :: (next (serve op s).1).record serve (serve op s).2

/-- A run is one of the executions. -/
theorem ends_record (serve : (op : Op) → σ → Except ε (Reply op) × σ) (x : Program Op Reply ε α)
    (s : σ) : Ends x (x.record serve s) (x.run serve s).1 := by
  induction x generalizing s with
  | done a => exact .start
  | fail e => exact .start
  | call op next ih => exact .call (ih _ _)

/-- A program that is done answers and leaves the state. -/
@[simp] theorem run_done (a : α) : (.done a : Program Op Reply ε α).run serve s = (.ok a, s) := rfl

/-- So does one that fails. -/
@[simp] theorem run_fail (e : ε) : (.fail e : Program Op Reply ε α).run serve s = (.error e, s) :=
  rfl

/-- A result leaves the state. -/
@[simp] theorem run_ofExcept (r : Except ε α) :
    (ofExcept r : Program Op Reply ε α).run serve s = (r, s) := by cases r <;> rfl

/-- An operation is served. -/
@[simp] theorem run_perform (op : Op) : (perform op).run serve s = serve op s := by
  rw [perform, run, run_ofExcept]

/-- The handler runs in the state that the program leaves. -/
@[simp] theorem run_handle (x : Program Op Reply ε α) (g : Except ε α → Program Op Reply ε β) :
    (x.handle g).run serve s = (g (x.run serve s).1).run serve (x.run serve s).2 := by
  induction x generalizing s with
  | done a => rfl
  | fail e => rfl
  | call op next ih => exact ih _

/-- The next program runs in the state that the first one leaves. -/
theorem run_andThen_ok {a : α} {s' : σ} (h : x.run serve s = (.ok a, s')) :
    (x.andThen f).run serve s = (f a).run serve s' := by rw [andThen, run_handle, h]

/-- A failure ends the run. -/
theorem run_andThen_error {e : ε} {s' : σ} (h : x.run serve s = (.error e, s')) :
    (x.andThen f).run serve s = (.error e, s') := by rw [andThen, run_handle, h]; rfl

end Run

end Program

/-! ## What the operations do -/

section Behaviour

variable {Op : Type} {Reply : Op → Type} {ε σ : Type}

/-- What an operation does: from a state it replies and leaves a state. -/
abbrev Behaviour (Op : Type) (Reply : Op → Type) (ε σ : Type) :=
  (op : Op) → σ → Except ε (Reply op) → σ → Prop

/-- The calls lead from one state to another. -/
inductive Performs (B : Behaviour Op Reply ε σ) : σ → List (Called Op Reply ε) → σ → Prop
  | nil {s : σ} : Performs B s [] s
  | cons {op : Op} {reply : Except ε (Reply op)} {calls : List (Called Op Reply ε)}
      {s s' s'' : σ} (h : B op s reply s') (hrest : Performs B s' calls s'') :
      Performs B s (⟨op, reply⟩ :: calls) s''

variable {B : Behaviour Op Reply ε σ} {calls calls' : List (Called Op Reply ε)} {s s' : σ}

/-- Calls in two parts change the state one after the other. -/
theorem performs_append_iff : Performs B s (calls ++ calls') s' ↔
    ∃ s₁, Performs B s calls s₁ ∧ Performs B s₁ calls' s' := by
  induction calls generalizing s with
  | nil =>
    constructor
    · exact fun h => ⟨s, .nil, h⟩
    · rintro ⟨_, ⟨⟩, h⟩
      exact h
  | cons c calls ih =>
    constructor
    · intro h
      cases h with
      | cons h hrest =>
        obtain ⟨s₁, h₁, h₂⟩ := ih.mp hrest
        exact ⟨s₁, .cons h h₁, h₂⟩
    · rintro ⟨s₁, h₁, h₂⟩
      cases h₁ with
      | cons h hrest => exact .cons h (ih.mpr ⟨s₁, hrest, h₂⟩)

/-- Every call in a list of calls is what its operation does in some state. -/
theorem Performs.mem (h : Performs B s calls s') {c : Called Op Reply ε} (hc : c ∈ calls) :
    ∃ t t', B c.op t c.reply t' := by
  induction h with
  | nil => cases hc
  | cons h _ ih =>
    rcases List.mem_cons.mp hc with rfl | hc
    · exact ⟨_, _, h⟩
    · exact ih hc

/-- What every operation keeps holds at the end. -/
theorem Performs.preserves {P : σ → Prop} (hP : ∀ op s r s', B op s r s' → P s → P s')
    (h : Performs B s calls s') (hs : P s) : P s' := by
  induction h with
  | nil => exact hs
  | cons h _ ih => exact ih (hP _ _ _ _ h hs)

/-- What every operation keeps and some call establishes holds at the end. -/
theorem Performs.of_mem {P : σ → Prop} (hP : ∀ op s r s', B op s r s' → P s → P s')
    (h : Performs B s calls s') {c : Called Op Reply ε} (hc : c ∈ calls)
    (hcall : ∀ t t', B c.op t c.reply t' → P t') : P s' := by
  obtain ⟨before, after, rfl⟩ := List.append_of_mem hc
  obtain ⟨t, -, hrest⟩ := performs_append_iff.mp h
  cases hrest with
  | cons hstep hafter => exact hafter.preserves hP (hcall _ _ hstep)

/-- A run does what the operations do. -/
theorem performs_record {α : Type} {serve : (op : Op) → σ → Except ε (Reply op) × σ}
    (hserve : ∀ op s, B op s (serve op s).1 (serve op s).2) (x : Program Op Reply ε α) (s : σ) :
    Performs B s (x.record serve s) (x.run serve s).2 := by
  induction x generalizing s with
  | done a => exact .nil
  | fail e => exact .nil
  | call op next ih => exact .cons (hserve op s) (ih _ _)

/-! ## Conditions before and after -/

/-- From a state that meets `P`, a program ends with a result and a state that meet `Q`. -/
def Program.Triple {α : Type} (B : Behaviour Op Reply ε σ) (P : σ → Prop)
    (x : Program Op Reply ε α) (Q : Except ε α → σ → Prop) : Prop :=
  ∀ s calls r s', P s → Program.Ends x calls r → Performs B s calls s' → Q r s'

section Triple

variable {α β : Type} {P P' : σ → Prop} {x : Program Op Reply ε α} {Q R : Except ε α → σ → Prop}

open Program

/-- A result meets what holds of it. -/
theorem triple_ofExcept {r : Except ε α} (h : ∀ s, P s → Q r s) :
    Triple B P (ofExcept r) Q := by
  intro s calls r' s' hs hends hperforms
  obtain ⟨rfl, rfl⟩ := ends_ofExcept_iff.mp hends
  cases hperforms
  exact h s hs

/-- So does a program that is done. -/
theorem triple_done {a : α} (h : ∀ s, P s → Q (.ok a) s) : Triple B P (.done a) Q :=
  triple_ofExcept (r := .ok a) h

/-- So does a program that fails. -/
theorem triple_fail {e : ε} (h : ∀ s, P s → Q (.error e) s) : Triple B P (.fail e) Q :=
  triple_ofExcept (r := .error e) h

/-- A program goes on from what its first operation leaves. -/
theorem triple_call {op : Op} {next : Except ε (Reply op) → Program Op Reply ε α}
    {T : Except ε (Reply op) → σ → Prop} (h : ∀ s r s', P s → B op s r s' → T r s')
    (hnext : ∀ r, Triple B (T r) (next r) Q) : Triple B P (.call op next) Q := by
  intro s calls r s' hs hends hperforms
  obtain ⟨reply, rest, rfl, hrest⟩ := ends_call_iff.mp hends
  cases hperforms with
  | cons hstep hperforms => exact hnext reply _ rest r s' (h s reply _ hs hstep) hrest hperforms

/-- An operation does what its behaviour allows. -/
theorem triple_perform {op : Op} {Q : Except ε (Reply op) → σ → Prop}
    (h : ∀ s r s', P s → B op s r s' → Q r s') : Triple B P (perform op) Q :=
  triple_call h fun _ => triple_ofExcept fun _ hs => hs

/-- What goes on after a program starts with what the program ends with. -/
theorem Program.Triple.handle {g : Except ε α → Program Op Reply ε β} {Q : Except ε β → σ → Prop}
    (hx : Triple B P x R) (hg : ∀ r, Triple B (R r) (g r) Q) : Triple B P (x.handle g) Q := by
  intro s calls r s' hs hends hperforms
  obtain ⟨calls₁, r₁, calls₂, h₁, h₂, rfl⟩ := ends_handle_iff.mp hends
  obtain ⟨t, ht₁, ht₂⟩ := performs_append_iff.mp hperforms
  exact hg r₁ t calls₂ r s' (hx s calls₁ r₁ t hs h₁ ht₁) h₂ ht₂

/-- A sequence meets what the second program does, and failures of the first pass. -/
theorem Program.Triple.andThen {f : α → Program Op Reply ε β} {Q : Except ε β → σ → Prop}
    (hx : Triple B P x R) (hf : ∀ a, Triple B (R (.ok a)) (f a) Q)
    (he : ∀ e s, R (.error e) s → Q (.error e) s) : Triple B P (x.andThen f) Q :=
  hx.handle fun r => match r with
    | .ok a => hf a
    | .error e => triple_fail (he e)

/-- The conditions of a triple may be weakened. -/
theorem Program.Triple.mono (hx : Triple B P x Q) (hP : ∀ s, P' s → P s)
    (hQ : ∀ r s, Q r s → R r s) : Triple B P' x R :=
  fun s calls r s' hs hends hperforms => hQ r s' (hx s calls r s' (hP s hs) hends hperforms)

/-- What every operation of a program keeps holds at its end. -/
theorem triple_of_respects {K : Op → Prop} {before : List (Called Op Reply ε)}
    (h : ∀ op, K op → ∀ s r s', P s → B op s r s' → P s') (hx : Respects (fun _ => K) before x) :
    Triple B P x fun _ => P := by
  induction x generalizing before with
  | done a => exact triple_done fun _ hs => hs
  | fail e => exact triple_fail fun _ hs => hs
  | call op next ih => exact triple_call (h op hx.1) fun r => ih r (hx.2 r)

end Triple

/-! ## Several processes -/

variable {ι : Type} [DecidableEq ι] {α : Type}

/-- The calls of one process. -/
def callsOf (i : ι) (run : List (ι × Called Op Reply ε)) : List (Called Op Reply ε) :=
  run.filterMap fun c => if c.1 = i then some c.2 else none

/-- Some processes have made their calls, in an order in which they lead from one state to
another. -/
structure Interleaves (B : Behaviour Op Reply ε σ) (p : ι → Program Op Reply ε α) (s : σ)
    (run : List (ι × Called Op Reply ε)) (s' : σ) : Prop where
  performs : Performs B s (run.map Prod.snd) s'
  after : ∀ i, ∃ y, (p i).After (callsOf i run) y

/-- A call of a process is in the run. -/
theorem mem_of_mem_callsOf {i : ι} {run : List (ι × Called Op Reply ε)} {c : Called Op Reply ε}
    (h : c ∈ callsOf i run) : (i, c) ∈ run := by
  obtain ⟨⟨j, d⟩, hmem, hc⟩ := List.mem_filterMap.mp h
  simp only [Option.ite_none_right_eq_some, Option.some.injEq] at hc
  obtain ⟨rfl, rfl⟩ := hc
  exact hmem

/-- A call in the run is one of its process. -/
theorem mem_callsOf {i : ι} {run : List (ι × Called Op Reply ε)} {c : Called Op Reply ε}
    (h : (i, c) ∈ run) : c ∈ callsOf i run :=
  List.mem_filterMap.mpr ⟨(i, c), h, if_pos rfl⟩

/-- The calls of a process are some of the run. -/
theorem callsOf_sublist {i : ι} {run : List (ι × Called Op Reply ε)} :
    (callsOf i run).Sublist (run.map Prod.snd) := by
  induction run with
  | nil => exact .refl _
  | cons c run ih =>
    rw [callsOf, List.filterMap_cons]
    split
    · exact .cons _ ih
    · rename_i d hd
      obtain ⟨-, hd⟩ := Option.ite_none_right_eq_some.mp hd
      obtain rfl := Option.some.inj hd
      exact ih.cons_cons _

/-- The first calls of a process are among the calls of all. -/
theorem sublist_of_callsOf {i : ι} {run : List (ι × Called Op Reply ε)}
    {calls rest : List (Called Op Reply ε)} (h : callsOf i run = calls ++ rest) :
    calls.Sublist (run.map Prod.snd) := by
  have hcalls : calls.Sublist (callsOf i run) := h ▸ List.sublist_append_left calls rest
  exact hcalls.trans callsOf_sublist

/-- In a run of one process all calls are its own. -/
theorem callsOf_map_self {i : ι} {calls : List (Called Op Reply ε)} :
    callsOf i (calls.map (i, ·)) = calls := by
  simp [callsOf, List.filterMap_map]

/-- In a run of another process none is. -/
theorem callsOf_map_of_ne {i j : ι} (h : j ≠ i) {calls : List (Called Op Reply ε)} :
    callsOf i (calls.map (j, ·)) = [] := by
  simp [callsOf, List.filterMap_map, h]

/-- The calls of a process in a run of two parts. -/
theorem callsOf_append {i : ι} {run run' : List (ι × Called Op Reply ε)} :
    callsOf i (run ++ run') = callsOf i run ++ callsOf i run' := List.filterMap_append

/-- The first calls of a run are a run. -/
theorem Interleaves.of_append {p : ι → Program Op Reply ε α}
    {before after : List (ι × Called Op Reply ε)} (h : Interleaves B p s (before ++ after) s')
    {t : σ}
    (ht : Performs B s (before.map Prod.snd) t) : Interleaves B p s before t := by
  refine ⟨ht, fun i => ?_⟩
  obtain ⟨y, hy⟩ := h.after i
  rw [callsOf_append] at hy
  obtain ⟨z, hz, -⟩ := Program.after_append_iff.mp hy
  exact ⟨z, hz⟩

section Along

variable {p : ι → Program Op Reply ε α} {J : List (ι × Called Op Reply ε) → σ → Prop}
  {P : ι → List (Called Op Reply ε) → Op → Prop}

/-- What each call keeps that its process makes after its calls so far, and how each call changes
the state, holds along every part of a run. -/
theorem Interleaves.along {R : σ → σ → Prop} (hP : ∀ i, Program.Respects (P i) [] (p i))
    (hrefl : ∀ t, R t t) (htrans : ∀ {t t' t''}, R t t' → R t' t'' → R t t'')
    (hstep : ∀ before i c t t', J before t → P i (callsOf i before) c.op → B c.op t c.reply t' →
      J (before ++ [(i, c)]) t' ∧ R t t')
    {before after : List (ι × Called Op Reply ε)} (h : Interleaves B p s (before ++ after) s')
    {t u : σ} (ht : J before t) (hafter : Performs B t (after.map Prod.snd) u) :
    J (before ++ after) u ∧ R t u := by
  induction after generalizing before t with
  | nil =>
    cases hafter
    rw [List.append_nil]
    exact ⟨ht, hrefl _⟩
  | cons c after ih =>
    obtain ⟨i, c⟩ := c
    obtain ⟨y, hy⟩ := h.after i
    have hcalls : callsOf i (before ++ (i, c) :: after) =
        callsOf i before ++ c :: callsOf i after := by
      rw [callsOf_append, callsOf, callsOf, List.filterMap_cons, if_pos rfl]
      rfl
    rw [hcalls] at hy
    have hallowed := (hP i).of_after hy
    cases hafter with
    | cons hc hrest =>
      obtain ⟨hJ, hR⟩ := hstep before i _ t _ ht hallowed hc
      rw [List.append_cons] at h ⊢
      obtain ⟨hJ', hR'⟩ := ih h hJ hrest
      exact ⟨hJ', htrans hR hR'⟩

/-- What holds at first, and what each call keeps that its process makes after its calls so far,
holds after every run. -/
theorem Interleaves.invariant (hP : ∀ i, Program.Respects (P i) [] (p i)) (hs : J [] s)
    (hstep : ∀ before i c t t', J before t → P i (callsOf i before) c.op → B c.op t c.reply t' →
      J (before ++ [(i, c)]) t')
    {run : List (ι × Called Op Reply ε)} (h : Interleaves B p s run s') : J run s' := by
  have hrun : Interleaves B p s ([] ++ run) s' := h
  exact (hrun.along (R := fun _ _ => True) hP (fun _ => trivial) (fun _ _ => trivial)
    (fun before i c t t' ht hc hB => ⟨hstep before i c t t' ht hc hB, trivial⟩) hs h.performs).1

end Along

/-- Two processes, one after the other. -/
theorem interleaves_of_two {p : ι → Program Op Reply ε α} {i j : ι} (hij : i ≠ j) {t : σ}
    (hi : Performs B s calls t) (hj : Performs B t calls' s') (hiafter : ∃ y, (p i).After calls y)
    (hjafter : ∃ y, (p j).After calls' y) :
    Interleaves B p s (calls.map (i, ·) ++ calls'.map (j, ·)) s' := by
  refine ⟨?_, fun k => ?_⟩
  · have hall : ∀ (k : ι) (l : List (Called Op Reply ε)), (l.map (k, ·)).map Prod.snd = l :=
      fun k l => by rw [List.map_map]; exact List.map_id l
    rw [List.map_append, hall, hall]
    exact performs_append_iff.mpr ⟨t, hi, hj⟩
  · rw [callsOf_append]
    by_cases hki : i = k
    · subst hki
      rw [callsOf_map_self, callsOf_map_of_ne hij.symm, List.append_nil]
      exact hiafter
    · rw [callsOf_map_of_ne hki, List.nil_append]
      by_cases hkj : j = k
      · subst hkj
        rwa [callsOf_map_self]
      · rw [callsOf_map_of_ne hkj]
        exact ⟨_, .start⟩

end Behaviour

end TaskTipsCloud
