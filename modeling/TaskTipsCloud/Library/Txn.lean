import Mathlib

/-!
# Transactions, statement by statement

A `Txn` is the body of one database transaction: it reads, it writes, it waits for locks that it
keeps to its end, and it ends by returning (commit) or by throwing (rollback). A write is kept as
the function that it applies to the state, so that the writes of a running transaction form a
buffer that its commit applies to whatever state is committed by then.

The same body has two meanings. `run` executes it alone, on one state. `Runs R c` is what it may do
under READ COMMITTED when it commits on the state `c`: each read sees some state `d` that was
committed when the statement started, and `R H d c` is all that is known of what the other sessions
made of `d` in the meantime, where `H` are the locks held at the time of the read.
`Library/Sessions.lean` shows that sessions which interleave in any order behave so.

`Guarded W` says that every write of a body is made under the locks that `W` asks for, whatever the
reads see. Sequencing composes it as it composes weakest preconditions.
-/

namespace TaskTipsCloud

/-- The body of a transaction over states `S` with locks `L` and errors `E`. -/
inductive Txn (S L E α : Type) where
  /-- The end of the body, with its value. -/
  | pure (a : α)
  /-- An error that leaves the body. -/
  | throw (e : E)
  /-- Waits for a lock, which is then held to the end of the transaction. -/
  | lock (l : L) (k : Txn S L E α)
  /-- A statement that reads the state. -/
  | read (k : S → Txn S L E α)
  /-- A statement that changes the state. -/
  | write (w : S → S) (k : Txn S L E α)

namespace Txn

variable {S L E α β γ : Type}

/-- Sequencing: an error skips what follows. -/
def bind : Txn S L E α → (α → Txn S L E β) → Txn S L E β
  | .pure a, f => f a
  | .throw e, _ => .throw e
  | .lock l k, f => .lock l (bind k f)
  | .read k, f => .read fun s => bind (k s) f
  | .write w k, f => .write w (bind k f)

/-- Transactions are sequenced by `bind`. -/
instance : Monad (Txn S L E) where
  pure := Txn.pure
  bind := Txn.bind

/-- The body with its error caught as a value; the writes made before the error stay. -/
def attempt : Txn S L E α → Txn S L E (Except E α)
  | .pure a => .pure (.ok a)
  | .throw e => .pure (.error e)
  | .lock l k => .lock l (attempt k)
  | .read k => .read fun s => attempt (k s)
  | .write w k => .write w (attempt k)

/-- Waits for the lock `l`. -/
def acquire (l : L) : Txn S L E Unit := .lock l (.pure ())

/-- The value of `f` at the state. -/
def query (f : S → α) : Txn S L E α := .read fun s => .pure (f s)

/-- Applies `w` to the state. -/
def modify (w : S → S) : Txn S L E Unit := .write w (.pure ())

/-- The value of an option, or an error. -/
def orThrow (e : E) : Option α → Txn S L E α
  | some a => .pure a
  | none => .throw e

/-- An error unless the condition holds. -/
def require (p : Bool) (e : E) : Txn S L E Unit := if p then .pure () else .throw e

/-- A value is a transaction that ends. -/
@[simp] theorem pure_eq (a : α) : (Pure.pure a : Txn S L E α) = .pure a := rfl

/-- The sequence is `bind`. -/
@[simp] theorem bind_eq (x : Txn S L E α) (f : α → Txn S L E β) : (x >>= f) = x.bind f := rfl

/-- A discarded result is not used. -/
@[simp] theorem discard_eq (x : Txn S L E α) : discard x = x.bind fun _ => .pure () := rfl

/-- A value is followed by the next transaction. -/
@[simp] theorem pure_bind (a : α) (f : α → Txn S L E β) : (Txn.pure a).bind f = f a := rfl

/-- An error is not followed. -/
@[simp] theorem throw_bind (e : E) (f : α → Txn S L E β) : (Txn.throw e).bind f = .throw e := rfl

/-- A lock is followed by the next transaction. -/
@[simp] theorem acquire_bind (l : L) (f : Unit → Txn S L E β) :
    (acquire l).bind f = .lock l (f ()) := rfl

/-- A query is followed by the next transaction, with its result. -/
@[simp] theorem query_bind (q : S → α) (f : α → Txn S L E β) :
    (query q).bind f = .read fun s => f (q s) := rfl

/-- A write is followed by the next transaction. -/
@[simp] theorem modify_bind (w : S → S) (f : Unit → Txn S L E β) :
    (modify w).bind f = .write w (f ()) := rfl

/-! ## Running alone -/

/-- Runs a body alone on a state: its value or error, and the state with its writes. -/
def run : Txn S L E α → S → Except E α × S
  | .pure a, s => (.ok a, s)
  | .throw e, s => (.error e, s)
  | .lock _ k, s => run k s
  | .read k, s => run (k s) s
  | .write w k, s => run k (w s)

/-- How a transaction ends on the state `s` that it started on: a body that returned commits with
its result, and one that threw is rolled back. -/
def settle (s : S) : Except E (Except E α) × S → Except E α × S
  | (.ok r, s') => (r, s')
  | (.error e, _) => (.error e, s)

/-- Runs a transaction alone. -/
def execute (x : Txn S L E (Except E α)) (s : S) : Except E α × S := settle s (x.run s)

/-- A value succeeds and leaves the state. -/
@[simp] theorem run_pure (a : α) (s : S) : (Txn.pure a : Txn S L E α).run s = (.ok a, s) := rfl

/-- An error fails and leaves the state. -/
@[simp] theorem run_throw (e : E) (s : S) : (Txn.throw e : Txn S L E α).run s = (.error e, s) := rfl

/-- A lock leaves the state. -/
@[simp] theorem run_lock (l : L) (k : Txn S L E α) (s : S) : (Txn.lock l k).run s = k.run s := rfl

/-- A read goes on with what it reads. -/
@[simp] theorem run_read (k : S → Txn S L E α) (s : S) : (Txn.read k).run s = (k s).run s := rfl

/-- A write changes the state. -/
@[simp] theorem run_write (w : S → S) (k : Txn S L E α) (s : S) :
    (Txn.write w k).run s = k.run (w s) := rfl

/-- A sequence runs its parts one after the other. -/
theorem run_bind (x : Txn S L E α) (f : α → Txn S L E β) (s : S) :
    (x.bind f).run s = match x.run s with
      | (.ok a, s') => (f a).run s'
      | (.error e, s') => (.error e, s') := by
  induction x generalizing s with
  | pure a => rfl
  | throw e => rfl
  | lock l k ih => exact ih s
  | read k ih => exact ih s s
  | write w k ih => exact ih (w s)

/-- A caught body runs as the body does. -/
theorem run_attempt (x : Txn S L E α) (s : S) :
    x.attempt.run s = (.ok (x.run s).1, (x.run s).2) := by
  induction x generalizing s with
  | pure a => rfl
  | throw e => rfl
  | lock l k ih => exact ih s
  | read k ih => exact ih s s
  | write w k ih => exact ih (w s)

/-- A query answers what it reads. -/
@[simp] theorem run_query (f : S → α) (s : S) :
    (query f : Txn S L E α).run s = (.ok (f s), s) := rfl

/-- A write answers nothing. -/
@[simp] theorem run_modify (w : S → S) (s : S) :
    (modify w : Txn S L E Unit).run s = (.ok (), w s) := rfl

/-- A lock answers nothing. -/
@[simp] theorem run_acquire (l : L) (s : S) : (acquire l : Txn S L E Unit).run s = (.ok (), s) :=
  rfl

/-- A value that is missing fails. -/
@[simp] theorem run_orThrow (e : E) (o : Option α) (s : S) :
    (orThrow e o : Txn S L E α).run s = (o.elim (.error e) .ok, s) := by cases o <;> rfl

/-- A requirement that is not met fails. -/
@[simp] theorem run_require (p : Bool) (e : E) (s : S) :
    (require p e : Txn S L E Unit).run s = (if p then .ok () else .error e, s) := by
  cases p <;> rfl

/-- A sequence returns when both of its parts do. -/
theorem run_bind_ok_iff {x : Txn S L E α} {f : α → Txn S L E β} {s s' : S} {b : β} :
    (x.bind f).run s = (.ok b, s') ↔
      ∃ a s₁, x.run s = (.ok a, s₁) ∧ (f a).run s₁ = (.ok b, s') := by
  rw [run_bind]
  rcases x.run s with ⟨e | a, s₁⟩
  · simp
  · constructor
    · exact fun h => ⟨a, s₁, rfl, h⟩
    · rintro ⟨_, _, ⟨⟩, h⟩
      exact h

/-- How a transaction ends: its body returned, or it threw and nothing is changed. -/
theorem execute_cases {x : Txn S L E (Except E α)} {s s' : S} {r : Except E α}
    (h : x.execute s = (r, s')) :
    x.run s = (.ok r, s') ∨ s' = s ∧ ∃ e s₁, x.run s = (.error e, s₁) ∧ r = .error e := by
  unfold execute at h
  rcases hrun : x.run s with ⟨e | r₁, s₁⟩
  · rw [hrun] at h
    cases h
    exact .inr ⟨rfl, e, s₁, rfl, rfl⟩
  · rw [hrun] at h
    cases h
    exact .inl rfl

/-! ## Running among other sessions -/

/-- `Runs R c x H b r H' b'`: started with the locks `H` and the buffer `b`, the body `x` ends with
the result `r`, the locks `H'` and the buffer `b'`, when `c` is the state on which it commits. -/
inductive Runs (R : Set L → S → S → Prop) (c : S) :
    Txn S L E α → Set L → (S → S) → Except E α → Set L → (S → S) → Prop
  | pure (a : α) (H : Set L) (b : S → S) : Runs R c (.pure a) H b (.ok a) H b
  | throw (e : E) (H : Set L) (b : S → S) : Runs R c (.throw e) H b (.error e) H b
  | lock {l : L} {k : Txn S L E α} {H H' : Set L} {b b' : S → S} {r : Except E α}
      (h : Runs R c k (insert l H) b r H' b') : Runs R c (.lock l k) H b r H' b'
  | read {k : S → Txn S L E α} {H H' : Set L} {b b' : S → S} {r : Except E α} (d : S)
      (hd : R H d c) (h : Runs R c (k (b d)) H b r H' b') : Runs R c (.read k) H b r H' b'
  | write {w : S → S} {k : Txn S L E α} {H H' : Set L} {b b' : S → S} {r : Except E α}
      (h : Runs R c k H (w ∘ b) r H' b') : Runs R c (.write w k) H b r H' b'

section Inversion

variable {R : Set L → S → S → Prop} {c : S} {H H' : Set L} {b b' : S → S}

/-- A value ends a run. -/
@[simp] theorem runs_pure_iff {a : α} {r : Except E α} :
    Runs R c (.pure a) H b r H' b' ↔ r = .ok a ∧ H = H' ∧ b = b' := by
  constructor
  · rintro ⟨⟩
    exact ⟨rfl, rfl, rfl⟩
  · rintro ⟨rfl, rfl, rfl⟩
    exact .pure a _ _

/-- An error ends a run. -/
@[simp] theorem runs_throw_iff {e : E} {r : Except E α} :
    Runs R c (.throw e) H b r H' b' ↔ r = .error e ∧ H = H' ∧ b = b' := by
  constructor
  · rintro ⟨⟩
    exact ⟨rfl, rfl, rfl⟩
  · rintro ⟨rfl, rfl, rfl⟩
    exact .throw e _ _

/-- A run goes on under a further lock. -/
@[simp] theorem runs_lock_iff {l : L} {k : Txn S L E α} {r : Except E α} :
    Runs R c (.lock l k) H b r H' b' ↔ Runs R c k (insert l H) b r H' b' :=
  ⟨fun h => by cases h; assumption, .lock⟩

/-- A run reads what another one may have committed, and its own writes. -/
@[simp] theorem runs_read_iff {k : S → Txn S L E α} {r : Except E α} :
    Runs R c (.read k) H b r H' b' ↔ ∃ d, R H d c ∧ Runs R c (k (b d)) H b r H' b' :=
  ⟨fun h => by cases h; exact ⟨_, ‹_›, ‹_›⟩, fun ⟨d, hd, h⟩ => .read d hd h⟩

/-- A run writes on its own writes. -/
@[simp] theorem runs_write_iff {w : S → S} {k : Txn S L E α} {r : Except E α} :
    Runs R c (.write w k) H b r H' b' ↔ Runs R c k H (w ∘ b) r H' b' :=
  ⟨fun h => by cases h; assumption, .write⟩

/-- What a sequence does: its first part ends in an error, or the second goes on from the first. -/
theorem runs_bind_iff {x : Txn S L E α} {f : α → Txn S L E β} {r : Except E β} :
    Runs R c (x.bind f) H b r H' b' ↔
      (∃ e, Runs R c x H b (.error e) H' b' ∧ r = .error e) ∨
        ∃ a H₁ b₁, Runs R c x H b (.ok a) H₁ b₁ ∧ Runs R c (f a) H₁ b₁ r H' b' := by
  induction x generalizing H b with
  | pure a =>
    simp only [bind, runs_pure_iff, reduceCtorEq, false_and, exists_false, false_or]
    constructor
    · exact fun h => ⟨a, H, b, ⟨rfl, rfl, rfl⟩, h⟩
    · rintro ⟨_, _, _, ⟨⟨⟩, rfl, rfl⟩, h⟩
      exact h
  | throw e =>
    simp only [bind, runs_throw_iff, Except.error.injEq, reduceCtorEq, false_and, exists_false,
      or_false]
    constructor
    · rintro ⟨rfl, rfl, rfl⟩
      exact ⟨e, ⟨rfl, rfl, rfl⟩, rfl⟩
    · rintro ⟨_, ⟨rfl, rfl, rfl⟩, rfl⟩
      exact ⟨rfl, rfl, rfl⟩
  | lock l k ih => simp only [bind, runs_lock_iff, ih]
  | read k ih =>
    simp only [bind, runs_read_iff, ih]
    constructor
    · rintro ⟨d, hd, ⟨e, he, hr⟩ | ⟨a, H₁, b₁, hx, hf⟩⟩
      · exact .inl ⟨e, ⟨d, hd, he⟩, hr⟩
      · exact .inr ⟨a, H₁, b₁, ⟨d, hd, hx⟩, hf⟩
    · rintro (⟨e, ⟨d, hd, he⟩, hr⟩ | ⟨a, H₁, b₁, ⟨d, hd, hx⟩, hf⟩)
      · exact ⟨d, hd, .inl ⟨e, he, hr⟩⟩
      · exact ⟨d, hd, .inr ⟨a, H₁, b₁, hx, hf⟩⟩
  | write w k ih => simp only [bind, runs_write_iff, ih]

/-- A sequence returns when both of its parts do. -/
theorem runs_bind_ok_iff {x : Txn S L E α} {f : α → Txn S L E β} {r : β} :
    Runs R c (x.bind f) H b (.ok r) H' b' ↔
      ∃ a H₁ b₁, Runs R c x H b (.ok a) H₁ b₁ ∧ Runs R c (f a) H₁ b₁ (.ok r) H' b' := by
  rw [runs_bind_iff]
  simp

/-- What a caught body does: what the body does, its outcome being the value. -/
theorem runs_attempt_iff {x : Txn S L E α} {r : Except E (Except E α)} :
    Runs R c x.attempt H b r H' b' ↔ ∃ r₀, Runs R c x H b r₀ H' b' ∧ r = .ok r₀ := by
  induction x generalizing H b with
  | pure a =>
    simp only [attempt, runs_pure_iff]
    constructor
    · rintro ⟨rfl, hH, hb⟩
      exact ⟨.ok a, ⟨rfl, hH, hb⟩, rfl⟩
    · rintro ⟨_, ⟨rfl, hH, hb⟩, rfl⟩
      exact ⟨rfl, hH, hb⟩
  | throw e =>
    simp only [attempt, runs_pure_iff, runs_throw_iff]
    constructor
    · rintro ⟨rfl, hH, hb⟩
      exact ⟨.error e, ⟨rfl, hH, hb⟩, rfl⟩
    · rintro ⟨_, ⟨rfl, hH, hb⟩, rfl⟩
      exact ⟨rfl, hH, hb⟩
  | lock l k ih => simp only [attempt, runs_lock_iff, ih]
  | read k ih =>
    simp only [attempt, runs_read_iff, ih]
    constructor
    · rintro ⟨d, hd, r₀, hx, hr⟩
      exact ⟨r₀, ⟨d, hd, hx⟩, hr⟩
    · rintro ⟨r₀, ⟨d, hd, hx⟩, hr⟩
      exact ⟨d, hd, r₀, hx, hr⟩
  | write w k ih => simp only [attempt, runs_write_iff, ih]

/-- A query answers from what is committed, and the run's own writes. -/
@[simp] theorem runs_query_iff {f : S → α} {r : Except E α} :
    Runs R c (query f) H b r H' b' ↔ ∃ d, R H d c ∧ r = .ok (f (b d)) ∧ H = H' ∧ b = b' := by
  simp [query]

/-- A write is added to those of the run. -/
@[simp] theorem runs_modify_iff {w : S → S} {r : Except E Unit} :
    Runs R c (modify w) H b r H' b' ↔ r = .ok () ∧ H = H' ∧ b' = w ∘ b := by
  simp [modify, eq_comm]

/-- A lock is added to those of the run. -/
@[simp] theorem runs_acquire_iff {l : L} {r : Except E Unit} :
    Runs R c (acquire l) H b r H' b' ↔ r = .ok () ∧ H' = insert l H ∧ b = b' := by
  simp [acquire, eq_comm]

/-- A value that is missing ends a run. -/
@[simp] theorem runs_orThrow_iff {e : E} {o : Option α} {r : Except E α} :
    Runs R c (orThrow e o) H b r H' b' ↔
      (match o with | some a => r = .ok a | none => r = .error e) ∧ H = H' ∧ b = b' := by
  cases o <;> simp [orThrow]

/-- A requirement that is not met ends a run. -/
@[simp] theorem runs_require_iff {p : Bool} {e : E} {r : Except E Unit} :
    Runs R c (require p e) H b r H' b' ↔
      r = (if p then .ok () else .error e) ∧ H = H' ∧ b = b' := by
  cases p <;> simp [require]

end Inversion

/-- The locks of a body only grow. -/
theorem Runs.subset {R : Set L → S → S → Prop} {c : S} {x : Txn S L E α} {H H' : Set L}
    {b b' : S → S} {r : Except E α} (h : Runs R c x H b r H' b') : H ⊆ H' := by
  induction h with
  | pure | throw => exact subset_rfl
  | lock _ ih => exact (Set.subset_insert _ _).trans ih
  | read _ _ _ ih => exact ih
  | write _ ih => exact ih

/-- A body that runs alone on a state behaves as one that commits on it. -/
theorem runs_run {R : Set L → S → S → Prop} {c : S} (hR : ∀ H, R H c c) (x : Txn S L E α)
    (H : Set L) (b : S → S) :
    ∃ H' b', Runs R c x H b (x.run (b c)).1 H' b' ∧ (x.run (b c)).2 = b' c := by
  induction x generalizing H b with
  | pure a => exact ⟨H, b, .pure a H b, rfl⟩
  | throw e => exact ⟨H, b, .throw e H b, rfl⟩
  | lock l k ih =>
    obtain ⟨H', b', h, hs⟩ := ih (insert l H) b
    exact ⟨H', b', .lock h, hs⟩
  | read k ih =>
    obtain ⟨H', b', h, hs⟩ := ih (b c) H b
    exact ⟨H', b', .read c (hR H) h, hs⟩
  | write w k ih =>
    obtain ⟨H', b', h, hs⟩ := ih H (w ∘ b)
    exact ⟨H', b', .write h, hs⟩

/-- What is known of a body's stale reads may be weakened. -/
theorem Runs.mono {R R' : Set L → S → S → Prop} {c : S} (hR : ∀ H d, R H d c → R' H d c)
    {x : Txn S L E α} {H H' : Set L} {b b' : S → S} {r : Except E α}
    (h : Runs R c x H b r H' b') : Runs R' c x H b r H' b' := by
  induction h with
  | pure a H b => exact .pure a H b
  | throw e H b => exact .throw e H b
  | lock _ ih => exact .lock ih
  | read d hd _ ih => exact .read d (hR _ _ hd) ih
  | write _ ih => exact .write ih

/-! ## Writes and the locks they need -/

/-- Every write `w` of the body, made when the locks `H` are held, satisfies `W H w`, and the value
with which it ends satisfies `Q`, together with the locks that are held then. -/
def Guarded (W : Set L → (S → S) → Prop) : Txn S L E α → Set L → (α → Set L → Prop) → Prop
  | .pure a, H, Q => Q a H
  | .throw _, _, _ => True
  | .lock l k, H, Q => Guarded W k (insert l H) Q
  | .read k, H, Q => ∀ s, Guarded W (k s) H Q
  | .write w k, H, Q => W H w ∧ Guarded W k H Q

section Guarded

variable {W : Set L → (S → S) → Prop} {H : Set L} {Q : α → Set L → Prop}

/-- A value guards what holds of it. -/
@[simp] theorem guarded_pure_iff {a : α} :
    Guarded W (.pure a : Txn S L E α) H Q ↔ Q a H := Iff.rfl

/-- An error guards anything. -/
@[simp] theorem guarded_throw (e : E) : Guarded W (.throw e : Txn S L E α) H Q := trivial

/-- What follows a lock is guarded under it. -/
@[simp] theorem guarded_lock_iff {l : L} {k : Txn S L E α} :
    Guarded W (.lock l k) H Q ↔ Guarded W k (insert l H) Q := Iff.rfl

/-- What follows a read is guarded for every state. -/
@[simp] theorem guarded_read_iff {k : S → Txn S L E α} :
    Guarded W (.read k) H Q ↔ ∀ s, Guarded W (k s) H Q := Iff.rfl

/-- A write is guarded when it is allowed under the locks. -/
@[simp] theorem guarded_write_iff {w : S → S} {k : Txn S L E α} :
    Guarded W (.write w k) H Q ↔ W H w ∧ Guarded W k H Q := Iff.rfl

/-- A query guards what holds of every answer. -/
@[simp] theorem guarded_query_iff {f : S → α} :
    Guarded W (query f : Txn S L E α) H Q ↔ ∀ s, Q (f s) H := Iff.rfl

/-- A write guards what follows when it is allowed. -/
@[simp] theorem guarded_modify_iff {w : S → S} {Q : Unit → Set L → Prop} :
    Guarded W (modify w : Txn S L E Unit) H Q ↔ W H w ∧ Q () H := Iff.rfl

/-- A lock guards what holds under it. -/
@[simp] theorem guarded_acquire_iff {l : L} {Q : Unit → Set L → Prop} :
    Guarded W (acquire l : Txn S L E Unit) H Q ↔ Q () (insert l H) := Iff.rfl

/-- A value that is there guards what holds of it. -/
@[simp] theorem guarded_orThrow_iff {e : E} {o : Option α} :
    Guarded W (orThrow e o : Txn S L E α) H Q ↔ ∀ a, o = some a → Q a H := by
  cases o <;> simp [orThrow]

/-- A requirement guards what holds when it is met. -/
@[simp] theorem guarded_require_iff {p : Bool} {e : E} {Q : Unit → Set L → Prop} :
    Guarded W (require p e : Txn S L E Unit) H Q ↔ (p = true → Q () H) := by
  cases p <;> simp [require]

/-- A sequence is guarded when its first part is, and its second is from where the first ends. -/
@[simp] theorem guarded_bind_iff {x : Txn S L E α} {f : α → Txn S L E β}
    {Q : β → Set L → Prop} :
    Guarded W (x.bind f) H Q ↔ Guarded W x H fun a H' => Guarded W (f a) H' Q := by
  induction x generalizing H with
  | pure | throw => exact Iff.rfl
  | lock l k ih => exact ih
  | read k ih => exact forall_congr' fun s => ih s
  | write w k ih => exact and_congr Iff.rfl ih

/-- What is said of the end of a guarded body may be weakened, for the locks that it can end
with. -/
theorem Guarded.mono {x : Txn S L E α} {Q' : α → Set L → Prop} (hx : Guarded W x H Q)
    (hQ : ∀ a H', H ⊆ H' → Q a H' → Q' a H') : Guarded W x H Q' := by
  induction x generalizing H with
  | pure a => exact hQ a H subset_rfl hx
  | throw e => exact trivial
  | lock l k ih => exact ih hx fun a H' hH => hQ a H' ((Set.subset_insert _ _).trans hH)
  | read k ih => exact fun s => ih s (hx s) hQ
  | write w k ih => exact ⟨hx.1, ih hx.2 hQ⟩

/-- What is said of the writes of a guarded body may be weakened. -/
theorem Guarded.weaken {W' : Set L → (S → S) → Prop} {x : Txn S L E α} (hx : Guarded W x H Q)
    (hW : ∀ H w, W H w → W' H w) : Guarded W' x H Q := by
  induction x generalizing H with
  | pure | throw => exact hx
  | lock l k ih => exact ih hx
  | read k ih => exact fun s => ih s (hx s)
  | write w k ih => exact ⟨hW _ _ hx.1, ih hx.2⟩

/-- A sequence is guarded when its first part is, and its second is from wherever the first may
end. -/
theorem Guarded.bind {x : Txn S L E α} {f : α → Txn S L E β} {Q' : β → Set L → Prop}
    (hx : Guarded W x H Q) (hf : ∀ a H', H ⊆ H' → Q a H' → Guarded W (f a) H' Q') :
    Guarded W (x.bind f) H Q' :=
  guarded_bind_iff.mpr (hx.mono hf)

/-- A query is guarded when what follows it is, whatever it returns. -/
theorem guarded_query_bind {q : S → α} {f : α → Txn S L E β} {Q : β → Set L → Prop}
    (h : ∀ s, Guarded W (f (q s)) H Q) : Guarded W ((query q).bind f) H Q := h

/-- What follows a lock is guarded when it is under that lock. -/
theorem guarded_acquire_bind {l : L} {f : Unit → Txn S L E β} {Q : β → Set L → Prop}
    (h : Guarded W (f ()) (insert l H) Q) : Guarded W ((acquire l).bind f) H Q := h

/-- What follows a check is guarded when it is under the condition. -/
theorem guarded_require_bind {p : Bool} {e : E} {f : Unit → Txn S L E β} {Q : β → Set L → Prop}
    (h : p = true → Guarded W (f ()) H Q) : Guarded W ((require p e).bind f) H Q :=
  guarded_bind_iff.mpr (guarded_require_iff.mpr h)

/-- What follows the value of an option is guarded when it is for each value. -/
theorem guarded_orThrow_bind {e : E} {o : Option α} {f : α → Txn S L E β} {Q : β → Set L → Prop}
    (h : ∀ a, o = some a → Guarded W (f a) H Q) : Guarded W ((orThrow e o).bind f) H Q :=
  guarded_bind_iff.mpr (guarded_orThrow_iff.mpr h)

/-- A caught body is guarded as the body is, if `Q` holds of its errors too. -/
theorem Guarded.attempt {x : Txn S L E α} {Q : Except E α → Set L → Prop}
    (hx : Guarded W x H fun a => Q (.ok a)) (he : ∀ e H', H ⊆ H' → Q (.error e) H') :
    Guarded W x.attempt H Q := by
  induction x generalizing H with
  | pure a => exact hx
  | throw e => exact he e H subset_rfl
  | lock l k ih => exact ih hx fun e H' hH => he e H' ((Set.subset_insert _ _).trans hH)
  | read k ih => exact fun s => ih s (hx s) he
  | write w k ih => exact ⟨hx.1, ih hx.2 he⟩

/-- The buffer of a guarded body: a property of locks and writes that more locks keep and that is
closed under composition holds of it. -/
theorem Runs.guarded {R : Set L → S → S → Prop} {c : S} {x : Txn S L E α} {H' : Set L}
    {b b' : S → S} {r : Except E α}
    (hmono : ∀ {H H' : Set L} {w : S → S}, H ⊆ H' → W H w → W H' w)
    (hcomp : ∀ {H : Set L} {w w' : S → S}, W H w → W H w' → W H (w' ∘ w))
    (h : Runs R c x H b r H' b') (hx : Guarded W x H Q) (hb : W H b) : W H' b' := by
  induction h with
  | pure | throw => exact hb
  | lock _ ih => exact ih hx (hmono (Set.subset_insert _ _) hb)
  | read d _ _ ih => exact ih (hx _) hb
  | write _ ih => exact ih hx.2 (hcomp hb hx.1)

end Guarded

end Txn

end TaskTipsCloud
