import TaskTipsCloud.Library.Txn

/-!
# What a transaction keeps of its writes

`Upholds R c J x Q` is a condition on the writes of a body among other sessions: when the locks held
and the writes made so far satisfy `J`, so do those at the end of the body, in whatever way it ends,
and a value that it returns satisfies `Q`. Sequencing composes it, so that a body is taken apart
statement by statement.
-/

namespace TaskTipsCloud

namespace Txn

variable {S L E α β : Type} {R : Set L → S → S → Prop} {c : S} {J : Set L → (S → S) → Prop}

/-- A body keeps a condition `J` on its locks and its writes, and its value satisfies `Q`. -/
def Upholds (R : Set L → S → S → Prop) (c : S) (J : Set L → (S → S) → Prop) (x : Txn S L E α)
    (Q : α → Prop) : Prop :=
  ∀ ⦃H H' : Set L⦄ ⦃b b' : S → S⦄ ⦃r : Except E α⦄, J H b → Runs R c x H b r H' b' →
    J H' b' ∧ ∀ a, r = .ok a → Q a

section

variable {Q : α → Prop}

/-- A value upholds what holds of it. -/
theorem upholds_pure {a : α} (h : Q a) : Upholds R c J (.pure a : Txn S L E α) Q := by
  intro H H' b b' r hb hruns
  obtain ⟨rfl, rfl, rfl⟩ := runs_pure_iff.mp hruns
  exact ⟨hb, fun _ ha => Except.ok.inj ha ▸ h⟩

/-- An error upholds anything. -/
theorem upholds_throw (e : E) : Upholds R c J (.throw e : Txn S L E α) Q := by
  intro H H' b b' r hb hruns
  obtain ⟨rfl, rfl, rfl⟩ := runs_throw_iff.mp hruns
  exact ⟨hb, fun _ ha => (by cases ha)⟩

/-- A lock upholds an invariant that it keeps. -/
theorem upholds_acquire {l : L} {Q : Unit → Prop} (h : ∀ H b, J H b → J (insert l H) b)
    (hq : Q ()) : Upholds R c J (acquire l : Txn S L E Unit) Q := by
  intro H H' b b' r hb hruns
  obtain ⟨-, rfl, rfl⟩ := runs_acquire_iff.mp hruns
  exact ⟨h H b hb, fun _ _ => hq⟩

/-- What a query returns is read from a committed state under the writes made so far. -/
theorem upholds_query {f : S → α} (h : ∀ H b d, J H b → R H d c → Q (f (b d))) :
    Upholds R c J (query f : Txn S L E α) Q := by
  intro H H' b b' r hb hruns
  obtain ⟨d, hd, rfl, rfl, rfl⟩ := runs_query_iff.mp hruns
  exact ⟨hb, fun _ ha => Except.ok.inj ha ▸ h H b d hb hd⟩

/-- A write upholds an invariant that it keeps. -/
theorem upholds_modify {w : S → S} {Q : Unit → Prop} (h : ∀ H b, J H b → J H (w ∘ b))
    (hq : Q ()) : Upholds R c J (modify w : Txn S L E Unit) Q := by
  intro H H' b b' r hb hruns
  obtain ⟨-, rfl, rfl⟩ := runs_modify_iff.mp hruns
  exact ⟨h H b hb, fun _ _ => hq⟩

/-- A value that is there upholds what holds of it. -/
theorem upholds_orThrow {e : E} {o : Option α} (h : ∀ a, o = some a → Q a) :
    Upholds R c J (orThrow e o : Txn S L E α) Q := by
  cases o with
  | none => exact upholds_throw e
  | some a => exact upholds_pure (h a rfl)

/-- A requirement upholds what it checks. -/
theorem upholds_require {p : Bool} {e : E} {Q : Unit → Prop} (h : p = true → Q ()) :
    Upholds R c J (require p e : Txn S L E Unit) Q := by
  cases p with
  | false => exact upholds_throw e
  | true => exact upholds_pure (h rfl)

/-- A sequence keeps what its parts keep; the second knows of the value of the first. -/
theorem Upholds.bind {x : Txn S L E α} {f : α → Txn S L E β} {Q' : β → Prop}
    (hx : Upholds R c J x Q)
    (hf : ∀ a, Q a → Upholds R c J (f a) Q') : Upholds R c J (x.bind f) Q' := by
  intro H H' b b' r hb hruns
  rcases runs_bind_iff.mp hruns with ⟨e, he, rfl⟩ | ⟨a, H₁, b₁, h₁, h₂⟩
  · exact ⟨(hx hb he).1, fun _ ha => (by cases ha)⟩
  · obtain ⟨hb₁, ha⟩ := hx hb h₁
    exact hf a (ha a rfl) hb₁ h₂

/-- A caught body keeps what the body does, if its errors are fine too. -/
theorem Upholds.attempt {x : Txn S L E α} {Q' : Except E α → Prop} (hx : Upholds R c J x Q)
    (hok : ∀ a, Q a → Q' (.ok a)) (herror : ∀ e, Q' (.error e)) : Upholds R c J x.attempt Q' := by
  intro H H' b b' r hb hruns
  obtain ⟨r₀, h₀, rfl⟩ := runs_attempt_iff.mp hruns
  obtain ⟨hb', ha⟩ := hx hb h₀
  refine ⟨hb', fun r hr => ?_⟩
  obtain rfl := Except.ok.inj hr
  cases r₀ with
  | ok a => exact hok a (ha a rfl)
  | error e => exact herror e

/-- What is upheld may be weakened. -/
theorem Upholds.mono {x : Txn S L E α} {Q' : α → Prop} (hx : Upholds R c J x Q)
    (h : ∀ a, Q a → Q' a) : Upholds R c J x Q' :=
  fun _ _ _ _ _ hb hruns => ⟨(hx hb hruns).1, fun a ha => h a ((hx hb hruns).2 a ha)⟩

end

end Txn

end TaskTipsCloud
