import TaskTipsCloud.Library.Txn

/-!
# What the body of a transaction throws

`Raises P` says that every error that leaves a body satisfies `P`, whatever its reads see. It is
proved part by part: sequencing throws what its parts throw, and a body whose errors are caught
throws none. An error that a run of the body ends with is then known to satisfy `P`.
-/

namespace TaskTipsCloud

namespace Txn

variable {S L E α β γ : Type}

/-- Sequencing is associative. -/
theorem bind_assoc (x : Txn S L E α) (f : α → Txn S L E β) (g : β → Txn S L E γ) :
    (x.bind f).bind g = x.bind fun a => (f a).bind g := by
  induction x with
  | pure | throw => rfl
  | lock l k ih => exact congrArg _ ih
  | read k ih => exact congrArg _ (funext ih)
  | write w k ih => exact congrArg _ ih

/-- Every error that the body throws satisfies `P`. -/
def Raises (P : E → Prop) : Txn S L E α → Prop
  | .pure _ => True
  | .throw e => P e
  | .lock _ k => Raises P k
  | .read k => ∀ s, Raises P (k s)
  | .write _ k => Raises P k

variable {P : E → Prop}

/-- A value raises nothing. -/
@[simp] theorem raises_pure (a : α) : Raises P (.pure a : Txn S L E α) := trivial

/-- An error that is thrown is raised. -/
@[simp] theorem raises_throw_iff {e : E} : Raises P (.throw e : Txn S L E α) ↔ P e := Iff.rfl

/-- A query raises nothing. -/
@[simp] theorem raises_query (f : S → α) : Raises P (query f : Txn S L E α) := fun _ => trivial

/-- A write raises nothing. -/
@[simp] theorem raises_modify (w : S → S) : Raises P (modify w : Txn S L E Unit) := trivial

/-- A lock raises nothing. -/
@[simp] theorem raises_acquire (l : L) : Raises P (acquire l : Txn S L E Unit) := trivial

/-- A value that is missing raises its error. -/
theorem raises_orThrow {e : E} (he : P e) (o : Option α) :
    Raises P (orThrow e o : Txn S L E α) := by
  cases o with
  | none => exact he
  | some a => exact trivial

/-- A sequence throws what its parts throw. -/
theorem Raises.bind {x : Txn S L E α} {f : α → Txn S L E β} (hx : Raises P x)
    (hf : ∀ a, Raises P (f a)) : Raises P (x.bind f) := by
  induction x with
  | pure a => exact hf a
  | throw e => exact hx
  | lock l k ih => exact ih hx
  | read k ih => exact fun s => ih s (hx s)
  | write w k ih => exact ih hx

/-- A caught body throws nothing. -/
theorem raises_attempt (x : Txn S L E α) : Raises P x.attempt := by
  induction x with
  | pure | throw => exact trivial
  | lock l k ih => exact ih
  | read k ih => exact fun s => ih s
  | write w k ih => exact ih

/-- An error that a body ends with is one that it throws. -/
theorem Runs.raises {R : Set L → S → S → Prop} {c : S} {x : Txn S L E α} {H H' : Set L}
    {b b' : S → S} {e : E} (h : Runs R c x H b (.error e) H' b') (hx : Raises P x) : P e := by
  generalize hr : (Except.error e : Except E α) = r at h
  induction h with
  | pure => cases hr
  | throw e' =>
    cases hr
    exact hx
  | lock _ ih => exact ih hx hr
  | read d _ _ ih => exact ih (hx _) hr
  | write _ ih => exact ih hx hr

end Txn

end TaskTipsCloud
