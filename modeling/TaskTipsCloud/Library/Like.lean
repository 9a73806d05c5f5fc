import Mathlib

/-!
# Patterns with wildcards

The patterns of the SQL operator `LIKE`: one character stands for any text, one for any single
character, and one takes the character after it literally. A text in which every special character
is preceded by the escape character matches itself only, and between two wildcards it matches the
texts that contain it.
-/

namespace TaskTipsCloud

variable {α : Type}

/-- The characters that a pattern does not take literally. -/
structure Wildcards (α : Type) where
  many : α
  one : α
  escape : α
  many_ne_escape : many ≠ escape
  one_ne_escape : one ≠ escape

variable [DecidableEq α]

/-- Tries a match at every offset of a text. -/
def anyOffset (f : List α → Option Bool) : List α → Option Bool
  | [] => f []
  | c :: rest => do
    if ← f (c :: rest) then return true
    else anyOffset f rest

/-- Takes one character off a text and goes on. -/
def takeOne (accepts : α → Bool) (f : List α → Option Bool) : List α → Option Bool
  | [] => some false
  | c :: rest => if accepts c then f rest else some false

namespace Wildcards

variable (w : Wildcards α)

/-- Whether a pattern does not take a character literally. -/
def isSpecial (c : α) : Bool := c == w.many || c == w.one || c == w.escape

/-- Whether a text matches a pattern, unless the match reaches an escape character that ends the
pattern. -/
def like : List α → List α → Option Bool
  | [], text => some text.isEmpty
  | [p], text =>
    if p = w.many then anyOffset (like []) text
    else if p = w.one then takeOne (fun _ => true) (like []) text
    else if p = w.escape then none
    else takeOne (· == p) (like []) text
  | p :: q :: pattern, text =>
    if p = w.many then anyOffset (like (q :: pattern)) text
    else if p = w.one then takeOne (fun _ => true) (like (q :: pattern)) text
    else if p = w.escape then takeOne (· == q) (like pattern) text
    else takeOne (· == p) (like (q :: pattern)) text

/-- Whether a pattern ends with an escape character that escapes nothing. -/
def isMalformed : List α → Bool
  | [] => false
  | [p] => p == w.escape
  | p :: q :: pattern => if p = w.escape then isMalformed pattern else isMalformed (q :: pattern)

/-- A text with an escape character before every special character. -/
def quote (s : List α) : List α := s.flatMap fun c => if w.isSpecial c then [w.escape, c] else [c]

end Wildcards

/-- A text that starts at some offset is a part of the whole. -/
theorem anyOffset_isInfix {f : List α → Option Bool} {s : List α}
    (hf : ∀ text, f text = some (decide (s <+: text))) (text : List α) :
    anyOffset f text = some (decide (s <:+: text)) := by
  induction text with
  | nil => simp [anyOffset, hf]
  | cons c rest ih =>
    simp only [anyOffset, hf, ih, List.infix_cons_iff, Bool.decide_or]
    by_cases h : s <+: c :: rest <;> simp [h]

namespace Wildcards

variable {w : Wildcards α}

/-- There are three special characters. -/
theorem isSpecial_iff {c : α} : w.isSpecial c = true ↔ c = w.many ∨ c = w.one ∨ c = w.escape := by
  simp [isSpecial, or_assoc]

/-- A wildcard for many characters matches at any offset. -/
theorem like_many (pattern text : List α) :
    w.like (w.many :: pattern) text = anyOffset (w.like pattern) text := by
  cases pattern <;> rw [like, if_pos rfl]

/-- An escaped character matches itself. -/
theorem like_escape (q : α) (pattern text : List α) :
    w.like (w.escape :: q :: pattern) text = takeOne (· == q) (w.like pattern) text := by
  rw [like, if_neg w.many_ne_escape.symm, if_neg w.one_ne_escape.symm, if_pos rfl]

/-- A literal character matches itself. -/
theorem like_literal {p : α} (hp : w.isSpecial p = false) (pattern text : List α) :
    w.like (p :: pattern) text = takeOne (· == p) (w.like pattern) text := by
  have hnot : ¬ (p = w.many ∨ p = w.one ∨ p = w.escape) := by
    rw [← isSpecial_iff, hp]
    exact Bool.false_ne_true
  simp only [not_or] at hnot
  cases pattern <;> rw [like, if_neg hnot.1, if_neg hnot.2.1, if_neg hnot.2.2]

/-- A quoted character matches itself. -/
theorem like_quote_cons (p : α) (s pattern text : List α) :
    w.like (w.quote (p :: s) ++ pattern) text =
      takeOne (· == p) (w.like (w.quote s ++ pattern)) text := by
  rw [quote, List.flatMap_cons]
  cases hp : w.isSpecial p with
  | true => exact like_escape p _ text
  | false => exact like_literal hp _ text

/-- A quoted text matches the texts that start with it, as far as the pattern goes on. -/
theorem like_quote_append (s pattern text : List α) : w.like (w.quote s ++ pattern) text =
    if s <+: text then w.like pattern (text.drop s.length) else some false := by
  induction s generalizing text with
  | nil => simp [quote]
  | cons p s ih =>
    rw [like_quote_cons]
    cases text with
    | nil => simp [takeOne]
    | cons c rest =>
      by_cases hc : c = p
      · subst hc
        simp [takeOne, ih, List.cons_prefix_cons]
      · simp [takeOne, hc, List.cons_prefix_cons, Ne.symm hc]

/-- The wildcard alone matches every text. -/
theorem like_many_only (text : List α) : w.like [w.many] text = some true := by
  rw [like_many]
  induction text with
  | nil => simp [anyOffset, like]
  | cons c rest ih =>
    rw [anyOffset, ih, like]
    rfl

/-- Between two wildcards, a quoted text matches the texts that contain it. -/
theorem like_search (s text : List α) :
    w.like (w.many :: (w.quote s ++ [w.many])) text = some (decide (s <:+: text)) := by
  rw [like_many]
  refine anyOffset_isInfix (fun t => ?_) text
  rw [like_quote_append, like_many_only]
  by_cases h : s <+: t <;> simp [h]

/-- A character that does not escape does not matter for whether a pattern is malformed. -/
theorem isMalformed_cons {p : α} (hp : p ≠ w.escape) (pattern : List α) :
    w.isMalformed (p :: pattern) = w.isMalformed pattern := by
  cases pattern with
  | nil => simp [isMalformed, hp]
  | cons q pattern => rw [isMalformed, if_neg hp]

/-- A quoted text ends no pattern with an escape character. -/
theorem isMalformed_quote_append (s pattern : List α) :
    w.isMalformed (w.quote s ++ pattern) = w.isMalformed pattern := by
  induction s with
  | nil => rfl
  | cons p s ih =>
    rw [quote, List.flatMap_cons]
    cases hp : w.isSpecial p with
    | true =>
      simp only [if_true, List.cons_append, List.nil_append, isMalformed]
      exact ih
    | false =>
      have hescape : p ≠ w.escape := fun h => by simp [isSpecial, h] at hp
      simp only [Bool.false_eq_true, if_false, List.cons_append, List.nil_append]
      rw [isMalformed_cons hescape]
      exact ih

/-! ## Letters without their case -/

/-- A folding of letters. It leaves the special characters as they are, and folds no other character
to one of them. -/
structure Folding (w : Wildcards α) where
  fold : α → List α
  special : ∀ c, w.isSpecial c = true → fold c = [c]
  literal : ∀ c, w.isSpecial c = false → ∀ d ∈ fold c, w.isSpecial d = false

/-- A text with its letters folded. -/
def Folding.text (f : w.Folding) (s : List α) : List α := s.flatMap f.fold

/-- Whether a text matches a pattern when the letters of both are folded. -/
def ilike (w : Wildcards α) (f : w.Folding) (pattern text : List α) : Option Bool :=
  w.like (f.text pattern) (f.text text)

/-- A text without special characters is quoted as itself. -/
theorem quote_eq_self {s : List α} (hs : ∀ c ∈ s, w.isSpecial c = false) : w.quote s = s := by
  induction s with
  | nil => rfl
  | cons c s ih =>
    rw [quote, List.flatMap_cons, hs c List.mem_cons_self]
    exact congrArg (c :: ·) (ih fun d hd => hs d (List.mem_cons_of_mem _ hd))

/-- Quoting and folding commute. -/
theorem quote_text (f : w.Folding) (s : List α) : w.quote (f.text s) = f.text (w.quote s) := by
  induction s with
  | nil => rfl
  | cons c s ih =>
    have hquote : ∀ a b, w.quote (a ++ b) = w.quote a ++ w.quote b := fun a b =>
      List.flatMap_append
    have htext : ∀ a b, f.text (a ++ b) = f.text a ++ f.text b := fun a b => List.flatMap_append
    have hcons : ∀ s', w.quote (c :: s') = w.quote [c] ++ w.quote s' := fun s' => hquote [c] s'
    rw [hcons, htext, ← ih, Folding.text, List.flatMap_cons, hquote]
    congr 1
    cases hc : w.isSpecial c with
    | true =>
      have hescape : f.fold w.escape = [w.escape] :=
        f.special _ (isSpecial_iff.mpr (.inr (.inr rfl)))
      simp [Folding.text, quote, f.special c hc, hc, hescape]
    | false =>
      have hself : f.text (w.quote [c]) = f.fold c := by simp [Folding.text, quote, hc]
      rw [hself, quote_eq_self (f.literal c hc)]

/-- Between two wildcards, a quoted text matches the texts that contain it up to the case. -/
theorem ilike_search (f : w.Folding) (s text : List α) :
    w.ilike f (w.many :: (w.quote s ++ [w.many])) text =
      some (decide (f.text s <:+: f.text text)) := by
  have hmany : f.fold w.many = [w.many] := f.special _ (isSpecial_iff.mpr (.inl rfl))
  have hpattern : f.text (w.many :: (w.quote s ++ [w.many])) =
      w.many :: (w.quote (f.text s) ++ [w.many]) := by
    rw [quote_text]
    simp [Folding.text, hmany]
  rw [ilike, hpattern, like_search]

end Wildcards

end TaskTipsCloud
