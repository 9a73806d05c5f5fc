import TaskTipsCloud.Library.Txn

/-!
# Sessions that interleave

A `World` is a committed state with the sessions that run on it. A session executes the body of one
request statement by statement: a read sees what is committed at that moment with the session's own
writes on top, a lock is granted when no other session holds it, and a commit applies the session's
writes to the committed state. Statements of different sessions interleave in any order, sessions
start at any time, and any of them may be lost.

`World.trail` reduces such a run to the list of its finished requests: each behaves on the state
that it commits on as `Txn.Runs` says, if `R` holds of two states that differ by the commits of
sessions which hold none of the locks `H`. An invariant of all interleavings is then an induction
over a `Trail`.
-/

namespace TaskTipsCloud

/-- A service: the body of each request's transaction, the time at which the request starts, and
the requests that take part. -/
structure Service (S L E α ρ : Type) where
  /-- The transaction that serves a request. -/
  body : ρ → Txn S L E (Except E α)
  /-- The time at which a request's transaction starts. -/
  time : ρ → ℤ
  /-- The requests that are made. -/
  Allowed : ρ → Prop

/-- A running transaction: its request, what is left of its body, its writes and its locks. -/
structure Session (S L E α ρ : Type) where
  /-- The request that it serves. -/
  request : ρ
  /-- What is left of its body. -/
  rest : Txn S L E (Except E α)
  /-- The writes made so far. -/
  buffer : S → S
  /-- The locks held. -/
  held : Set L

/-- A finished request. -/
structure Event (S E α ρ : Type) where
  /-- The request. -/
  request : ρ
  /-- Its result. -/
  result : Except E α
  /-- The committed state when it ended. -/
  before : S
  /-- The committed state that it left. -/
  after : S
  /-- The time at which it ended. -/
  clock : ℤ

/-- The committed state, the running sessions, the clock, and the requests finished so far. -/
structure World (S L E α ρ : Type) where
  /-- The committed state. -/
  committed : S
  /-- The running sessions. -/
  live : ℕ → Option (Session S L E α ρ)
  /-- The current time. -/
  clock : ℤ
  /-- The finished requests, oldest first. -/
  history : List (Event S E α ρ)

namespace Service

variable {S L E α ρ : Type} (V : Service S L E α ρ)

/-- What a finished request did, on the state that it ended on: it committed its writes and its
result, or it was rolled back with an error. -/
def Outcome (R : Set L → S → S → Prop) (e : Event S E α ρ) : Prop :=
  ∃ H b, (Txn.Runs R e.before (V.body e.request) ∅ id (.ok e.result) H b ∧
      e.after = b e.before) ∨
    (∃ x, Txn.Runs R e.before (V.body e.request) ∅ id (.error x) H b ∧ e.result = .error x ∧
      e.after = e.before)

/-- What is known of the stale reads of an outcome may be weakened. -/
theorem Outcome.mono {R R' : Set L → S → S → Prop} {e : Event S E α ρ}
    (hR : ∀ H d, R H d e.before → R' H d e.before) (h : V.Outcome R e) : V.Outcome R' e := by
  obtain ⟨H, b, ⟨hruns, hafter⟩ | ⟨x, hruns, hresult, hafter⟩⟩ := h
  · exact ⟨H, b, .inl ⟨hruns.mono hR, hafter⟩⟩
  · exact ⟨H, b, .inr ⟨x, hruns.mono hR, hresult, hafter⟩⟩

/-- The finished requests of a run in their order: each starts before it ends, and ends on the
state that the one before it left. The invariant `I` holds between them. -/
inductive Trail (I : S → Prop) (R : Set L → S → S → Prop) (s₀ : S) :
    List (Event S E α ρ) → S → ℤ → Prop
  | nil (t : ℤ) : Trail I R s₀ [] s₀ t
  | tick {h : List (Event S E α ρ)} {s : S} {t t' : ℤ} (htr : Trail I R s₀ h s t) (ht : t ≤ t') :
      Trail I R s₀ h s t'
  | snoc {h : List (Event S E α ρ)} (e : Event S E α ρ) (htr : Trail I R s₀ h e.before e.clock)
      (hallowed : V.Allowed e.request) (htime : V.time e.request ≤ e.clock)
      (hout : V.Outcome R e) (hbefore : I e.before) (hafter : I e.after) :
      Trail I R s₀ (h ++ [e]) e.after e.clock

/-- One step of a world. -/
inductive Step : World S L E α ρ → World S L E α ρ → Prop
  | tick (w : World S L E α ρ) (t : ℤ) (ht : w.clock ≤ t) : Step w { w with clock := t }
  | start (w : World S L E α ρ) (i : ℕ) (q : ρ) (hi : w.live i = none) (hq : V.Allowed q)
      (ht : V.time q = w.clock) :
      Step w { w with live := Function.update w.live i (some ⟨q, V.body q, id, ∅⟩) }
  | lock (w : World S L E α ρ) (i : ℕ) (q : ρ) (l : L) (k : Txn S L E (Except E α))
      (b : S → S) (H : Set L) (hi : w.live i = some ⟨q, .lock l k, b, H⟩)
      (hfree : ∀ j, j ≠ i → ∀ s, w.live j = some s → l ∉ s.held) :
      Step w { w with live := Function.update w.live i (some ⟨q, k, b, insert l H⟩) }
  | read (w : World S L E α ρ) (i : ℕ) (q : ρ) (k : S → Txn S L E (Except E α))
      (b : S → S) (H : Set L) (hi : w.live i = some ⟨q, .read k, b, H⟩) :
      Step w { w with live := Function.update w.live i (some ⟨q, k (b w.committed), b, H⟩) }
  | write (w : World S L E α ρ) (i : ℕ) (q : ρ) (f : S → S) (k : Txn S L E (Except E α))
      (b : S → S) (H : Set L) (hi : w.live i = some ⟨q, .write f k, b, H⟩) :
      Step w { w with live := Function.update w.live i (some ⟨q, k, f ∘ b, H⟩) }
  | commit (w : World S L E α ρ) (i : ℕ) (q : ρ) (r : Except E α) (b : S → S) (H : Set L)
      (hi : w.live i = some ⟨q, .pure r, b, H⟩) :
      Step w { committed := b w.committed, live := Function.update w.live i none,
               clock := w.clock,
               history := w.history ++ [⟨q, r, w.committed, b w.committed, w.clock⟩] }
  | rollback (w : World S L E α ρ) (i : ℕ) (q : ρ) (x : E) (b : S → S) (H : Set L)
      (hi : w.live i = some ⟨q, .throw x, b, H⟩) :
      Step w { w with live := Function.update w.live i none,
                      history := w.history ++ [⟨q, .error x, w.committed, w.committed, w.clock⟩] }
  | lose (w : World S L E α ρ) (i : ℕ) : Step w { w with live := Function.update w.live i none }

/-- The world with no sessions on the state `s`. -/
def quiet (s : S) (t : ℤ) : World S L E α ρ := ⟨s, fun _ => none, t, []⟩

/-- The worlds that the service can reach from the state `s`. -/
def Reachable (s : S) (w : World S L E α ρ) : Prop :=
  ∃ t, Relation.ReflTransGen V.Step (quiet s t) w

/-! ## From a world to its trail -/

/-- How far a session has come: from the start of the body `x` to the rest `y`, with the locks `H`
and the buffer `b`, if the session were to commit on `c`. -/
inductive Came (R : Set L → S → S → Prop) (c : S) (x : Txn S L E (Except E α)) :
    Txn S L E (Except E α) → Set L → (S → S) → Prop
  | start : Came R c x x ∅ id
  | lock {l : L} {k : Txn S L E (Except E α)} {H : Set L} {b : S → S}
      (h : Came R c x (.lock l k) H b) : Came R c x k (insert l H) b
  | read {k : S → Txn S L E (Except E α)} {H : Set L} {b : S → S}
      (h : Came R c x (.read k) H b) (d : S) (hd : R H d c) : Came R c x (k (b d)) H b
  | write {f : S → S} {k : Txn S L E (Except E α)} {H : Set L} {b : S → S}
      (h : Came R c x (.write f k) H b) : Came R c x k H (f ∘ b)

variable {I : S → Prop} {R : Set L → S → S → Prop}

/-- What a session came through, followed by what its rest does, is what its body does. -/
theorem Came.runs {c : S} {x y : Txn S L E (Except E α)} {H H' : Set L} {b b' : S → S}
    {r : Except E (Except E α)} (h : Came R c x y H b) (hy : Txn.Runs R c y H b r H' b') :
    Txn.Runs R c x ∅ id r H' b' := by
  induction h with
  | start => exact hy
  | lock _ ih => exact ih (.lock hy)
  | read _ d hd ih => exact ih (.read d hd hy)
  | write _ ih => exact ih (.write hy)

/-- What links a world to its trail: the trail leads to the committed state, the sessions came to
where they are, and no two of them hold the same lock. -/
structure Linked (I : S → Prop) (R : Set L → S → S → Prop) (s₀ : S) (w : World S L E α ρ) :
    Prop where
  /-- The invariant holds of the committed state. -/
  inv : I w.committed
  /-- The history is a trail. -/
  trail : V.Trail I R s₀ w.history w.committed w.clock
  /-- Every session serves a request that is made, and it came to where it is. -/
  came : ∀ i s, w.live i = some s → V.Allowed s.request ∧ V.time s.request ≤ w.clock ∧
    Came R w.committed (V.body s.request) s.rest s.held s.buffer
  /-- Different sessions hold different locks. -/
  disjoint : ∀ i j s s', i ≠ j → w.live i = some s → w.live j = some s' →
    Disjoint s.held s'.held

/-- What is asked of the invariant `I` and of `R`: on states with the invariant `R` is reflexive, it
is transitive, it says less about fewer locks, and every request that commits keeps the invariant,
and keeps `R` for the locks that the request does not hold. -/
structure Relies (I : S → Prop) (R : Set L → S → S → Prop) : Prop where
  refl : ∀ H s, I s → R H s s
  trans : ∀ {H : Set L} {s s' s'' : S}, R H s s' → R H s' s'' → R H s s''
  anti : ∀ {H H' : Set L} {s s' : S}, H ⊆ H' → R H' s s' → R H s s'
  commit : ∀ {q : ρ} {c : S} {r : Except E α} {H : Set L} {b : S → S}, V.Allowed q → I c →
    Txn.Runs R c (V.body q) ∅ id (.ok r) H b →
      I (b c) ∧ ∀ K, Disjoint K H → R K c (b c)

variable {V}

/-- The reads of a session stay good when others change the committed state without its locks. -/
theorem Came.mono (hV : V.Relies I R) {c c' : S} {x y : Txn S L E (Except E α)} {H : Set L}
    {b : S → S} (h : Came R c x y H b) (hc : R H c c') : Came R c' x y H b := by
  induction h with
  | start => exact .start
  | lock _ ih => exact .lock (ih (hV.anti (Set.subset_insert _ _) hc))
  | read _ d hd ih => exact .read (ih hc) d (hV.trans hd hc)
  | write _ ih => exact .write (ih hc)

/-- Replacing one session keeps the link when the new one came to where it is and its locks are
free. -/
theorem Linked.update {s₀ : S} {w : World S L E α ρ} (h : V.Linked I R s₀ w) (i : ℕ)
    {s : Session S L E α ρ} (hs : V.Allowed s.request ∧ V.time s.request ≤ w.clock ∧
      Came R w.committed (V.body s.request) s.rest s.held s.buffer)
    (hfree : ∀ j, j ≠ i → ∀ s', w.live j = some s' → Disjoint s.held s'.held) :
    V.Linked I R s₀ { w with live := Function.update w.live i (some s) } where
  inv := h.inv
  trail := h.trail
  came j s' hj := by
    dsimp only at hj
    by_cases hji : j = i
    · subst hji
      rw [Function.update_self] at hj
      cases hj
      exact hs
    · rw [Function.update_of_ne hji] at hj
      exact h.came j s' hj
  disjoint j k s₁ s₂ hjk h₁ h₂ := by
    dsimp only at h₁ h₂
    by_cases hji : j = i
    · subst hji
      rw [Function.update_self] at h₁
      rw [Function.update_of_ne hjk.symm] at h₂
      cases h₁
      exact hfree k hjk.symm s₂ h₂
    · rw [Function.update_of_ne hji] at h₁
      by_cases hki : k = i
      · subst hki
        rw [Function.update_self] at h₂
        cases h₂
        exact (hfree j hji s₁ h₁).symm
      · rw [Function.update_of_ne hki] at h₂
        exact h.disjoint j k s₁ s₂ hjk h₁ h₂

/-- The end of one session keeps the link, if the trail goes on and the others' reads stay good. -/
theorem Linked.finish {s₀ : S} {w : World S L E α ρ} (h : V.Linked I R s₀ w) (i : ℕ) {c : S}
    {hist : List (Event S E α ρ)} (hinv : I c) (htrail : V.Trail I R s₀ hist c w.clock)
    (hR : ∀ j, j ≠ i → ∀ s, w.live j = some s →
      Came R c (V.body s.request) s.rest s.held s.buffer) :
    V.Linked I R s₀ ⟨c, Function.update w.live i none, w.clock, hist⟩ where
  inv := hinv
  trail := htrail
  came j s hj := by
    by_cases hji : j = i
    · subst hji
      simp at hj
    · simp only [Function.update_of_ne hji] at hj
      exact ⟨(h.came j s hj).1, (h.came j s hj).2.1, hR j hji s hj⟩
  disjoint j k s₁ s₂ hjk h₁ h₂ := by
    have hji : j ≠ i := by rintro rfl; simp at h₁
    have hki : k ≠ i := by rintro rfl; simp at h₂
    simp only [Function.update_of_ne hji] at h₁
    simp only [Function.update_of_ne hki] at h₂
    exact h.disjoint j k s₁ s₂ hjk h₁ h₂

/-- Every step keeps the link. -/
theorem Linked.step (hV : V.Relies I R) {s₀ : S} {w w' : World S L E α ρ} (h : V.Linked I R s₀ w)
    (hw : V.Step w w') : V.Linked I R s₀ w' := by
  -- The locks of a session are free for it: no other session holds them.
  have hheld : ∀ i s, w.live i = some s → ∀ j, j ≠ i → ∀ s', w.live j = some s' →
      Disjoint s.held s'.held :=
    fun i s hi j hj s' hs' => h.disjoint i j s s' hj.symm hi hs'
  cases hw with
  | tick t ht =>
    exact ⟨h.inv, h.trail.tick ht, fun i s hi =>
      ⟨(h.came i s hi).1, (h.came i s hi).2.1.trans ht, (h.came i s hi).2.2⟩, h.disjoint⟩
  | start i q hi hq ht =>
    exact h.update i ⟨hq, ht.le, .start⟩ fun j _ s' _ => Set.empty_disjoint _
  | lock i q l k b H hi hfree =>
    obtain ⟨hq, ht, hcame⟩ := h.came i _ hi
    refine h.update i ⟨hq, ht, hcame.lock⟩ fun j hj s' hs' => ?_
    exact Set.disjoint_insert_left.mpr ⟨hfree j hj s' hs', hheld i _ hi j hj s' hs'⟩
  | read i q k b H hi =>
    obtain ⟨hq, ht, hcame⟩ := h.came i _ hi
    exact h.update i ⟨hq, ht, hcame.read _ (hV.refl _ _ h.inv)⟩ fun j hj s' hs' =>
      hheld i ⟨q, .read k, b, H⟩ hi j hj s' hs'
  | write i q f k b H hi =>
    obtain ⟨hq, ht, hcame⟩ := h.came i _ hi
    exact h.update i ⟨hq, ht, hcame.write⟩ fun j hj s' hs' =>
      hheld i ⟨q, .write f k, b, H⟩ hi j hj s' hs'
  | commit i q r b H hi =>
    obtain ⟨hq, ht, hcame⟩ := h.came i _ hi
    have hruns : Txn.Runs R w.committed (V.body q) ∅ id (.ok r) H b := hcame.runs (.pure r H b)
    obtain ⟨hinv, hkept⟩ := hV.commit hq h.inv hruns
    have htrail : V.Trail I R s₀
        (w.history ++ [⟨q, r, w.committed, b w.committed, w.clock⟩]) (b w.committed) w.clock :=
      .snoc ⟨q, r, w.committed, b w.committed, w.clock⟩ h.trail hq ht ⟨H, b, .inl ⟨hruns, rfl⟩⟩
        h.inv hinv
    refine h.finish i hinv htrail fun j hj s hs => ?_
    have hkept : R s.held w.committed (b w.committed) :=
      hkept _ (h.disjoint j i s _ hj hs hi)
    exact (h.came j s hs).2.2.mono hV hkept
  | rollback i q x b H hi =>
    obtain ⟨hq, ht, hcame⟩ := h.came i _ hi
    exact h.finish i h.inv (.snoc ⟨q, .error x, w.committed, w.committed, w.clock⟩ h.trail hq ht
      ⟨H, b, .inr ⟨x, hcame.runs (.throw x H b), rfl, rfl⟩⟩ h.inv h.inv)
      fun j _ s hs => (h.came j s hs).2.2
  | lose i => exact h.finish i h.inv h.trail fun j _ s hs => (h.came j s hs).2.2

/-- Every reachable world is linked to its trail. -/
theorem Reachable.linked (hV : V.Relies I R) {s₀ : S} (hs₀ : I s₀) {w : World S L E α ρ}
    (h : V.Reachable s₀ w) : V.Linked I R s₀ w := by
  obtain ⟨t, hsteps⟩ := h
  induction hsteps with
  | refl => exact ⟨hs₀, .nil t, by simp [quiet], by simp [quiet]⟩
  | tail _ hstep ih => exact ih.step hV hstep

/-- The invariant holds of every committed state. -/
theorem Reachable.inv (hV : V.Relies I R) {s₀ : S} (hs₀ : I s₀) {w : World S L E α ρ}
    (h : V.Reachable s₀ w) : I w.committed := (h.linked hV hs₀).inv

/-- The finished requests of every reachable world form a trail to its committed state. -/
theorem Reachable.trail (hV : V.Relies I R) {s₀ : S} (hs₀ : I s₀) {w : World S L E α ρ}
    (h : V.Reachable s₀ w) : V.Trail I R s₀ w.history w.committed w.clock :=
  (h.linked hV hs₀).trail

/-- What every finished request does to the committed state, all of the steps that follow do. -/
theorem Reachable.related (hV : V.Relies I R) {s₀ : S} (hs₀ : I s₀) {w w' : World S L E α ρ}
    (hw : V.Reachable s₀ w) (hsteps : Relation.ReflTransGen V.Step w w') {P : S → S → Prop}
    (hrefl : ∀ s, P s s) (htrans : ∀ {s s' s''}, P s s' → P s' s'' → P s s'')
    (hevent : ∀ e : Event S E α ρ, V.Outcome R e → I e.before → P e.before e.after) :
    P w.committed w'.committed := by
  induction hsteps with
  | refl => exact hrefl _
  | @tail w₁ w₂ hsteps₁ hstep ih =>
    refine htrans ih ?_
    obtain ⟨t, hfrom⟩ := hw
    have hlinked := Reachable.linked hV hs₀ ⟨t, hfrom.trans hsteps₁⟩
    cases hstep with
    | commit i q r b H hi =>
      have hcame := (hlinked.came i _ hi).2.2
      exact hevent ⟨q, r, w₁.committed, b w₁.committed, w₁.clock⟩
        ⟨H, b, .inl ⟨hcame.runs (.pure r H b), rfl⟩⟩ hlinked.inv
    | _ => exact hrefl _

/-! ## Trails -/

/-- An invariant that every finished request keeps holds at the end of every trail. -/
theorem Trail.invariant {J : List (Event S E α ρ) → S → Prop} {s₀ s : S}
    {h : List (Event S E α ρ)} {t : ℤ} (htr : V.Trail I R s₀ h s t) (h0 : J [] s₀)
    (hstep : ∀ h e, V.Trail I R s₀ h e.before e.clock → V.time e.request ≤ e.clock →
      V.Allowed e.request → V.Outcome R e → I e.before → I e.after → J h e.before →
        J (h ++ [e]) e.after) : J h s := by
  induction htr with
  | nil => exact h0
  | tick _ _ ih => exact ih
  | snoc e htr hq ht hout hb ha ih => exact hstep _ e htr ht hq hout hb ha ih

/-- Requests of which nothing is known make a trail. -/
theorem relies_nothing (V : Service S L E α ρ) :
    V.Relies (fun _ => True) fun _ _ _ => True where
  refl _ _ _ := trivial
  trans _ _ := trivial
  anti _ _ := trivial
  commit _ _ _ := ⟨trivial, fun _ _ => trivial⟩

/-- What finished on a trail finished before its end. -/
theorem Trail.clock_le {s₀ s : S} {h : List (Event S E α ρ)} {t : ℤ} (htr : V.Trail I R s₀ h s t) :
    ∀ e ∈ h, e.clock ≤ t := by
  induction htr with
  | nil => simp
  | tick _ ht ih => exact fun e he => (ih e he).trans ht
  | snoc e htr hq ht hout hb ha ih =>
    intro e' he'
    rcases List.mem_append.mp he' with he' | he'
    · exact ih e' he'
    · rw [List.mem_singleton.mp he']

/-- Requests finish in the order of time. -/
theorem Trail.clocks {s₀ s : S} {h : List (Event S E α ρ)} {t : ℤ} (htr : V.Trail I R s₀ h s t) :
    (h.map (·.clock)).Pairwise (· ≤ ·) := by
  induction htr with
  | nil => exact .nil
  | tick _ _ ih => exact ih
  | snoc e htr hq ht hout hb ha ih =>
    rw [List.map_append, List.map_singleton, List.pairwise_append]
    refine ⟨ih, List.pairwise_singleton _ _, fun t' ht' t'' ht'' => ?_⟩
    obtain ⟨e', he', rfl⟩ := List.mem_map.mp ht'
    rw [List.mem_singleton.mp ht'']
    exact htr.clock_le e' he'

/-- A trail around one of its requests: what led to it, what it did, and what followed. -/
theorem Trail.split {s₀ s : S} {h₁ h₂ : List (Event S E α ρ)} {e : Event S E α ρ} {t : ℤ}
    (htr : V.Trail I R s₀ (h₁ ++ e :: h₂) s t) :
    V.Trail I R s₀ h₁ e.before e.clock ∧ V.time e.request ≤ e.clock ∧ V.Outcome R e ∧
      I e.before ∧ I e.after ∧ V.Trail I R e.after h₂ s t ∧ e.clock ≤ t ∧
        ∀ e' ∈ h₂, e.clock ≤ e'.clock := by
  generalize hh : h₁ ++ e :: h₂ = h at htr
  induction htr generalizing h₂ with
  | nil t => simp at hh
  | tick _ ht ih =>
    obtain ⟨h₁, htime, hout, hb, ha, h₂, hle, hall⟩ := ih hh
    exact ⟨h₁, htime, hout, hb, ha, h₂.tick ht, hle.trans ht, hall⟩
  | @snoc h e' htr hq htime hout hb ha ih =>
    rcases List.eq_nil_or_concat h₂ with rfl | ⟨h₂', e'', rfl⟩
    · obtain ⟨rfl, rfl⟩ := List.append_singleton_inj.mp hh
      exact ⟨htr, htime, hout, hb, ha, .nil _, le_refl _, by simp⟩
    · rw [List.concat_eq_append] at hh ⊢
      rw [← List.cons_append, ← List.append_assoc] at hh
      obtain ⟨rfl, rfl⟩ := List.append_singleton_inj.mp hh
      obtain ⟨htr₁, htime', hout', hb', ha', htr₂, hle, hall⟩ := ih rfl
      refine ⟨htr₁, htime', hout', hb', ha', .snoc e'' htr₂ hq htime hout hb ha, hle, ?_⟩
      intro x hx
      rcases List.mem_append.mp hx with hx | hx
      · exact hall x hx
      · rw [List.mem_singleton.mp hx]
        exact hle

/-- A transaction that runs alone is an outcome. -/
theorem outcome_execute {s : S} (hR : ∀ H, R H s s) (q : ρ) (t : ℤ) :
    V.Outcome R ⟨q, ((V.body q).execute s).1, s, ((V.body q).execute s).2, t⟩ := by
  obtain ⟨H, b, hruns, hs⟩ := Txn.runs_run hR (V.body q) ∅ id
  refine ⟨H, b, ?_⟩
  simp only [id_eq] at hruns hs
  unfold Txn.execute
  rcases hrun : (V.body q).run s with ⟨_ | r, s'⟩
  · rw [hrun] at hruns
    exact .inr ⟨_, hruns, rfl, rfl⟩
  · rw [hrun] at hruns hs
    exact .inl ⟨hruns, hs⟩

variable (V) in
/-- Serves the requests one after the other, each alone. -/
def serve : List ρ → World S L E α ρ → World S L E α ρ
  | [], w => w
  | q :: qs, w => serve qs
      { committed := ((V.body q).execute w.committed).2, live := w.live, clock := V.time q,
        history := w.history ++ [⟨q, ((V.body q).execute w.committed).1, w.committed,
          ((V.body q).execute w.committed).2, V.time q⟩] }

/-- Each request adds an event. -/
theorem history_length_serve (qs : List ρ) (w : World S L E α ρ) :
    (V.serve qs w).history.length = w.history.length + qs.length := by
  induction qs generalizing w with
  | nil => rfl
  | cons q qs ih =>
    unfold serve
    rw [ih, List.length_append, List.length_singleton, List.length_cons]
    omega

/-- The requests of the history are those that were made. -/
theorem requests_serve (qs : List ρ) (w : World S L E α ρ) :
    (V.serve qs w).history.map (·.request) = w.history.map (·.request) ++ qs := by
  induction qs generalizing w with
  | nil => exact (List.append_nil _).symm
  | cons q qs ih =>
    unfold serve
    rw [ih, List.map_append, List.map_singleton, List.append_assoc]
    rfl

/-- A session that runs with no other session takes its body to the end. -/
theorem steps_execute (x : Txn S L E (Except E α)) (w : World S L E α ρ) (q : ρ) (b : S → S)
    (H : Set L) (hother : ∀ j, j ≠ 0 → w.live j = none) (h0 : w.live 0 = some ⟨q, x, b, H⟩) :
    Relation.ReflTransGen V.Step w
      ⟨(Txn.settle w.committed (x.run (b w.committed))).2, fun _ => none, w.clock,
        w.history ++ [⟨q, (Txn.settle w.committed (x.run (b w.committed))).1, w.committed,
          (Txn.settle w.committed (x.run (b w.committed))).2, w.clock⟩]⟩ := by
  -- There is one live session, so each step leaves no other one.
  have hnone : ∀ f : ℕ → Option (Session S L E α ρ), (∀ j, j ≠ 0 → f j = none) →
      Function.update f 0 none = fun _ => none := by
    intro f hf
    funext j
    by_cases hj : j = 0
    · subst hj; simp
    · simp [hj, hf j hj]
  have hupd : ∀ f : ℕ → Option (Session S L E α ρ), (∀ j, j ≠ 0 → f j = none) →
      ∀ s j, j ≠ 0 → Function.update f 0 (some s) j = none := by
    intro f hf s j hj
    simp [hj, hf j hj]
  have hself : ∀ (f : ℕ → Option (Session S L E α ρ)) s, Function.update f 0 (some s) 0 = some s :=
    fun _ _ => Function.update_self ..
  induction x generalizing w b H with
  | pure r =>
    have hstep := Step.commit (V := V) w 0 q r b H h0
    rw [hnone _ hother] at hstep
    exact .single hstep
  | throw e =>
    have hstep := Step.rollback (V := V) w 0 q e b H h0
    rw [hnone _ hother] at hstep
    exact .single hstep
  | lock l k ih =>
    have hstep := Step.lock (V := V) w 0 q l k b H h0 fun j hj s hs => by simp [hother j hj] at hs
    exact .head hstep (ih _ b (insert l H) (hupd w.live hother _) (hself w.live _))
  | read k ih =>
    have hstep := Step.read (V := V) w 0 q k b H h0
    exact .head hstep (ih (b w.committed) _ b H (hupd w.live hother _) (hself w.live _))
  | write f k ih =>
    have hstep := Step.write (V := V) w 0 q f k b H h0
    exact .head hstep (ih _ (f ∘ b) H (hupd w.live hother _) (hself w.live _))

/-- Requests served one after the other at times that do not go back are a run of the service. -/
theorem reachable_serve {s₀ : S} {w : World S L E α ρ} (hw : V.Reachable s₀ w)
    (hlive : ∀ i, w.live i = none) (qs : List ρ) (hqs : ∀ q ∈ qs, V.Allowed q)
    (htimes : (w.clock :: qs.map V.time).Pairwise (· ≤ ·)) : V.Reachable s₀ (V.serve qs w) := by
  induction qs generalizing w with
  | nil => exact hw
  | cons q qs ih =>
    obtain ⟨t, hsteps⟩ := hw
    simp only [List.map_cons, List.pairwise_cons] at htimes
    have hle : w.clock ≤ V.time q := htimes.1 _ List.mem_cons_self
    have hstart : Relation.ReflTransGen V.Step w { w with
        live := Function.update w.live 0 (some ⟨q, V.body q, id, ∅⟩), clock := V.time q } :=
      .head (Step.tick w (V.time q) hle)
        (.single (Step.start { w with clock := V.time q } 0 q (hlive 0)
          (hqs q List.mem_cons_self) rfl))
    have hrun := steps_execute (V := V) (V.body q) { w with
        live := Function.update w.live 0 (some ⟨q, V.body q, id, ∅⟩), clock := V.time q } q id ∅
      (fun j hj => by simp [hj, hlive j]) (by simp)
    have hnext : V.Reachable s₀ (V.serve [q] w) := by
      refine ⟨t, hsteps.trans (hstart.trans ?_)⟩
      have hnone : w.live = fun _ => none := funext hlive
      simp only [serve, hnone] at hrun ⊢
      exact hrun
    exact ih hnext hlive (fun q' hq' => hqs q' (List.mem_cons_of_mem _ hq')) (by
      simpa [serve] using htimes.2)

end Service

end TaskTipsCloud
