import TaskTipsCloud.Library.Sessions

/-!
# Traces of runs

A run of sessions, with the position of every read: how many requests had finished when the session
read. Of each finished request a `Record` keeps the positions of its reads and its locks. What is
known of a read is then exact: it saw the state at its position, and until its request finished only
requests without a common lock did.
-/

namespace TaskTipsCloud

namespace Txn

variable {S L E α β : Type}

/-- `RunsAt P x H b r H' b' ns`: started with the locks `H` and the buffer `b`, the body `x` ends
with the result `r`, the locks `H'` and the buffer `b'`, and its reads were at the positions `ns`.
A read with the locks `K` at the position `n` may see the states `d` with `P K n d`. -/
inductive RunsAt (P : Set L → ℕ → S → Prop) :
    Txn S L E α → Set L → (S → S) → Except E α → Set L → (S → S) → List ℕ → Prop
  | pure (a : α) (H : Set L) (b : S → S) : RunsAt P (.pure a) H b (.ok a) H b []
  | throw (e : E) (H : Set L) (b : S → S) : RunsAt P (.throw e) H b (.error e) H b []
  | lock {l : L} {k : Txn S L E α} {H H' : Set L} {b b' : S → S} {r : Except E α} {ns : List ℕ}
      (h : RunsAt P k (insert l H) b r H' b' ns) : RunsAt P (.lock l k) H b r H' b' ns
  | read {k : S → Txn S L E α} {H H' : Set L} {b b' : S → S} {r : Except E α} {ns : List ℕ}
      (n : ℕ) (d : S) (hd : P H n d) (h : RunsAt P (k (b d)) H b r H' b' ns) :
      RunsAt P (.read k) H b r H' b' (n :: ns)
  | write {w : S → S} {k : Txn S L E α} {H H' : Set L} {b b' : S → S} {r : Except E α}
      {ns : List ℕ} (h : RunsAt P k H (w ∘ b) r H' b' ns) : RunsAt P (.write w k) H b r H' b' ns

variable {P : Set L → ℕ → S → Prop} {H H' : Set L} {b b' : S → S} {ns : List ℕ}

/-- Without the positions, a traced body runs among other sessions. -/
theorem RunsAt.runs {x : Txn S L E α} {r : Except E α} (h : RunsAt P x H b r H' b' ns) (c : S) :
    Runs (fun K d _ => ∃ n ∈ ns, P K n d) c x H b r H' b' := by
  induction h with
  | pure a H b => exact .pure a H b
  | throw e H b => exact .throw e H b
  | lock _ ih => exact .lock ih
  | read n d hd _ ih =>
    refine .read d ⟨n, List.mem_cons_self, hd⟩ (ih.mono fun K d' ⟨m, hm, hd'⟩ => ?_)
    exact ⟨m, List.mem_cons_of_mem _ hm, hd'⟩
  | write _ ih => exact .write ih

/-- A sequence returns when both of its parts do, and it reads what they read. -/
theorem runsAt_bind_ok_iff {x : Txn S L E α} {f : α → Txn S L E β} {r : β} :
    RunsAt P (x.bind f) H b (.ok r) H' b' ns ↔ ∃ a H₁ b₁ ns₁ ns₂, ns = ns₁ ++ ns₂ ∧
      RunsAt P x H b (.ok a) H₁ b₁ ns₁ ∧ RunsAt P (f a) H₁ b₁ (.ok r) H' b' ns₂ := by
  -- By induction on the first part; each step of it is a step of the sequence.
  induction x generalizing H b ns with
  | pure a =>
    constructor
    · exact fun h => ⟨a, H, b, [], ns, rfl, .pure a H b, h⟩
    · rintro ⟨_, _, _, _, ns₂, rfl, ⟨⟩, h⟩
      exact h
  | throw e =>
    constructor
    · rintro ⟨⟩
    · rintro ⟨_, _, _, _, _, -, ⟨⟩, -⟩
  | lock l k ih =>
    constructor
    · rintro ⟨⟩
      rename_i h
      obtain ⟨a, H₁, b₁, ns₁, ns₂, hns, hx, hf⟩ := ih.mp h
      exact ⟨a, H₁, b₁, ns₁, ns₂, hns, .lock hx, hf⟩
    · rintro ⟨a, H₁, b₁, ns₁, ns₂, hns, ⟨⟩, hf⟩
      rename_i hx
      exact .lock (ih.mpr ⟨a, H₁, b₁, ns₁, ns₂, hns, hx, hf⟩)
  | read k ih =>
    constructor
    · rintro ⟨⟩
      rename_i n d hd h
      obtain ⟨a, H₁, b₁, ns₁, ns₂, rfl, hx, hf⟩ := (ih _).mp h
      exact ⟨a, H₁, b₁, n :: ns₁, ns₂, rfl, .read n d hd hx, hf⟩
    · rintro ⟨a, H₁, b₁, ns₁, ns₂, rfl, ⟨⟩, hf⟩
      rename_i n d hd hx
      exact .read n d hd ((ih _).mpr ⟨a, H₁, b₁, _, ns₂, rfl, hx, hf⟩)
  | write w k ih =>
    constructor
    · rintro ⟨⟩
      rename_i h
      obtain ⟨a, H₁, b₁, ns₁, ns₂, hns, hx, hf⟩ := ih.mp h
      exact ⟨a, H₁, b₁, ns₁, ns₂, hns, .write hx, hf⟩
    · rintro ⟨a, H₁, b₁, ns₁, ns₂, hns, ⟨⟩, hf⟩
      rename_i hx
      exact .write (ih.mpr ⟨a, H₁, b₁, ns₁, ns₂, hns, hx, hf⟩)

/-- How far a traced session has come: from the start of the body `x` to the rest `y`. -/
inductive CameAt (P : Set L → ℕ → S → Prop) (x : Txn S L E α) :
    Txn S L E α → Set L → (S → S) → List ℕ → Prop
  | start : CameAt P x x ∅ id []
  | lock {l : L} {k : Txn S L E α} {H : Set L} {b : S → S} {ns : List ℕ}
      (h : CameAt P x (.lock l k) H b ns) : CameAt P x k (insert l H) b ns
  | read {k : S → Txn S L E α} {H : Set L} {b : S → S} {ns : List ℕ}
      (h : CameAt P x (.read k) H b ns) (n : ℕ) (d : S) (hd : P H n d) :
      CameAt P x (k (b d)) H b (ns ++ [n])
  | write {w : S → S} {k : Txn S L E α} {H : Set L} {b : S → S} {ns : List ℕ}
      (h : CameAt P x (.write w k) H b ns) : CameAt P x k H (w ∘ b) ns

/-- What a session came through, followed by what its rest does, is what its body does. -/
theorem CameAt.runsAt {x y : Txn S L E α} {r : Except E α} {ns' : List ℕ}
    (h : CameAt P x y H b ns) (hy : RunsAt P y H b r H' b' ns') :
    RunsAt P x ∅ id r H' b' (ns ++ ns') := by
  induction h generalizing ns' with
  | start => exact hy
  | lock _ ih => exact ih (.lock hy)
  | read _ n d hd ih =>
    rw [List.append_assoc]
    exact ih (.read n d hd hy)
  | write _ ih => exact ih (.write hy)

/-- The reads of a session stay good when what is known of them does, for the locks that the
session holds. -/
theorem CameAt.mono {P' : Set L → ℕ → S → Prop} {x y : Txn S L E α}
    (h : CameAt P x y H b ns) (hP : ∀ K, K ⊆ H → ∀ n d, P K n d → P' K n d) :
    CameAt P' x y H b ns := by
  induction h with
  | start => exact .start
  | lock _ ih => exact .lock (ih fun K hK => hP K (hK.trans (Set.subset_insert _ _)))
  | read _ n d hd ih => exact .read (ih hP) n d (hP _ subset_rfl n d hd)
  | write _ ih => exact .write (ih hP)

end Txn

/-- A finished request, with the positions of its reads and the locks that it held. -/
structure Record (S L E α ρ : Type) where
  /-- The finished request. -/
  event : Event S E α ρ
  /-- How many requests had finished before each of its reads. -/
  reads : List ℕ
  /-- The locks held at its end. -/
  locks : Set L

variable {S L E α ρ : Type}

/-- The state that some finished requests left. -/
def stateAfter (s₀ : S) (rs : List (Record S L E α ρ)) : S :=
  (rs.getLast?.map (·.event.after)).getD s₀

/-- What is known of a read at the position `n` under the locks `K`, when the requests `rs` have
finished: it saw the state at its position, and none that finished since holds one of the locks. -/
structure Seen (s₀ : S) (rs : List (Record S L E α ρ)) (K : Set L) (n : ℕ) (d : S) : Prop where
  le : n ≤ rs.length
  eq : d = stateAfter s₀ (rs.take n)
  disjoint : ∀ r ∈ rs.drop n, Disjoint K r.locks

/-- A trace ends in the state after its last event. -/
@[simp] theorem stateAfter_concat (s₀ : S) (rs : List (Record S L E α ρ))
    (r : Record S L E α ρ) : stateAfter s₀ (rs ++ [r]) = r.event.after := by
  simp [stateAfter]

/-- A request that holds none of the locks leaves what is known of a read. -/
theorem Seen.concat {s₀ : S} {rs : List (Record S L E α ρ)} {K : Set L} {n : ℕ} {d : S}
    (h : Seen s₀ rs K n d) {r : Record S L E α ρ} (hr : Disjoint K r.locks) :
    Seen s₀ (rs ++ [r]) K n d where
  le := by
    rw [List.length_append]
    exact h.le.trans (Nat.le_add_right _ _)
  eq := by rw [List.take_append_of_le_length h.le]; exact h.eq
  disjoint r' hr' := by
    rw [List.drop_append_of_le_length h.le] at hr'
    rcases List.mem_append.mp hr' with hr' | hr'
    · exact h.disjoint r' hr'
    · rwa [List.mem_singleton.mp hr']

namespace Service

variable (V : Service S L E α ρ)

/-- A run of the service with its trace: the positions of the reads of every running session, and
the records of the finished requests. -/
inductive Traced (s₀ : S) :
    World S L E α ρ → (ℕ → List ℕ) → List (Record S L E α ρ) → Prop
  | quiet (t : ℤ) : Traced s₀ (Service.quiet s₀ t) (fun _ => []) []
  | tick {w : World S L E α ρ} {reads : ℕ → List ℕ} {rs : List (Record S L E α ρ)}
      (hw : Traced s₀ w reads rs) (t : ℤ) (ht : w.clock ≤ t) :
      Traced s₀ { w with clock := t } reads rs
  | start {w : World S L E α ρ} {reads : ℕ → List ℕ} {rs : List (Record S L E α ρ)}
      (hw : Traced s₀ w reads rs) (i : ℕ) (q : ρ) (hi : w.live i = none) (hq : V.Allowed q)
      (ht : V.time q = w.clock) :
      Traced s₀ { w with live := Function.update w.live i (some ⟨q, V.body q, id, ∅⟩) }
        (Function.update reads i []) rs
  | lock {w : World S L E α ρ} {reads : ℕ → List ℕ} {rs : List (Record S L E α ρ)}
      (hw : Traced s₀ w reads rs) (i : ℕ) (q : ρ) (l : L) (k : Txn S L E (Except E α))
      (b : S → S) (H : Set L) (hi : w.live i = some ⟨q, .lock l k, b, H⟩)
      (hfree : ∀ j, j ≠ i → ∀ s, w.live j = some s → l ∉ s.held) :
      Traced s₀ { w with live := Function.update w.live i (some ⟨q, k, b, insert l H⟩) } reads rs
  | read {w : World S L E α ρ} {reads : ℕ → List ℕ} {rs : List (Record S L E α ρ)}
      (hw : Traced s₀ w reads rs) (i : ℕ) (q : ρ) (k : S → Txn S L E (Except E α))
      (b : S → S) (H : Set L) (hi : w.live i = some ⟨q, .read k, b, H⟩) :
      Traced s₀ { w with live := Function.update w.live i (some ⟨q, k (b w.committed), b, H⟩) }
        (Function.update reads i (reads i ++ [rs.length])) rs
  | write {w : World S L E α ρ} {reads : ℕ → List ℕ} {rs : List (Record S L E α ρ)}
      (hw : Traced s₀ w reads rs) (i : ℕ) (q : ρ) (f : S → S) (k : Txn S L E (Except E α))
      (b : S → S) (H : Set L) (hi : w.live i = some ⟨q, .write f k, b, H⟩) :
      Traced s₀ { w with live := Function.update w.live i (some ⟨q, k, f ∘ b, H⟩) } reads rs
  | commit {w : World S L E α ρ} {reads : ℕ → List ℕ} {rs : List (Record S L E α ρ)}
      (hw : Traced s₀ w reads rs) (i : ℕ) (q : ρ) (r : Except E α) (b : S → S) (H : Set L)
      (hi : w.live i = some ⟨q, .pure r, b, H⟩) :
      Traced s₀ { committed := b w.committed, live := Function.update w.live i none,
                  clock := w.clock,
                  history := w.history ++ [⟨q, r, w.committed, b w.committed, w.clock⟩] } reads
        (rs ++ [⟨⟨q, r, w.committed, b w.committed, w.clock⟩, reads i, H⟩])
  | rollback {w : World S L E α ρ} {reads : ℕ → List ℕ} {rs : List (Record S L E α ρ)}
      (hw : Traced s₀ w reads rs) (i : ℕ) (q : ρ) (x : E) (b : S → S) (H : Set L)
      (hi : w.live i = some ⟨q, .throw x, b, H⟩) :
      Traced s₀ { w with live := Function.update w.live i none,
                         history := w.history ++
                           [⟨q, .error x, w.committed, w.committed, w.clock⟩] } reads
        (rs ++ [⟨⟨q, .error x, w.committed, w.committed, w.clock⟩, reads i, H⟩])
  | lose {w : World S L E α ρ} {reads : ℕ → List ℕ} {rs : List (Record S L E α ρ)}
      (hw : Traced s₀ w reads rs) (i : ℕ) :
      Traced s₀ { w with live := Function.update w.live i none } reads rs

variable {V}

/-- Every run has a trace. -/
theorem Reachable.traced {s₀ : S} {w : World S L E α ρ} (h : V.Reachable s₀ w) :
    ∃ reads rs, V.Traced s₀ w reads rs := by
  obtain ⟨t, hsteps⟩ := h
  induction hsteps with
  | refl => exact ⟨_, _, .quiet t⟩
  | tail _ hstep ih =>
    obtain ⟨reads, rs, htraced⟩ := ih
    cases hstep with
    | tick t ht => exact ⟨_, _, htraced.tick t ht⟩
    | start i q hi hq ht => exact ⟨_, _, htraced.start i q hi hq ht⟩
    | lock i q l k b H hi hfree => exact ⟨_, _, htraced.lock i q l k b H hi hfree⟩
    | read i q k b H hi => exact ⟨_, _, htraced.read i q k b H hi⟩
    | write i q f k b H hi => exact ⟨_, _, htraced.write i q f k b H hi⟩
    | commit i q r b H hi => exact ⟨_, _, htraced.commit i q r b H hi⟩
    | rollback i q x b H hi => exact ⟨_, _, htraced.rollback i q x b H hi⟩
    | lose i => exact ⟨_, _, htraced.lose i⟩

/-- What has a trace is a run. -/
theorem Traced.reachable {s₀ : S} {w : World S L E α ρ} {reads : ℕ → List ℕ}
    {rs : List (Record S L E α ρ)} (h : V.Traced s₀ w reads rs) : V.Reachable s₀ w := by
  induction h with
  | quiet t => exact ⟨t, .refl⟩
  | tick _ t ht ih => exact ih.imp fun _ hsteps => hsteps.tail (.tick _ t ht)
  | start _ i q hi hq ht ih => exact ih.imp fun _ hsteps => hsteps.tail (.start _ i q hi hq ht)
  | lock _ i q l k b H hi hfree ih =>
    exact ih.imp fun _ hsteps => hsteps.tail (.lock _ i q l k b H hi hfree)
  | read _ i q k b H hi ih => exact ih.imp fun _ hsteps => hsteps.tail (.read _ i q k b H hi)
  | write _ i q f k b H hi ih => exact ih.imp fun _ hsteps => hsteps.tail (.write _ i q f k b H hi)
  | commit _ i q r b H hi ih => exact ih.imp fun _ hsteps => hsteps.tail (.commit _ i q r b H hi)
  | rollback _ i q x b H hi ih =>
    exact ih.imp fun _ hsteps => hsteps.tail (.rollback _ i q x b H hi)
  | lose _ i ih => exact ih.imp fun _ hsteps => hsteps.tail (.lose _ i)

/-! ## What the records say -/

/-- What a record says of its request, when the requests `rs` had finished before: it committed what
its body does with reads at the positions of the record, or it was rolled back with an error. -/
def RecordOutcome (V : Service S L E α ρ) (s₀ : S) (rs : List (Record S L E α ρ))
    (r : Record S L E α ρ) : Prop :=
  r.event.before = stateAfter s₀ rs ∧
    ((∃ b, Txn.RunsAt (Seen s₀ rs) (V.body r.event.request) ∅ id (.ok r.event.result) r.locks b
        r.reads ∧ r.event.after = b r.event.before) ∨
      (∃ x, r.event.result = .error x) ∧ r.event.after = r.event.before)

/-- What links a world to its trace. -/
structure TraceLinked (V : Service S L E α ρ) (s₀ : S) (w : World S L E α ρ) (reads : ℕ → List ℕ)
    (rs : List (Record S L E α ρ)) : Prop where
  /-- The records lead to the committed state. -/
  committed : w.committed = stateAfter s₀ rs
  /-- The records are of the requests that finished. -/
  history : rs.map (·.event) = w.history
  /-- Every session came to where it is. -/
  came : ∀ i s, w.live i = some s →
    Txn.CameAt (Seen s₀ rs) (V.body s.request) s.rest s.held s.buffer (reads i)
  /-- Different sessions hold different locks. -/
  disjoint : ∀ i j s s', i ≠ j → w.live i = some s → w.live j = some s' → Disjoint s.held s'.held
  /-- Every record says what its request did. -/
  records : ∀ rs₁ r rs₂, rs = rs₁ ++ r :: rs₂ → V.RecordOutcome s₀ rs₁ r

/-- Replacing one session keeps the link. -/
theorem TraceLinked.update {s₀ : S} {w : World S L E α ρ} {reads : ℕ → List ℕ}
    {rs : List (Record S L E α ρ)} (h : V.TraceLinked s₀ w reads rs) (i : ℕ)
    {s : Session S L E α ρ} {ns : List ℕ}
    (hs : Txn.CameAt (Seen s₀ rs) (V.body s.request) s.rest s.held s.buffer ns)
    (hfree : ∀ j, j ≠ i → ∀ s', w.live j = some s' → Disjoint s.held s'.held) :
    V.TraceLinked s₀ { w with live := Function.update w.live i (some s) }
      (Function.update reads i ns) rs where
  committed := h.committed
  history := h.history
  records := h.records
  came j s' hj := by
    dsimp only at hj
    by_cases hji : j = i
    · subst hji
      rw [Function.update_self] at hj ⊢
      cases hj
      exact hs
    · rw [Function.update_of_ne hji] at hj ⊢
      exact h.came j s' hj
  disjoint j k s₁ s₂ hjk h₁ h₂ := by
    dsimp only at h₁ h₂
    by_cases hji : j = i
    · subst hji
      rw [Function.update_self] at h₁
      rw [Function.update_of_ne hjk.symm] at h₂
      cases h₁
      exact hfree k hjk.symm s₂ h₂
    · rw [Function.update_of_ne hji] at h₁
      by_cases hki : k = i
      · subst hki
        rw [Function.update_self] at h₂
        cases h₂
        exact (hfree j hji s₁ h₁).symm
      · rw [Function.update_of_ne hki] at h₂
        exact h.disjoint j k s₁ s₂ hjk h₁ h₂

/-- Removing one session keeps the link. -/
theorem TraceLinked.remove {s₀ : S} {w : World S L E α ρ} {reads : ℕ → List ℕ}
    {rs : List (Record S L E α ρ)} (h : V.TraceLinked s₀ w reads rs) (i : ℕ) :
    V.TraceLinked s₀ { w with live := Function.update w.live i none } reads rs where
  committed := h.committed
  history := h.history
  records := h.records
  came j s hj := by
    dsimp only at hj
    by_cases hji : j = i
    · subst hji
      rw [Function.update_self] at hj
      cases hj
    · rw [Function.update_of_ne hji] at hj
      exact h.came j s hj
  disjoint j k s₁ s₂ hjk h₁ h₂ := by
    dsimp only at h₁ h₂
    have hji : j ≠ i := by rintro rfl; rw [Function.update_self] at h₁; cases h₁
    have hki : k ≠ i := by rintro rfl; rw [Function.update_self] at h₂; cases h₂
    rw [Function.update_of_ne hji] at h₁
    rw [Function.update_of_ne hki] at h₂
    exact h.disjoint j k s₁ s₂ hjk h₁ h₂

/-- A request that finishes keeps the link, when its record says what it did. -/
theorem TraceLinked.finish {s₀ : S} {w : World S L E α ρ} {reads : ℕ → List ℕ}
    {rs : List (Record S L E α ρ)} (h : V.TraceLinked s₀ w reads rs) (i : ℕ)
    {s : Session S L E α ρ} (hi : w.live i = some s) {e : Event S E α ρ} {c : S}
    (hc : c = e.after) (hout : V.RecordOutcome s₀ rs ⟨e, reads i, s.held⟩) :
    V.TraceLinked s₀
      { committed := c, live := Function.update w.live i none, clock := w.clock,
        history := w.history ++ [e] } reads (rs ++ [⟨e, reads i, s.held⟩]) where
  committed := by rw [stateAfter_concat]; exact hc
  history := by rw [List.map_append, h.history]; rfl
  records rs₁ r rs₂ hsplit := by
    rcases List.eq_nil_or_concat rs₂ with rfl | ⟨rs₂', r', rfl⟩
    · obtain ⟨rfl, rfl⟩ := List.append_singleton_inj.mp hsplit
      exact hout
    · rw [List.concat_eq_append, ← List.cons_append, ← List.append_assoc] at hsplit
      exact h.records rs₁ r rs₂' (List.append_singleton_inj.mp hsplit).1
  came j s' hj := by
    dsimp only at hj
    have hji : j ≠ i := by rintro rfl; rw [Function.update_self] at hj; cases hj
    rw [Function.update_of_ne hji] at hj
    refine (h.came j s' hj).mono fun K hK n d hd => hd.concat ?_
    exact (h.disjoint j i s' s hji hj hi).mono_left hK
  disjoint := (h.remove i).disjoint

/-- Every traced run is linked to its trace. -/
theorem Traced.linked {s₀ : S} {w : World S L E α ρ} {reads : ℕ → List ℕ}
    {rs : List (Record S L E α ρ)} (h : V.Traced s₀ w reads rs) :
    V.TraceLinked s₀ w reads rs := by
  induction h with
  | quiet t =>
    exact ⟨rfl, rfl, fun _ _ hi => (nomatch hi), fun _ _ _ _ _ hi => (nomatch hi),
      fun rs₁ r rs₂ hsplit => absurd hsplit (by simp)⟩
  | tick _ t ht ih => exact ⟨ih.committed, ih.history, ih.came, ih.disjoint, ih.records⟩
  | start _ i q hi hq ht ih =>
    exact ih.update i (s := ⟨q, V.body q, id, ∅⟩) .start fun _ _ _ _ => Set.empty_disjoint _
  | @lock w reads rs _ i q l k b H hi hfree ih =>
    have hupdate := ih.update i (s := ⟨q, k, b, insert l H⟩) (ih.came i _ hi).lock
      fun j hj s' hs' => Set.disjoint_insert_left.mpr
        ⟨hfree j hj s' hs', ih.disjoint i j _ s' hj.symm hi hs'⟩
    rwa [Function.update_eq_self] at hupdate
  | read _ i q k b H hi ih =>
    refine ih.update i (s := ⟨q, k (b _), b, H⟩) ((ih.came i _ hi).read _ _ ?_)
      fun j hj s' hs' => ih.disjoint i j ⟨q, .read k, b, H⟩ s' hj.symm hi hs'
    exact ⟨le_rfl, by rw [List.take_length]; exact ih.committed, by simp⟩
  | write _ i q f k b H hi ih =>
    have hupdate := ih.update i (s := ⟨q, k, f ∘ b, H⟩) (ih.came i _ hi).write
      fun j hj s' hs' => ih.disjoint i j ⟨q, .write f k, b, H⟩ s' hj.symm hi hs'
    rwa [Function.update_eq_self] at hupdate
  | commit _ i q r b H hi ih =>
    refine ih.finish i hi rfl ⟨ih.committed, .inl ⟨b, ?_, rfl⟩⟩
    have hruns := (ih.came i _ hi).runsAt (.pure r H b)
    rwa [List.append_nil] at hruns
  | rollback _ i q x b H hi ih =>
    exact ih.finish i hi rfl ⟨ih.committed, .inr ⟨⟨x, rfl⟩, rfl⟩⟩
  | lose _ i ih => exact ih.remove i

/-! ## Along the records -/

variable (V) in
/-- Records of which each says what its request did. -/
def Recorded (s₀ : S) (rs : List (Record S L E α ρ)) : Prop :=
  ∀ rs₁ r rs₂, rs = rs₁ ++ r :: rs₂ → V.RecordOutcome s₀ rs₁ r

section

variable {s₀ : S} {rs : List (Record S L E α ρ)}

/-- The records of the start of a run. -/
theorem Recorded.take (hrs : V.Recorded s₀ rs) (n : ℕ) : V.Recorded s₀ (rs.take n) := by
  intro rs₁ r rs₂ hsplit
  refine hrs rs₁ r (rs₂ ++ rs.drop n) ?_
  rw [← List.cons_append, ← List.append_assoc, ← hsplit, List.take_append_drop]

/-- The record at a position. -/
theorem Recorded.outcome (hrs : V.Recorded s₀ rs) {k : ℕ} {r : Record S L E α ρ}
    (hk : rs[k]? = some r) : V.RecordOutcome s₀ (rs.take k) r := by
  obtain ⟨hlt, rfl⟩ := List.getElem?_eq_some_iff.mp hk
  refine hrs (rs.take k) _ (rs.drop (k + 1)) ?_
  rw [List.getElem_cons_drop, List.take_append_drop]

/-- The state after the record at a position. -/
theorem stateAfter_take_succ {k : ℕ} {r : Record S L E α ρ} (hk : rs[k]? = some r) :
    stateAfter s₀ (rs.take (k + 1)) = r.event.after := by
  obtain ⟨hlt, rfl⟩ := List.getElem?_eq_some_iff.mp hk
  rw [List.take_succ_eq_append_getElem hlt, stateAfter_concat]

/-- What every record keeps, from one position to a later one. -/
theorem Recorded.induct (hrs : V.Recorded s₀ rs) {J : ℕ → S → Prop} {m n : ℕ} (hmn : m ≤ n)
    (hn : n ≤ rs.length) (hm : J m (stateAfter s₀ (rs.take m)))
    (hstep : ∀ k r, m ≤ k → k < n → rs[k]? = some r →
      J k r.event.before → J (k + 1) r.event.after) :
    J n (stateAfter s₀ (rs.take n)) := by
  induction n, hmn using Nat.le_induction with
  | base => exact hm
  | succ k hmk ih =>
    have hk : rs[k]? = some rs[k] := List.getElem?_eq_getElem hn
    have hbefore := ih (Nat.le_of_succ_le hn) fun l r hml hlk =>
      hstep l r hml (Nat.lt_succ_of_lt hlk)
    rw [← (hrs.outcome hk).1] at hbefore
    rw [stateAfter_take_succ hk]
    exact hstep k _ hmk k.lt_succ_self hk hbefore

/-- What relates the states around every record without a common lock relates the state that a
read saw to the last one. -/
theorem Recorded.rel_of_seen (hrs : V.Recorded s₀ rs) {R : S → S → Prop} (hrefl : ∀ s, R s s)
    (htrans : ∀ s s' s'', R s s' → R s' s'' → R s s'') {K : Set L} {n : ℕ} {d : S}
    (hseen : Seen s₀ rs K n d)
    (hstep : ∀ (k : ℕ) (r : Record S L E α ρ), rs[k]? = some r → Disjoint K r.locks →
      R r.event.before r.event.after) : R d (stateAfter s₀ rs) := by
  have hlast := hrs.induct (J := fun _ s => R d s) hseen.le le_rfl (hseen.eq ▸ hrefl d)
    fun k r hnk _ hk hd => htrans _ _ _ hd (hstep k r hk (hseen.disjoint r ?_))
  · rwa [List.take_length] at hlast
  · refine List.mem_of_getElem? (i := k - n) ?_
    rwa [List.getElem?_drop, Nat.add_sub_cancel' hnk]

end

end Service

end TaskTipsCloud
