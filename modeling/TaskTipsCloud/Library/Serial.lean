import TaskTipsCloud.Library.Sessions

/-!
# Serial runs

Requests that are served one after the other, each transaction alone, on a clock that does not go
back. A transaction on a part of a state runs on the whole state through `zoom`.
-/

namespace TaskTipsCloud

variable {S T L E α β ρ : Type}

/-! ## Transactions on a part of the state -/

namespace Txn

/-- A transaction on the part `get` of a state, which `put` replaces. -/
def zoom (get : S → T) (put : T → S → S) : Txn T L E α → Txn S L E α
  | .pure a => .pure a
  | .throw e => .throw e
  | .lock l k => .lock l (zoom get put k)
  | .read k => .read fun s => zoom get put (k (get s))
  | .write w k => .write (fun s => put (w (get s)) s) (zoom get put k)

variable {get : S → T} {put : T → S → S}

/-- A transaction on a part of the state runs there and leaves the rest. -/
theorem run_zoom (hget : ∀ t s, get (put t s) = t) (hput : ∀ t t' s, put t (put t' s) = put t s)
    (hself : ∀ s, put (get s) s = s) (x : Txn T L E α) (s : S) :
    (x.zoom get put).run s = ((x.run (get s)).1, put (x.run (get s)).2 s) := by
  induction x generalizing s with
  | pure a => exact congrArg (Prod.mk _) (hself s).symm
  | throw e => exact congrArg (Prod.mk _) (hself s).symm
  | lock l k ih => exact ih s
  | read k ih => exact ih (get s) s
  | write w k ih =>
    have hk := ih (put (w (get s)) s)
    rw [hget, hput] at hk
    exact hk

/-- A transaction on a part of the state changes that part. -/
theorem execute_zoom (hget : ∀ t s, get (put t s) = t)
    (hput : ∀ t t' s, put t (put t' s) = put t s) (hself : ∀ s, put (get s) s = s)
    (x : Txn T L E (Except E α)) (s : S) : (x.zoom get put).execute s =
      ((x.execute (get s)).1, put (x.execute (get s)).2 s) := by
  unfold execute
  rw [run_zoom hget hput hself]
  rcases x.run (get s) with ⟨e | r, t⟩
  · exact congrArg (Prod.mk _) (hself s).symm
  · rfl

/-- A sequence goes on after a part that returned. -/
theorem run_bind_of_ok {x : Txn S L E α} {f : α → Txn S L E β} {s s' : S} {a : α}
    (h : x.run s = (.ok a, s')) : (x.bind f).run s = (f a).run s' := by
  rw [run_bind, h]

/-- A sequence fails with a part that fails. -/
theorem run_bind_error {x : Txn S L E α} {f : α → Txn S L E β} {s : S} {e : E}
    (h : (x.run s).1 = .error e) : ((x.bind f).run s).1 = .error e := by
  rw [run_bind]
  rcases hx : x.run s with ⟨e' | a, s'⟩
  · rw [hx] at h
    cases h
    rfl
  · rw [hx] at h
    cases h

/-- A transaction whose errors are mapped. -/
def mapErr {E' : Type} (f : E → E') : Txn S L E α → Txn S L E' α
  | .pure a => .pure a
  | .throw e => .throw (f e)
  | .lock l k => .lock l (mapErr f k)
  | .read k => .read fun s => mapErr f (k s)
  | .write w k => .write w (mapErr f k)

/-- A transaction whose errors are mapped runs as it did. -/
theorem run_mapErr {E' : Type} (f : E → E') (x : Txn S L E α) (s : S) :
    (x.mapErr f).run s = ((x.run s).1.mapError f, (x.run s).2) := by
  induction x generalizing s with
  | pure a => rfl
  | throw e => rfl
  | lock l k ih => exact ih s
  | read k ih => exact ih s s
  | write w k ih => exact ih (w s)

/-- Another name for errors does not change the successes. -/
theorem run_mapErr_ok_iff {E' : Type} {f : E → E'} {x : Txn S L E α} {s s' : S} {a : α} :
    (x.mapErr f).run s = (.ok a, s') ↔ x.run s = (.ok a, s') := by
  rw [run_mapErr]
  rcases x.run s with ⟨_ | b, t⟩
  · simp [Except.mapError]
  · simp [Except.mapError]

/-- A sequence leaves what its parts leave, however they end. -/
theorem run_bind_snd {J : S → Prop} {x : Txn S L E α} {f : α → Txn S L E β} {s : S}
    (hx : J (x.run s).2)
    (hf : ∀ a s', x.run s = (.ok a, s') → J s' → J ((f a).run s').2) : J ((x.bind f).run s).2 := by
  rw [run_bind]
  rcases hrun : x.run s with ⟨e | a, s'⟩
  · rw [hrun] at hx
    exact hx
  · rw [hrun] at hx
    exact hf a s' hrun hx

/-- A transaction whose value is mapped. -/
theorem execute_bind_map {f : α → β} (x : Txn S L E (Except E α)) (s : S) :
    (x.bind fun r => .pure (r.map f)).execute s = ((x.execute s).1.map f, (x.execute s).2) := by
  unfold execute
  rw [run_bind]
  rcases x.run s with ⟨_ | r, s'⟩ <;> rfl

section

variable {s s' : S} {e : E}

/-- A value succeeds with itself and changes nothing. -/
theorem run_pure_ok_iff {a b : α} :
    (Txn.pure a : Txn S L E α).run s = (.ok b, s') ↔ a = b ∧ s = s' := by
  rw [run_pure, Prod.mk.injEq, Except.ok.injEq]

/-- A write succeeds. -/
theorem run_modify_ok_iff {w : S → S} {u : Unit} :
    (modify w : Txn S L E Unit).run s = (.ok u, s') ↔ w s = s' := by
  rw [run_modify, Prod.mk.injEq]
  exact and_iff_right rfl

/-- A value that is there succeeds with itself. -/
theorem run_orThrow_ok_iff {o : Option α} {a : α} :
    (orThrow e o : Txn S L E α).run s = (.ok a, s') ↔ o = some a ∧ s = s' := by
  cases o with
  | none => simp
  | some x => simp

/-- A requirement that is met succeeds. -/
theorem run_require_ok_iff {p : Bool} {u : Unit} :
    (require p e : Txn S L E Unit).run s = (.ok u, s') ↔ p = true ∧ s = s' := by
  cases p <;> simp

end

end Txn

/-! ## Serial runs -/

namespace Service

variable (V : Service S L E α ρ)

/-- A request that is served alone. -/
def alone (q : ρ) (s : S) : Event S E α ρ where
  request := q
  result := ((V.body q).execute s).1
  before := s
  after := ((V.body q).execute s).2
  clock := V.time q

/-- Requests that are served one after the other, from the state `s₀` at the time `t₀`. -/
inductive Serial (s₀ : S) (t₀ : ℤ) : List (Event S E α ρ) → S → ℤ → Prop
  | nil : Serial s₀ t₀ [] s₀ t₀
  | snoc {h : List (Event S E α ρ)} {s : S} {t : ℤ} (q : ρ) (hrun : Serial s₀ t₀ h s t)
      (hq : V.Allowed q) (ht : t ≤ V.time q) :
      Serial s₀ t₀ (h ++ [V.alone q s]) (V.alone q s).after (V.time q)

variable {V} {s₀ s : S} {t₀ t : ℤ} {h : List (Event S E α ρ)}

/-- What every request keeps holds at the end of every serial run. -/
theorem Serial.invariant {J : List (Event S E α ρ) → S → ℤ → Prop} (hrun : V.Serial s₀ t₀ h s t)
    (h0 : J [] s₀ t₀) (hstep : ∀ h s t q, V.Serial s₀ t₀ h s t → V.Allowed q → t ≤ V.time q →
      J h s t → J (h ++ [V.alone q s]) (V.alone q s).after (V.time q)) : J h s t := by
  induction hrun with
  | nil => exact h0
  | snoc q hrun hq ht ih => exact hstep _ _ _ q hrun hq ht ih

/-- A serial run around one of its requests. -/
theorem Serial.split {h₁ h₂ : List (Event S E α ρ)} {e : Event S E α ρ}
    (hrun : V.Serial s₀ t₀ (h₁ ++ e :: h₂) s t) : ∃ t₁, V.Serial s₀ t₀ h₁ e.before t₁ ∧
      e = V.alone e.request e.before ∧ t₁ ≤ V.time e.request ∧ V.Allowed e.request ∧
        V.Serial e.after (V.time e.request) h₂ s t := by
  generalize hh : h₁ ++ e :: h₂ = h at hrun
  induction hrun generalizing h₂ with
  | nil => exact absurd hh (by simp)
  | @snoc h s t q hrun hq ht ih =>
    rcases List.eq_nil_or_concat h₂ with rfl | ⟨h₂', e', rfl⟩
    · obtain ⟨rfl, rfl⟩ := List.append_singleton_inj.mp hh
      exact ⟨t, hrun, rfl, ht, hq, .nil⟩
    · rw [List.concat_eq_append, ← List.cons_append, ← List.append_assoc] at hh
      obtain ⟨hinit, rfl⟩ := List.append_singleton_inj.mp hh
      obtain ⟨t₁, hrun₁, he, ht₁, hq₁, hrun₂⟩ := ih hinit
      refine ⟨t₁, hrun₁, he, ht₁, hq₁, ?_⟩
      rw [List.concat_eq_append]
      exact .snoc q hrun₂ hq ht

/-- A serial run in two parts. -/
theorem Serial.parts {h₁ h₂ : List (Event S E α ρ)} (hrun : V.Serial s₀ t₀ (h₁ ++ h₂) s t) :
    ∃ s₁ t₁, V.Serial s₀ t₀ h₁ s₁ t₁ ∧ V.Serial s₁ t₁ h₂ s t := by
  generalize hh : h₁ ++ h₂ = h at hrun
  induction hrun generalizing h₂ with
  | nil =>
    obtain ⟨rfl, rfl⟩ := List.append_eq_nil_iff.mp hh
    exact ⟨_, _, .nil, .nil⟩
  | @snoc h s t q hrun hq ht ih =>
    rcases List.eq_nil_or_concat h₂ with rfl | ⟨h₂', e', rfl⟩
    · rw [List.append_nil] at hh
      exact ⟨_, _, hh ▸ .snoc q hrun hq ht, .nil⟩
    · rw [List.concat_eq_append, ← List.append_assoc] at hh
      obtain ⟨hinit, rfl⟩ := List.append_singleton_inj.mp hh
      obtain ⟨s₁, t₁, hrun₁, hrun₂⟩ := ih hinit
      rw [List.concat_eq_append]
      exact ⟨s₁, t₁, hrun₁, .snoc q hrun₂ hq ht⟩

/-- Without requests the state stays. -/
theorem Serial.eq_of_nil (hrun : V.Serial s₀ t₀ h s t) (hh : h = []) : s = s₀ := by
  cases hrun with
  | nil => rfl
  | snoc => exact absurd hh (by simp)

/-- The first request of a serial run finds the state that the run starts with. -/
theorem Serial.head_before (hrun : V.Serial s₀ t₀ h s t) {e : Event S E α ρ}
    (he : h.head? = some e) : e.before = s₀ := by
  induction hrun with
  | nil => cases he
  | @snoc h s t q hrun hq ht ih =>
    cases h with
    | nil =>
      cases he
      exact hrun.eq_of_nil rfl
    | cons e' h => exact ih he

/-- The last request of a serial run leaves the state that the run ends with. -/
theorem Serial.last_after (hrun : V.Serial s₀ t₀ h s t) {e : Event S E α ρ}
    (he : h.getLast? = some e) : e.after = s := by
  cases hrun with
  | nil => cases he
  | snoc q hrun hq ht =>
    rw [List.getLast?_concat] at he
    cases he
    rfl

/-- A request that is served alone has no stale reads. -/
theorem outcome_alone {R : Set L → S → S → Prop} (hR : ∀ H, R H s s) (q : ρ) :
    V.Outcome R (V.alone q s) :=
  outcome_execute hR q (V.time q)

/-- What sessions keep for each other, a request that is served alone keeps. -/
theorem Relies.inv_of_outcome {I : S → Prop} {R : Set L → S → S → Prop} (hV : V.Relies I R)
    {e : Event S E α ρ} (hq : V.Allowed e.request) (hc : I e.before) (h : V.Outcome R e) :
    I e.after := by
  obtain ⟨H, b, ⟨hruns, hafter⟩ | ⟨x, -, -, hafter⟩⟩ := h
  · obtain ⟨request, result, before, after, clock⟩ := e
    simp only at hruns hafter hc hq
    subst hafter
    exact (hV.commit hq hc hruns).1
  · rw [hafter]
    exact hc

variable (V) in
/-- Serves the requests one after the other. -/
def serveAlone : List ρ → S → List (Event S E α ρ)
  | [], _ => []
  | q :: qs, s => V.alone q s :: serveAlone qs (V.alone q s).after

/-- The requests of a serial run are those that were made. -/
theorem requests_serveAlone (qs : List ρ) (s : S) : (V.serveAlone qs s).map (·.request) = qs := by
  induction qs generalizing s with
  | nil => rfl
  | cons q qs ih =>
    rw [serveAlone, List.map_cons, ih]
    rfl

/-- Requests at times that do not go back make a serial run. -/
theorem serial_serveAlone (qs : List ρ) (hrun : V.Serial s₀ t₀ h s t) (hqs : ∀ q ∈ qs, V.Allowed q)
    (htimes : (t :: qs.map V.time).Pairwise (· ≤ ·)) :
    ∃ s' t', V.Serial s₀ t₀ (h ++ V.serveAlone qs s) s' t' := by
  induction qs generalizing h s t with
  | nil => exact ⟨s, t, by rw [serveAlone, List.append_nil]; exact hrun⟩
  | cons q qs ih =>
    rw [List.map_cons, List.pairwise_cons] at htimes
    obtain ⟨s', t', hrun'⟩ := ih (hrun.snoc q (hqs q List.mem_cons_self)
      (htimes.1 _ List.mem_cons_self)) (fun q' hq' => hqs q' (List.mem_cons_of_mem _ hq')) htimes.2
    rw [List.append_assoc] at hrun'
    exact ⟨s', t', hrun'⟩

end Service

end TaskTipsCloud
