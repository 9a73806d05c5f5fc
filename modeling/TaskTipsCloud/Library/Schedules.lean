import TaskTipsCloud.Library.Sessions

/-!
# Schedules of sessions

A `Board` is a world with finitely many places for sessions, on which a schedule can be executed: a
list of moves that says which session starts or goes on next. What a schedule reaches, the service
can reach.
-/

namespace TaskTipsCloud

variable {S L E α ρ : Type}

/-- A running transaction whose locks are listed. -/
structure Slot (S L E α ρ : Type) where
  /-- The request that it serves. -/
  request : ρ
  /-- What is left of its body. -/
  rest : Txn S L E (Except E α)
  /-- The writes made so far. -/
  buffer : S → S
  /-- The locks held. -/
  held : List L

/-- The session of a slot. -/
def Slot.session (s : Slot S L E α ρ) : Session S L E α ρ :=
  ⟨s.request, s.rest, s.buffer, {l | l ∈ s.held}⟩

/-- A world with a list of places for sessions. -/
structure Board (S L E α ρ : Type) where
  /-- The committed state. -/
  committed : S
  /-- The places. -/
  slots : List (Option (Slot S L E α ρ))
  /-- The current time. -/
  clock : ℤ
  /-- The finished requests, oldest first. -/
  history : List (Event S E α ρ)

/-- One entry of a schedule. -/
inductive Move (ρ : Type) where
  /-- A session starts, at the time of its request. -/
  | start (i : ℕ) (q : ρ)
  /-- A session executes its next statement. -/
  | next (i : ℕ)

namespace Board

/-- The session at a place. -/
def slot (B : Board S L E α ρ) (i : ℕ) : Option (Slot S L E α ρ) := (B.slots[i]?).join

/-- The world of a board. -/
def world (B : Board S L E α ρ) : World S L E α ρ :=
  ⟨B.committed, fun i => (B.slot i).map Slot.session, B.clock, B.history⟩

/-- The board with a session at a place, or with none. -/
def put (B : Board S L E α ρ) (i : ℕ) (s : Option (Slot S L E α ρ)) : Board S L E α ρ :=
  { B with slots := B.slots.set i s }

/-- The board after a request has finished. -/
def finish (B : Board S L E α ρ) (e : Event S E α ρ) : Board S L E α ρ :=
  { B with committed := e.after, history := B.history ++ [e] }

/-- Whether no other session holds a lock. -/
def isFree [DecidableEq L] (B : Board S L E α ρ) (i : ℕ) (l : L) : Bool :=
  (List.range B.slots.length).all fun j => j == i || (B.slot j).all fun s => !s.held.contains l

variable (V : Service S L E α ρ)

/-- Makes a move, if it can be made: a session that waits for a lock does not move. -/
def move [DecidableEq L] (B : Board S L E α ρ) : Move ρ → Option (Board S L E α ρ)
  | .start i q =>
    if i < B.slots.length && (B.slot i).isNone && B.clock ≤ V.time q then
      some ({ B with clock := V.time q }.put i (some ⟨q, V.body q, id, []⟩))
    else none
  | .next i =>
    (B.slot i).bind fun s =>
      match s.rest with
      | .lock l k =>
        if B.isFree i l then some (B.put i (some ⟨s.request, k, s.buffer, l :: s.held⟩)) else none
      | .read k => some (B.put i (some ⟨s.request, k (s.buffer B.committed), s.buffer, s.held⟩))
      | .write f k => some (B.put i (some ⟨s.request, k, f ∘ s.buffer, s.held⟩))
      | .pure r =>
        some ((B.finish ⟨s.request, r, B.committed, s.buffer B.committed, B.clock⟩).put i none)
      | .throw e =>
        some ((B.finish ⟨s.request, .error e, B.committed, B.committed, B.clock⟩).put i none)

/-- Executes a schedule. -/
def play [DecidableEq L] (B : Board S L E α ρ) : List (Move ρ) → Option (Board S L E α ρ)
  | [] => some B
  | m :: ms => (B.move V m).bind (·.play ms)

/-! ## What a schedule reaches -/

section

variable {B : Board S L E α ρ} {i : ℕ} {s : Slot S L E α ρ}

/-- Sessions are numbered from the start. -/
theorem lt_of_slot (h : B.slot i = some s) : i < B.slots.length := by
  by_contra hi
  unfold slot at h
  rw [List.getElem?_eq_none (not_lt.mp hi)] at h
  cases h

/-- The world of a board on which one place has changed. -/
theorem world_put (hi : i < B.slots.length) (s : Option (Slot S L E α ρ)) :
    (B.put i s).world =
      { B.world with live := Function.update B.world.live i (s.map Slot.session) } := by
  have hlive : (B.put i s).world.live =
      Function.update B.world.live i (s.map Slot.session) := by
    funext j
    by_cases hj : j = i
    · subst hj
      rw [Function.update_self]
      simp [world, put, slot, hi]
    · rw [Function.update_of_ne hj]
      simp [world, put, slot, List.getElem?_set_ne (Ne.symm hj)]
  rw [← hlive]
  rfl

/-- A lock that is free on the board is free in its world. -/
theorem not_mem_held_of_isFree [DecidableEq L] {l : L} (h : B.isFree i l = true) (j : ℕ)
    (hj : j ≠ i) (s : Session S L E α ρ) (hs : B.world.live j = some s) : l ∉ s.held := by
  obtain ⟨s', hs', rfl⟩ := Option.map_eq_some_iff.mp hs
  have hfree := List.all_eq_true.mp h j (List.mem_range.mpr (lt_of_slot hs'))
  rw [hs'] at hfree
  simpa [hj, Slot.session] using hfree

variable {V}

/-- The next statement of a session is a step of the service. -/
theorem step_of_next [DecidableEq L] {B' : Board S L E α ρ} (h : B.move V (.next i) = some B') :
    V.Step B.world B'.world := by
  obtain ⟨⟨q, rest, b, held⟩, hs, hmove⟩ := Option.bind_eq_some_iff.mp h
  have hi := lt_of_slot hs
  have hlive : B.world.live i = some (Slot.session ⟨q, rest, b, held⟩) :=
    congrArg (Option.map Slot.session) hs
  cases rest with
  | lock l k =>
    dsimp only at hmove
    split at hmove
    · rename_i hfree
      cases hmove
      have hheld : ({l' | l' ∈ l :: held} : Set L) = insert l {l' | l' ∈ held} := by
        ext l'
        exact List.mem_cons
      rw [world_put hi, Option.map_some, Slot.session, hheld]
      exact .lock B.world i q l k b _ hlive (not_mem_held_of_isFree hfree)
    · cases hmove
  | read k =>
    cases hmove
    rw [world_put hi]
    exact .read B.world i q k b _ hlive
  | write f k =>
    cases hmove
    rw [world_put hi]
    exact .write B.world i q f k b _ hlive
  | pure r =>
    cases hmove
    rw [world_put (B := B.finish _) hi]
    exact .commit B.world i q r b _ hlive
  | throw e =>
    cases hmove
    rw [world_put (B := B.finish _) hi]
    exact .rollback B.world i q e b _ hlive

/-- The start of a session is two steps: the clock moves, and the session starts. -/
theorem steps_of_start [DecidableEq L] {q : ρ} (hq : V.Allowed q) {B' : Board S L E α ρ}
    (h : B.move V (.start i q) = some B') : Relation.ReflTransGen V.Step B.world B'.world := by
  simp only [move] at h
  split at h
  · rename_i hfree
    simp only [Bool.and_eq_true, decide_eq_true_eq, Option.isNone_iff_eq_none] at hfree
    obtain ⟨⟨hi, hnone⟩, htime⟩ := hfree
    cases h
    have hheld : ({l | l ∈ ([] : List L)} : Set L) = ∅ :=
      Set.eq_empty_of_forall_notMem fun _ => List.not_mem_nil
    rw [world_put (B := { B with clock := V.time q }) hi, Option.map_some, Slot.session, hheld]
    refine .head (.tick B.world (V.time q) htime) (.single ?_)
    refine .start { B.world with clock := V.time q } i q ?_ hq rfl
    exact congrArg (Option.map Slot.session) hnone
  · cases h

/-- What a schedule reaches from a board, the service reaches from its world. -/
theorem steps_of_play [DecidableEq L] {B' : Board S L E α ρ} {ms : List (Move ρ)}
    (hms : ∀ i q, .start i q ∈ ms → V.Allowed q) (h : B.play V ms = some B') :
    Relation.ReflTransGen V.Step B.world B'.world := by
  induction ms generalizing B with
  | nil =>
    cases h
    exact .refl
  | cons m ms ih =>
    obtain ⟨B₁, hmove, hplay⟩ := Option.bind_eq_some_iff.mp h
    have hrest := ih (fun i q hq => hms i q (List.mem_cons_of_mem _ hq)) hplay
    cases m with
    | start i q => exact (steps_of_start (hms i q List.mem_cons_self) hmove).trans hrest
    | next i => exact .head (step_of_next hmove) hrest

end

/-- A board on which nothing runs, with some places. -/
def quiet (s : S) (t : ℤ) (n : ℕ) : Board S L E α ρ := ⟨s, List.replicate n none, t, []⟩

/-- Its world is quiet. -/
theorem world_quiet (s : S) (t : ℤ) (n : ℕ) :
    (quiet s t n : Board S L E α ρ).world = Service.quiet s t := by
  have hslot : ∀ i, (quiet s t n : Board S L E α ρ).slot i = none := by
    intro i
    unfold slot quiet
    rw [List.getElem?_replicate]
    split <;> rfl
  unfold world Service.quiet
  simp only [hslot, Option.map_none]
  rfl

/-- What a schedule reaches, the service can reach. -/
theorem reachable_of_play [DecidableEq L] {V : Service S L E α ρ} (hV : ∀ q, V.Allowed q) {s : S}
    {t : ℤ} {n : ℕ} {ms : List (Move ρ)} {B : Board S L E α ρ}
    (h : (quiet s t n : Board S L E α ρ).play V ms = some B) : V.Reachable s B.world := by
  have hsteps := steps_of_play (fun _ q _ => hV q) h
  rw [world_quiet] at hsteps
  exact ⟨t, hsteps⟩

end Board

end TaskTipsCloud
