import Mathlib

/-!
# Counters with fixed windows

A limiter counts the requests of each key in windows: the first request opens a window, and a
request after its end opens the next one. Counters may be forgotten. Forgetting the counter of a key
changes no answer exactly when the window is over before the next request of the key.
-/

namespace TaskTipsCloud

namespace Windows

/-- A window of a key, and how many requests it has had. -/
structure Window where
  started : ℤ
  count : ℤ
  deriving DecidableEq, Repr

/-- The current window of each key that has one. -/
abbrev Counters (κ : Type) := κ → Option Window

/-- The window after a request, for windows with a length. -/
def hit (now length : ℤ) : Option Window → Window
  | some w => if w.started + length ≤ now then ⟨now, 1⟩ else ⟨w.started, w.count + 1⟩
  | none => ⟨now, 1⟩

/-- What happens to the counters: a request of a key, with a limit and a length of its windows, or
the loss of some counters. -/
inductive Op (κ : Type) where
  | hit (k : κ) (limit length : ℤ)
  | forget (gone : κ → Bool)

/-- Whether an operation is a request. -/
def Op.isHit {κ : Type} : Op κ → Bool
  | .hit _ _ _ => true
  | .forget _ => false

/-- The answer to a request that has made a window: whether it is within the limit, unless the count
is more than a counter can hold. -/
def reply (cap limit : ℤ) (w : Window) : Option Bool :=
  if w.count ≤ cap then some (decide (w.count ≤ limit)) else none

variable {κ : Type} [DecidableEq κ] {cap : ℤ} {s s' : Counters κ} {k : κ}
  {run rest : List (ℤ × Op κ)}

/-- The counters after an operation. A request whose count a counter cannot hold changes nothing. -/
def Op.apply (cap now : ℤ) (s : Counters κ) : Op κ → Counters κ
  | .hit k _ length =>
    let w := Windows.hit now length (s k)
    if w.count ≤ cap then Function.update s k (some w) else s
  | .forget gone => fun k => if gone k then none else s k

/-- The counters after a run. -/
def final (cap : ℤ) (s : Counters κ) (run : List (ℤ × Op κ)) : Counters κ :=
  run.foldl (fun s x => x.2.apply cap x.1 s) s

/-- The requests of a run, with their times and answers. -/
def log (cap : ℤ) : Counters κ → List (ℤ × Op κ) → List (ℤ × κ × Option Bool)
  | _, [] => []
  | s, (now, .hit k limit length) :: run =>
    (now, k, reply cap limit (hit now length (s k))) ::
      log cap ((Op.hit k limit length).apply cap now s) run
  | s, (now, .forget gone) :: run => log cap ((Op.forget gone).apply cap now s) run

/-- The run without the losses. -/
def hits (run : List (ℤ × Op κ)) : List (ℤ × Op κ) := run.filter (·.2.isHit)

/-- A window of a key is over when the key has its next request. -/
def IsSpent (k : κ) (w : Window) : List (ℤ × Op κ) → Prop
  | [] => True
  | (now, .hit k' _ length) :: run =>
    if k' = k then w.started + length ≤ now else IsSpent k w run
  | (_, .forget _) :: run => IsSpent k w run

/-- The losses of a run forget only windows that are over when they are needed. -/
def ForgetsSpent (cap : ℤ) : Counters κ → List (ℤ × Op κ) → Prop
  | _, [] => True
  | s, (now, .hit k limit length) :: run =>
    ForgetsSpent cap ((Op.hit k limit length).apply cap now s) run
  | s, (now, .forget gone) :: run =>
    (∀ k w, gone k = true → s k = some w → IsSpent k w run) ∧
      ForgetsSpent cap ((Op.forget gone).apply cap now s) run

/-! ## Runs -/

/-- The log of a run in two parts. -/
theorem log_append (s : Counters κ) (run rest : List (ℤ × Op κ)) :
    log cap s (run ++ rest) = log cap s run ++ log cap (final cap s run) rest := by
  induction run generalizing s with
  | nil => rfl
  | cons x run ih =>
    obtain ⟨now, op⟩ := x
    cases op with
    | hit k limit length => exact congrArg _ (ih _)
    | forget gone => exact ih _

/-- The counters after a run in two parts. -/
theorem final_append (s : Counters κ) (run rest : List (ℤ × Op κ)) :
    final cap s (run ++ rest) = final cap (final cap s run) rest :=
  List.foldl_append ..

/-- A window that is over is as good as none. -/
theorem hit_of_over {w : Window} {now length : ℤ} (h : w.started + length ≤ now) :
    hit now length (some w) = hit now length none := by
  rw [hit, if_pos h, hit]

/-! ## Forgetting -/

/-- Counters of which some windows are lost that are over when they are needed. -/
def Agrees (s s' : Counters κ) (run : List (ℤ × Op κ)) : Prop :=
  ∀ k, s' k = s k ∨ s' k = none ∧ ∀ w, s k = some w → IsSpent k w run

/-- A state agrees with itself. -/
theorem Agrees.refl (s : Counters κ) (run : List (ℤ × Op κ)) : Agrees s s run :=
  fun _ => .inl rfl

/-- The next request makes the same window of both. -/
theorem Agrees.hit_eq {now limit length : ℤ} (h : Agrees s s' ((now, .hit k limit length) :: run)) :
    hit now length (s' k) = hit now length (s k) := by
  rcases h k with heq | ⟨hnone, hspent⟩
  · rw [heq]
  · rw [hnone]
    cases hk : s k with
    | none => rfl
    | some w =>
      have hover := hspent w hk
      rw [IsSpent, if_pos rfl] at hover
      exact (hit_of_over hover).symm

/-- A request keeps the agreement. -/
theorem Agrees.hit {now limit length : ℤ} (hcap : 1 ≤ cap)
    (h : Agrees s s' ((now, .hit k limit length) :: run)) :
    Agrees ((Op.hit k limit length).apply cap now s) ((Op.hit k limit length).apply cap now s')
      run := by
  have hsame := h.hit_eq
  intro k'
  by_cases hk : k' = k
  · subst hk
    simp only [Op.apply, hsame]
    split
    · exact .inl (by rw [Function.update_self, Function.update_self])
    · rename_i hover
      rcases h k' with heq | ⟨hnone, -⟩
      · exact .inl heq
      · -- Without a window the request is the first of its window, which a counter can hold.
        rw [← hsame, hnone] at hover
        exact absurd hcap hover
  · have hother : ∀ s : Counters κ, (Op.hit k limit length).apply cap now s k' = s k' :=
      fun s => by
        simp only [Op.apply]
        split
        · rw [Function.update_of_ne hk]
        · rfl
    rw [hother, hother]
    rcases h k' with heq | ⟨hnone, hspent⟩
    · exact .inl heq
    · refine .inr ⟨hnone, fun w hw => ?_⟩
      have hnext := hspent w hw
      rwa [IsSpent, if_neg (Ne.symm hk)] at hnext

/-- A loss of windows that are over when they are needed keeps the agreement. -/
theorem Agrees.forget {now : ℤ} {gone : κ → Bool} (h : Agrees s s' ((now, .forget gone) :: run))
    (hspent : ∀ k w, gone k = true → s' k = some w → IsSpent k w run) :
    Agrees s ((Op.forget gone).apply cap now s') run := by
  intro k
  simp only [Op.apply]
  split
  · rename_i hgone
    refine .inr ⟨rfl, fun w hw => ?_⟩
    rcases h k with heq | ⟨-, hold⟩
    · exact hspent k w hgone (heq.trans hw)
    · exact hold w hw
  · exact h k

/-- Forgetting windows that are over when they are needed changes no answer. -/
theorem Agrees.log_eq (hcap : 1 ≤ cap) (h : Agrees s s' run) (hspent : ForgetsSpent cap s' run) :
    log cap s' run = log cap s (hits run) := by
  induction run generalizing s s' with
  | nil => rfl
  | cons x run ih =>
    obtain ⟨now, op⟩ := x
    cases op with
    | hit k limit length =>
      have hhead : hits ((now, Op.hit k limit length) :: run) =
          (now, .hit k limit length) :: hits run := List.filter_cons_of_pos rfl
      rw [hhead, log, log, h.hit_eq, ih (h.hit hcap) hspent]
    | forget gone =>
      have hhead : hits ((now, Op.forget gone) :: run) = hits run :=
        List.filter_cons_of_neg (by simp [Op.isHit])
      rw [hhead, log, ih (h.forget hspent.1) hspent.2]

/-! ## Limits -/

/-- The requests of a key since a time that were within the limit. -/
def allowedSince (k : κ) (start : ℤ) (entries : List (ℤ × κ × Option Bool)) :
    List (ℤ × κ × Option Bool) :=
  entries.filter fun (t, k', answer) => decide (start ≤ t) && k' == k && answer == some true

/-- What was allowed since a time, in two parts of a log. -/
theorem allowedSince_append {start : ℤ} {entries entries' : List (ℤ × κ × Option Bool)} :
    allowedSince k start (entries ++ entries') =
      allowedSince k start entries ++ allowedSince k start entries' :=
  List.filter_append ..

/-- A request adds at most one, and only within the limit. -/
theorem length_allowedSince_reply {start now limit : ℤ} {k' : κ} {w : Window} :
    ((allowedSince k start [(now, k', reply cap limit w)]).length : ℤ) ≤ 1 ∧
      ((allowedSince k start [(now, k', reply cap limit w)]).length ≠ 0 →
        k' = k ∧ w.count ≤ limit ∧ w.count ≤ cap) := by
  have hone : (allowedSince k start [(now, k', reply cap limit w)]).length ≤ 1 :=
    List.length_filter_le _ _
  refine ⟨by omega, fun hne => ?_⟩
  obtain ⟨e, he⟩ := List.exists_mem_of_length_pos (Nat.pos_of_ne_zero hne)
  obtain ⟨hmem, hcounts⟩ := List.mem_filter.mp he
  rw [List.mem_singleton.mp hmem] at hcounts
  simp only [Bool.and_eq_true, decide_eq_true_eq, beq_iff_eq] at hcounts
  obtain ⟨⟨-, hkey⟩, hanswer⟩ := hcounts
  unfold reply at hanswer
  split at hanswer
  · exact ⟨hkey, by simpa using hanswer, by assumption⟩
  · cases hanswer

/-- What the current window of a key tells of the requests of the key. -/
structure Counted (k : κ) (limit length : ℤ) (w : Window) (entries : List (ℤ × κ × Option Bool)) :
    Prop where
  /-- They all came before the end of the window. -/
  before : ∀ e ∈ entries, e.2.1 = k → e.1 < w.started + length
  le_count : ((allowedSince k w.started entries).length : ℤ) ≤ w.count
  le_limit : ((allowedSince k w.started entries).length : ℤ) ≤ limit

/-- A request of another key changes nothing of a window. -/
theorem Counted.of_ne {limit length now l : ℤ} {w w' : Window} {k' : κ}
    {entries : List (ℤ × κ × Option Bool)} (h : Counted k limit length w entries) (hk : k' ≠ k) :
    Counted k limit length w (entries ++ [(now, k', reply cap l w')]) := by
  have hnone : allowedSince k w.started [(now, k', reply cap l w')] = [] := by
    by_contra hne
    have hlength : (allowedSince k w.started [(now, k', reply cap l w')]).length ≠ 0 := fun h0 =>
      hne (List.eq_nil_of_length_eq_zero h0)
    exact hk (length_allowedSince_reply.2 hlength).1
  refine ⟨fun e he hkey => ?_, ?_, ?_⟩
  · rcases List.mem_append.mp he with he | he
    · exact h.before e he hkey
    · rw [List.mem_singleton.mp he] at hkey
      exact absurd hkey hk
  · rw [allowedSince_append, hnone, List.append_nil]
    exact h.le_count
  · rw [allowedSince_append, hnone, List.append_nil]
    exact h.le_limit

/-- The first request of a window, all others being older. -/
theorem Counted.first {limit length now : ℤ} (hlimit : 1 ≤ limit) (hlength : 1 ≤ length)
    {entries : List (ℤ × κ × Option Bool)} (hold : ∀ e ∈ entries, e.2.1 = k → e.1 < now) :
    Counted k limit length ⟨now, 1⟩ (entries ++ [(now, k, reply cap limit ⟨now, 1⟩)]) := by
  have hnone : allowedSince k now entries = [] := by
    refine List.filter_eq_nil_iff.mpr fun e he hcounts => ?_
    simp only [Bool.and_eq_true, decide_eq_true_eq, beq_iff_eq] at hcounts
    exact absurd (hold e he hcounts.1.2) (not_lt.mpr hcounts.1.1)
  have hone := (@length_allowedSince_reply κ _ cap k now now limit k ⟨now, 1⟩).1
  refine ⟨fun e he hkey => ?_, ?_, ?_⟩
  · rcases List.mem_append.mp he with he | he
    · have hlt := hold e he hkey
      show e.1 < now + length
      omega
    · rw [List.mem_singleton.mp he]
      show now < now + length
      omega
  · rw [allowedSince_append, hnone, List.nil_append]
    exact hone
  · rw [allowedSince_append, hnone, List.nil_append]
    exact le_trans hone hlimit

/-- One more request in a window. -/
theorem Counted.next {limit length now : ℤ} {w : Window} {entries : List (ℤ × κ × Option Bool)}
    (h : Counted k limit length w entries) (hnow : now < w.started + length) :
    Counted k limit length (if w.count + 1 ≤ cap then ⟨w.started, w.count + 1⟩ else w)
      (entries ++ [(now, k, reply cap limit ⟨w.started, w.count + 1⟩)]) := by
  obtain ⟨hbefore, hcount, hlimit⟩ := h
  obtain ⟨hone, hcounts⟩ := @length_allowedSince_reply κ _ cap k w.started now limit k
    ⟨w.started, w.count + 1⟩
  -- The window keeps its start, whether or not its column has room for the request.
  have hstarted : (if w.count + 1 ≤ cap then (⟨w.started, w.count + 1⟩ : Window) else w).started =
      w.started := by
    split <;> rfl
  have hsum : ((allowedSince k w.started
      (entries ++ [(now, k, reply cap limit ⟨w.started, w.count + 1⟩)])).length : ℤ) =
        (allowedSince k w.started entries).length + (allowedSince k w.started
          [(now, k, reply cap limit ⟨w.started, w.count + 1⟩)]).length := by
    rw [allowedSince_append, List.length_append]
    push_cast
    rfl
  refine ⟨fun e he hkey => ?_, ?_, ?_⟩
  · rw [hstarted]
    rcases List.mem_append.mp he with he | he
    · exact hbefore e he hkey
    · rw [List.mem_singleton.mp he]
      exact hnow
  · rw [hstarted, hsum]
    split
    · show _ ≤ w.count + 1
      omega
    · rename_i hcap
      by_cases h0 : (allowedSince k w.started
          [(now, k, reply cap limit ⟨w.started, w.count + 1⟩)]).length = 0
      · omega
      · exact absurd (hcounts h0).2.2 hcap
  · rw [hstarted, hsum]
    by_cases h0 : (allowedSince k w.started
        [(now, k, reply cap limit ⟨w.started, w.count + 1⟩)]).length = 0
    · omega
    · have hwithin : w.count + 1 ≤ limit := (hcounts h0).2.1
      omega

/-- Without losses, the current window of a key whose limit and length are fixed has had at most as
many allowed requests as the limit. -/
theorem counted_of_hits (hcap : 1 ≤ cap) {limit length : ℤ} (hlimit : 1 ≤ limit)
    (hlength : 1 ≤ length) {run : List (ℤ × Op κ)} (hrun : ∀ x ∈ run, x.2.isHit = true)
    (hfixed : ∀ now l p, (now, Op.hit k l p) ∈ run → l = limit ∧ p = length) :
    ((final cap (fun _ => none) run k = none →
        ∀ e ∈ log cap (fun _ => none) run, e.2.1 ≠ k) ∧
      ∀ w, final cap (fun _ => none) run k = some w →
        Counted k limit length w (log cap (fun _ => none) run)) := by
  -- By induction from the end of the run: the last request meets the window that is left.
  induction run using List.reverseRecOn with
  | nil => simp [final, log]
  | append_singleton run x ih =>
    obtain ⟨hnone, hsome⟩ := ih (fun x hx => hrun x (List.mem_append_left _ hx))
      (fun now l p hx => hfixed now l p (List.mem_append_left _ hx))
    obtain ⟨now, op⟩ := x
    rw [log_append, final_append]
    generalize final cap (fun _ => none) run = s at hnone hsome ⊢
    generalize log cap (fun _ => none) run = entries at hnone hsome ⊢
    cases op with
    | forget gone => exact absurd (hrun (now, .forget gone) (by simp)) (by simp [Op.isHit])
    | hit k' l p =>
      have hlog : log cap s [(now, Op.hit k' l p)] =
          [(now, k', reply cap l (hit now p (s k')))] := rfl
      have hfinal : final cap s [(now, Op.hit k' l p)] =
          (Op.hit k' l p).apply cap now s := rfl
      rw [hlog, hfinal]
      by_cases hk : k' = k
      · subst hk
        obtain ⟨rfl, rfl⟩ := hfixed now l p (by simp)
        -- The window of the key after the request, which leaves one in every case.
        have hfirst : (∀ e ∈ entries, e.2.1 = k' → e.1 < now) → hit now p (s k') = ⟨now, 1⟩ →
            Op.apply cap now s (.hit k' l p) k' = some ⟨now, 1⟩ ∧ Counted k' l p ⟨now, 1⟩
              (entries ++ [(now, k', reply cap l (hit now p (s k')))]) := fun hold hhit => by
          rw [hhit]
          refine ⟨?_, .first hlimit hlength hold⟩
          simp only [Op.apply, hhit]
          rw [if_pos hcap, Function.update_self]
        rcases hk : s k' with _ | w
        · obtain ⟨hwindow, hcounted⟩ := hfirst (fun e he hkey => absurd hkey (hnone hk e he))
            (by rw [hk, hit])
          rw [hk] at hcounted
          rw [hwindow]
          exact ⟨fun h => (by cases h), fun w hw => Option.some.inj hw ▸ hcounted⟩
        · have hw := hsome w hk
          -- A window that is over starts anew; another one counts the request, or is full for its
          -- column.
          by_cases hover : w.started + p ≤ now
          · obtain ⟨hwindow, hcounted⟩ := hfirst
              (fun e he hkey => lt_of_lt_of_le (hw.before e he hkey) hover)
              (by rw [hk, hit, if_pos hover])
            rw [hk] at hcounted
            rw [hwindow]
            exact ⟨fun h => (by cases h), fun w hw => Option.some.inj hw ▸ hcounted⟩
          · have hhit : hit now p (s k') = ⟨w.started, w.count + 1⟩ := by
              rw [hk, hit, if_neg hover]
            have hwindow : Op.apply cap now s (.hit k' l p) k' =
                some (if w.count + 1 ≤ cap then ⟨w.started, w.count + 1⟩ else w) := by
              simp only [Op.apply, hhit]
              split
              · rw [Function.update_self]
              · exact hk
            rw [hk] at hhit
            rw [hwindow, hhit]
            exact ⟨fun h => (by cases h), fun w' hw' =>
              Option.some.inj hw' ▸ hw.next (not_le.mp hover)⟩
      · -- A request of another key leaves the window.
        have hother : (Op.hit k' l p).apply cap now s k = s k := by
          simp only [Op.apply]
          split
          · rw [Function.update_of_ne (Ne.symm hk)]
          · rfl
        rw [hother]
        refine ⟨fun h e he => ?_, fun w hw => (hsome w hw).of_ne hk⟩
        rcases List.mem_append.mp he with he | he
        · exact hnone h e he
        · rw [List.mem_singleton.mp he]
          exact hk

/-! ## What a loss shows -/

/-- Requests within a window are counted, as far as a counter goes. -/
theorem final_replicate {now limit length : ℤ} {w : Window} (hw : s k = some w)
    (hcount : w.count ≤ cap) (hopen : now < w.started + length) (n : ℕ) :
    final cap s (List.replicate n (now, .hit k limit length)) k =
      some ⟨w.started, min cap (w.count + n)⟩ := by
  induction n with
  | zero =>
    have hmin : min cap (w.count + (0 : ℕ)) = w.count := by omega
    rw [hmin]
    exact hw
  | succ n ih =>
    rw [List.replicate_succ', final_append]
    generalize final cap s (List.replicate n (now, Op.hit k limit length)) = s' at ih ⊢
    have hhit : hit now length (s' k) = ⟨w.started, min cap (w.count + n) + 1⟩ := by
      rw [ih, hit, if_neg (not_le.mpr hopen)]
    show Op.apply cap now s' (.hit k limit length) k = _
    simp only [Op.apply, hhit]
    split
    · rename_i hle
      rw [Function.update_self]
      have hmin : min cap (w.count + n) + 1 = min cap (w.count + (n + 1 : ℕ)) := by omega
      rw [hmin]
    · rename_i hgt
      have hmin : min cap (w.count + n) = min cap (w.count + (n + 1 : ℕ)) := by omega
      rw [ih, hmin]

/-- The answer to the last of some equal requests. -/
theorem log_replicate_succ {now limit length : ℤ} (s : Counters κ) (n : ℕ) :
    log cap s (List.replicate (n + 1) (now, .hit k limit length)) =
      log cap s (List.replicate n (now, .hit k limit length)) ++
        [(now, k, reply cap limit (hit now length
          (final cap s (List.replicate n (now, .hit k limit length)) k)))] := by
  rw [List.replicate_succ', log_append]
  rfl

/-- When a window is forgotten before its end, a key can have more requests allowed than without the
loss. -/
theorem log_ne_of_forgotten {now limit length : ℤ} {gone : κ → Bool} {w : Window}
    (hlimit : 1 ≤ limit) (hcap : limit ≤ cap) (hlength : 1 ≤ length) (hgone : gone k = true)
    (hw : s k = some w) (hpos : 1 ≤ w.count) (hcount : w.count ≤ cap)
    (hopen : now < w.started + length) :
    (log cap ((Op.forget gone).apply cap now s)
        (List.replicate limit.toNat (now, .hit k limit length))).map (·.2.2) ≠
      (log cap s (List.replicate limit.toNat (now, .hit k limit length))).map (·.2.2) := by
  obtain ⟨n, hn⟩ : ∃ n : ℕ, limit.toNat = n + 1 := ⟨limit.toNat - 1, by omega⟩
  have hfull : limit = n + 1 := by omega
  rw [hn, log_replicate_succ, log_replicate_succ, List.map_append, List.map_append]
  intro heq
  have hlast := (List.append_inj' heq rfl).2
  simp only [List.map_cons, List.map_nil, List.cons.injEq, and_true] at hlast
  -- With the window, the last request is above the limit.
  have hdenied : reply cap limit (hit now length
      (final cap s (List.replicate n (now, .hit k limit length)) k)) ≠ some true := by
    rw [final_replicate hw hcount hopen, hit, if_neg (not_le.mpr hopen), reply]
    split
    · rename_i hle
      have habove : ¬min cap (w.count + n) + 1 ≤ limit := by
        dsimp only at hle
        omega
      simpa using habove
    · simp
  -- Without it, the last request just reaches the limit.
  have hallowed : reply cap limit (hit now length (final cap ((Op.forget gone).apply cap now s)
      (List.replicate n (now, .hit k limit length)) k)) = some true := by
    have hnone : (Op.forget gone).apply cap now s k = none := by simp [Op.apply, hgone]
    generalize (Op.forget gone).apply cap now s = s' at hnone
    cases n with
    | zero =>
      have hhit : hit now length (final cap s' (List.replicate 0 (now, .hit k limit length)) k) =
          ⟨now, 1⟩ := by
        show hit now length (s' k) = _
        rw [hnone, hit]
      rw [hhit, reply, if_pos (le_trans hlimit hcap)]
      simpa using hlimit
    | succ n =>
      have hfirst : (Op.hit k limit length).apply cap now s' k = some ⟨now, 1⟩ := by
        simp only [Op.apply, hnone, hit]
        rw [if_pos (le_trans hlimit hcap), Function.update_self]
      have hfinal : final cap s' (List.replicate (n + 1) (now, .hit k limit length)) k =
          some ⟨now, min cap (1 + n)⟩ := by
        rw [List.replicate_succ]
        exact final_replicate hfirst (le_trans hlimit hcap) (by dsimp only; omega) n
      rw [hfinal, hit, if_neg (by dsimp only; omega), reply, if_pos (by dsimp only; omega)]
      simp only [Option.some.injEq, decide_eq_true_eq]
      push_cast at hfull
      omega
  exact hdenied (hlast ▸ hallowed)

/-! ## Windows in an interval -/

/-- Requests with the windows that they were counted in: every request came before the end of its
window, and every window starts after the end of those before it. -/
structure Apart {α : Type} (time window : α → ℕ) (length : ℕ) (requests : List α) : Prop where
  before_end : ∀ x ∈ requests, time x < window x + length
  apart : requests.Pairwise fun x y =>
    window y = window x ∨ window x + length ≤ window y ∧ window x + length ≤ time y

/-- Some of the requests that are apart are apart. -/
theorem Apart.sublist {α : Type} {time window : α → ℕ} {length : ℕ} {requests sub : List α}
    (h : Apart time window length requests) (hsub : sub.Sublist requests) :
    Apart time window length sub where
  before_end x hx := h.before_end x (hsub.subset hx)
  apart := h.apart.sublist hsub

/-- An interval that is not longer than a window has requests of at most two windows. -/
theorem Apart.length_le {α : Type} {time window : α → ℕ} {length limit start : ℕ}
    {requests : List α} (h : Apart time window length requests)
    (hlimit : ∀ w, (requests.filter (window · == w)).length ≤ limit)
    (hinterval : ∀ x ∈ requests, start ≤ time x ∧ time x ≤ start + length) :
    requests.length ≤ 2 * limit := by
  cases hrequests : requests with
  | nil => simp
  | cons x rest =>
    rw [← hrequests]
    have hx : x ∈ requests := by rw [hrequests]; exact List.mem_cons_self
    -- Two windows that have all requests have at most `limit` of them each.
    have hsplit (w w' : ℕ) (hw : ∀ y ∈ requests, window y = w ∨ window y = w') :
        requests.length ≤ 2 * limit := by
      have hcount : requests.length ≤ (requests.filter (window · == w)).length +
          (requests.filter (window · == w')).length := by
        have hrest := List.length_eq_length_filter_add (l := requests) (window · == w)
        have hsub : (requests.filter (fun y => !(window y == w))).length ≤
            (requests.filter (window · == w')).length := by
          rw [← List.countP_eq_length_filter, ← List.countP_eq_length_filter]
          refine List.countP_mono_left fun y hy hne => ?_
          rcases hw y hy with h | h <;> simp_all
        omega
      have h₁ := hlimit w
      have h₂ := hlimit w'
      omega
    by_cases hone : ∀ y ∈ requests, window y = window x
    · exact hsplit (window x) (window x) fun y hy => .inl (hone y hy)
    · -- The first request of another window splits the requests.
      obtain ⟨y, hfind⟩ : ∃ y, rest.find? (window · != window x) = some y := by
        rw [← Option.isSome_iff_exists, List.find?_isSome]
        obtain ⟨z, hz, hne⟩ := not_forall₂.mp hone
        rw [hrequests] at hz
        rcases List.mem_cons.mp hz with rfl | hz
        · exact absurd rfl hne
        · exact ⟨z, hz, by simpa using hne⟩
      obtain ⟨hy, l₁, l₂, rfl, hfirst⟩ := List.find?_eq_some_iff_append.mp hfind
      have hapart := h.apart
      rw [hrequests, List.pairwise_cons, List.pairwise_append, List.pairwise_cons] at hapart
      obtain ⟨hafter, -, ⟨hlater, -⟩, -⟩ := hapart
      refine hsplit (window x) (window y) fun z hz => ?_
      rw [hrequests, List.mem_cons, List.mem_append, List.mem_cons] at hz
      rcases hz with rfl | hz | rfl | hz
      · exact .inl rfl
      · exact .inl (by simpa using hfirst z hz)
      · exact .inr rfl
      · -- A third window would start a whole window after the first request.
        have hy' : window x + length ≤ window y :=
          ((hafter y (by simp)).resolve_left (by simpa using hy)).1
        have hxend := h.before_end x hx
        have hxstart := (hinterval x hx).1
        have hzend := (hinterval z (by rw [hrequests]; simp [hz])).2
        rcases hlater z hz with heq | ⟨-, hz'⟩
        · exact .inr heq
        · omega

end Windows

end TaskTipsCloud
