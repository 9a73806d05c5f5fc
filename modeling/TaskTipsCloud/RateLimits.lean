import TaskTipsCloud.Domain
import TaskTipsCloud.Library.Selections
import TaskTipsCloud.Library.Table
import TaskTipsCloud.Library.Windows

/-!
# Rate limits

`consume_distributed_rate_limit` and `prune_distributed_rate_limits` of
`crates/persistence/src/lib.rs`, with the limits of `crates/api/src/routes.rs`. The table keeps one
bucket for each key, with the start of its window. The worker prunes the buckets whose window
started more than ten minutes ago, whatever the length of the window is. The statement of a prune
selects the keys on its snapshot and then deletes the rows that these keys have, so that a call
that commits in between may have given such a row a new window.
-/

namespace TaskTipsCloud

open Windows

/-- A row of `distributed_rate_limit_buckets`. -/
structure RateLimitBucket where
  bucketHash : List UInt8
  windowStarted : Timestamp
  requestCount : ℤ
  deriving DecidableEq, Repr

/-- The largest value of an `INTEGER` column. -/
def maxInteger : ℤ := 2 ^ 31 - 1

/-- The table of the buckets, with its primary key and its check. -/
structure RateLimitBuckets where
  rows : List RateLimitBucket
  primaryKey : (rows.map (·.bucketHash)).Nodup
  counts : ∀ b ∈ rows, 0 < b.requestCount ∧ b.requestCount ≤ maxInteger

/-- The table without rows. -/
def RateLimitBuckets.empty : RateLimitBuckets := ⟨[], .nil, nofun⟩

/-- The digest under which a key is kept. -/
def bucketHash (sha256 : String → List UInt8) (bucketKey : String) : List UInt8 :=
  sha256 ("tasktips-rate-limit:" ++ bucketKey)

/-- A limit as it is bound to the statement. -/
def boundLimit (limit : UInt32) : ℤ := min (max limit.toNat 1) maxInteger

/-- The whole seconds of a period as they are bound to the statement. -/
def boundPeriod (period : ℤ) : ℤ := max period 1

/-- A bucket after one more request: a new window when the old one is over. -/
def RateLimitBucket.next (now : Timestamp) (period : ℤ) (b : RateLimitBucket) : RateLimitBucket :=
  { b with
    windowStarted := if b.windowStarted + seconds period ≤ now then now else b.windowStarted
    requestCount := if b.windowStarted + seconds period ≤ now then 1 else b.requestCount + 1 }

/-- The table with a bucket in the place of the one with its key. -/
def RateLimitBuckets.store (t : RateLimitBuckets) (b : RateLimitBucket)
    (hcount : 0 < b.requestCount ∧ b.requestCount ≤ maxInteger) : RateLimitBuckets where
  rows := upsert (·.bucketHash == b.bucketHash) b (fun x =>
    { x with windowStarted := b.windowStarted, requestCount := b.requestCount }) t.rows
  primaryKey := nodup_map_upsert t.primaryKey (fun _ _ => rfl) fun _ => rfl
  counts x hx := by
    unfold upsert updateWhere at hx
    split at hx
    · obtain ⟨y, hy, rfl⟩ := List.mem_map.mp hx
      split
      · exact hcount
      · exact t.counts y hy
    · rcases List.mem_append.mp hx with hx | hx
      · exact t.counts x hx
      · exact List.mem_singleton.mp hx ▸ hcount

/-- The table without some rows. -/
def RateLimitBuckets.filter (t : RateLimitBuckets) (kept : RateLimitBucket → Bool) :
    RateLimitBuckets where
  rows := t.rows.filter kept
  primaryKey := t.primaryKey.sublist (List.filter_sublist.map _)
  counts x hx := t.counts x (List.mem_filter.mp hx).1

/-- Counts a request of a key, and tells whether it is within the limit. It fails when the count
does not fit its column. -/
def consumeDistributedRateLimit (sha256 : String → List UInt8) (now : Timestamp)
    (bucketKey : String) (limit : UInt32) (period : ℤ) (t : RateLimitBuckets) :
    Option Bool × RateLimitBuckets :=
  let hash := bucketHash sha256 bucketKey
  let b := (t.rows.find? (·.bucketHash == hash)).elim ⟨hash, now, 1⟩
    (·.next now (boundPeriod period))
  if hcount : 0 < b.requestCount ∧ b.requestCount ≤ maxInteger then
    (some (decide (b.requestCount ≤ boundLimit limit)), t.store b hcount)
  else (none, t)

/-- The keys that a prune selects on its snapshot: those of the oldest of the buckets whose window
started more than ten minutes ago. -/
def expiredBuckets (scan : Arrangement RateLimitBucket) (now : Timestamp) (limit : ℤ)
    (t : RateLimitBuckets) : List (List UInt8) :=
  (scan.oldest (·.windowStarted) (max limit 1).toNat
    (t.rows.filter fun b => decide (b.windowStarted < now - seconds (10 * 60)))).map (·.bucketHash)

/-- Deletes the rows of the selected keys as they are now, and counts them. The rows are checked
again for their keys only, so the windows may have started anew since the snapshot. -/
def deleteExpiredBuckets (expired : List (List UInt8)) (t : RateLimitBuckets) :
    ℕ × RateLimitBuckets :=
  ((t.rows.filter (·.bucketHash ∈ expired)).length, t.filter (·.bucketHash ∉ expired))

/-- The buckets, with the keys that each running prune has selected. -/
structure RateLimitState where
  buckets : RateLimitBuckets
  selected : ℕ → List (List UInt8)

/-- The state without buckets and without a running prune. -/
def RateLimitState.empty : RateLimitState := ⟨.empty, fun _ => []⟩

/-- A call of the limiter, or one of the two steps of a prune: the snapshot that selects keys, and
the deletion that commits. -/
inductive RateLimitOp where
  | consume (bucketKey : String) (limit : UInt32) (period : ℤ)
  | selectExpired (worker : ℕ) (scan : Arrangement RateLimitBucket) (limit : ℤ)
  | deleteExpired (worker : ℕ)

/-- The steps of a prune. Steps of others may come between them. -/
def pruneDistributedRateLimits (worker : ℕ) (scan : Arrangement RateLimitBucket) (limit : ℤ) :
    List RateLimitOp :=
  [.selectExpired worker scan limit, .deleteExpired worker]

/-- The limit of one minute that every route has. -/
def enforceSharedRateLimit (bucketKey : String) : RateLimitOp := .consume bucketKey 120 60

/-- The limit of one hour that a registration has for its client. -/
def registerHourly (client : String) : RateLimitOp :=
  .consume ("register-hourly:" ++ client) 10 (60 * 60)

namespace RateLimits

variable (sha256 : String → List UInt8)

/-- The state after a step. A deleted row is gone for the other prunes too: a row that comes later
under its key is in none of their snapshots. -/
def apply (now : Timestamp) (s : RateLimitState) : RateLimitOp → RateLimitState
  | .consume bucketKey limit period =>
    { s with
      buckets := (consumeDistributedRateLimit sha256 now bucketKey limit period s.buckets).2 }
  | .selectExpired worker scan limit =>
    let expired := expiredBuckets scan now limit s.buckets
    { s with selected := Function.update s.selected worker expired }
  | .deleteExpired worker =>
    { buckets := (deleteExpiredBuckets (s.selected worker) s.buckets).2
      selected := fun other => (s.selected other).filter (· ∉ s.selected worker) }

/-- The state after a run. -/
def final (s : RateLimitState) (run : List (Timestamp × RateLimitOp)) : RateLimitState :=
  run.foldl (fun s x => apply sha256 x.1 s x.2) s

/-- The calls of a run, with their times and answers. -/
def log : RateLimitState → List (Timestamp × RateLimitOp) →
    List (Timestamp × String × Option Bool)
  | _, [] => []
  | s, (now, .consume bucketKey limit period) :: run =>
    (now, bucketKey, (consumeDistributedRateLimit sha256 now bucketKey limit period s.buckets).1) ::
      log (apply sha256 now s (.consume bucketKey limit period)) run
  | s, (now, .selectExpired worker scan limit) :: run =>
    log (apply sha256 now s (.selectExpired worker scan limit)) run
  | s, (now, .deleteExpired worker) :: run => log (apply sha256 now s (.deleteExpired worker)) run

/-- The answers of a run. -/
def answers (s : RateLimitState) (run : List (Timestamp × RateLimitOp)) : List (Option Bool) :=
  (log sha256 s run).map (·.2.2)

/-- The run with the prunes left out. -/
def withoutPrunes (run : List (Timestamp × RateLimitOp)) : List (Timestamp × RateLimitOp) :=
  run.filter fun x => match x.2 with
    | .consume _ _ _ => true
    | .selectExpired _ _ _ => false
    | .deleteExpired _ => false

/-- The window of a bucket is over when its key is used next. -/
def IsOver (b : RateLimitBucket) : List (Timestamp × RateLimitOp) → Prop
  | [] => True
  | (now, .consume bucketKey _ period) :: run =>
    if bucketHash sha256 bucketKey = b.bucketHash then
      b.windowStarted + seconds (boundPeriod period) ≤ now
    else IsOver b run
  | (_, .selectExpired _ _ _) :: run => IsOver b run
  | (_, .deleteExpired _) :: run => IsOver b run

/-- It is decided request by request. -/
instance decidableIsOver (b : RateLimitBucket) :
    (run : List (Timestamp × RateLimitOp)) → Decidable (IsOver sha256 b run)
  | [] => .isTrue trivial
  | (now, .consume bucketKey _ period) :: run =>
    have := decidableIsOver b run
    inferInstanceAs (Decidable (if bucketHash sha256 bucketKey = b.bucketHash then
      b.windowStarted + seconds (boundPeriod period) ≤ now else IsOver sha256 b run))
  | (_, .selectExpired _ _ _) :: run => decidableIsOver b run
  | (_, .deleteExpired _) :: run => decidableIsOver b run

/-- Every row that a prune of a run deletes has, as it is then, a window that is over when its key
is used next. -/
def PrunesOver : RateLimitState → List (Timestamp × RateLimitOp) → Prop
  | _, [] => True
  | s, (now, .consume bucketKey limit period) :: run =>
    PrunesOver (apply sha256 now s (.consume bucketKey limit period)) run
  | s, (now, .selectExpired worker scan limit) :: run =>
    PrunesOver (apply sha256 now s (.selectExpired worker scan limit)) run
  | s, (now, .deleteExpired worker) :: run =>
    (∀ b ∈ s.buckets.rows, b.bucketHash ∈ s.selected worker → IsOver sha256 b run) ∧
      PrunesOver (apply sha256 now s (.deleteExpired worker)) run

/-- It is decided step by step. -/
instance decidablePrunesOver : (s : RateLimitState) → (run : List (Timestamp × RateLimitOp)) →
    Decidable (PrunesOver sha256 s run)
  | _, [] => .isTrue trivial
  | s, (now, .consume bucketKey limit period) :: run =>
    decidablePrunesOver (apply sha256 now s (.consume bucketKey limit period)) run
  | s, (now, .selectExpired worker scan limit) :: run =>
    decidablePrunesOver (apply sha256 now s (.selectExpired worker scan limit)) run
  | s, (now, .deleteExpired worker) :: run =>
    have := decidablePrunesOver (apply sha256 now s (.deleteExpired worker)) run
    inferInstanceAs (Decidable (_ ∧ _))

/-! ## The buckets as counters -/

/-- The window of a bucket. -/
def window (b : RateLimitBucket) : Window := ⟨b.windowStarted, b.requestCount⟩

/-- The counters that a table holds. -/
def counters (t : RateLimitBuckets) : Counters (List UInt8) :=
  fun hash => (t.rows.find? (·.bucketHash == hash)).map window

/-- A step as an operation on the counters. The snapshot of a prune forgets nothing. -/
def operation (s : RateLimitState) : RateLimitOp → Op (List UInt8)
  | .consume bucketKey limit period =>
    .hit (bucketHash sha256 bucketKey) (boundLimit limit) (seconds (boundPeriod period))
  | .selectExpired _ _ _ => .forget fun _ => false
  | .deleteExpired worker => .forget (· ∈ s.selected worker)

/-- A run as a run of the counters. -/
def operations : RateLimitState → List (Timestamp × RateLimitOp) → List (ℤ × Op (List UInt8))
  | _, [] => []
  | s, (now, op) :: run => (now, operation sha256 s op) :: operations (apply sha256 now s op) run

variable {sha256} {s : RateLimitState} {t : RateLimitBuckets} {now : Timestamp}
  {run : List (Timestamp × RateLimitOp)}

/-- A table without rows holds no counter. -/
theorem counters_empty : counters RateLimitState.empty.buckets = fun _ => none := rfl

/-- The window of a bucket after a request. -/
theorem window_next (b : RateLimitBucket) (period : ℤ) :
    window (b.next now period) = hit now (seconds period) (some (window b)) := by
  unfold RateLimitBucket.next hit window
  split <;> simp_all

/-- The counter of a key is the window of its bucket. -/
theorem counters_eq_some_iff {hash : List UInt8} {w : Window} :
    counters t hash = some w ↔ ∃ b ∈ t.rows, b.bucketHash = hash ∧ window b = w := by
  unfold counters
  rw [Option.map_eq_some_iff]
  constructor
  · rintro ⟨b, hb, rfl⟩
    exact ⟨b, List.mem_of_find?_eq_some hb, by simpa using List.find?_some hb, rfl⟩
  · rintro ⟨b, hb, rfl, rfl⟩
    exact ⟨b, find?_key_eq t.primaryKey hb, rfl⟩

/-- Storing a bucket sets the counter of its key. -/
theorem counters_store (b : RateLimitBucket)
    (hcount : 0 < b.requestCount ∧ b.requestCount ≤ maxInteger) :
    counters (t.store b hcount) = Function.update (counters t) b.bucketHash (some (window b)) := by
  funext hash
  unfold counters RateLimitBuckets.store
  by_cases hhash : hash = b.bucketHash
  · subst hhash
    rw [Function.update_self, find?_upsert (by simp) (fun _ _ => rfl), Option.map_some]
    rintro x - hx
    rw [beq_iff_eq.mp hx]
  · rw [Function.update_of_ne hhash, find?_upsert_of_not (by simpa using Ne.symm hhash)]
    · intro x hx
      rw [beq_iff_eq.mp hx]
      simpa using Ne.symm hhash
    · exact fun _ _ => rfl

/-- A call counts a request. -/
theorem consume_eq (bucketKey : String) (limit : UInt32) (period : ℤ) :
    counters (consumeDistributedRateLimit sha256 now bucketKey limit period t).2 =
        (Op.hit (bucketHash sha256 bucketKey) (boundLimit limit)
          (seconds (boundPeriod period))).apply maxInteger now (counters t) ∧
      (consumeDistributedRateLimit sha256 now bucketKey limit period t).1 =
        reply maxInteger (boundLimit limit) (hit now (seconds (boundPeriod period))
          (counters t (bucketHash sha256 bucketKey))) := by
  have hwindow : ∃ b : RateLimitBucket, b.bucketHash = bucketHash sha256 bucketKey ∧
      0 < b.requestCount ∧
      (t.rows.find? (·.bucketHash == bucketHash sha256 bucketKey)).elim
        ⟨bucketHash sha256 bucketKey, now, 1⟩ (·.next now (boundPeriod period)) = b ∧
      hit now (seconds (boundPeriod period)) (counters t (bucketHash sha256 bucketKey)) =
        window b := by
    unfold counters
    cases hb : t.rows.find? (·.bucketHash == bucketHash sha256 bucketKey) with
    | none => exact ⟨_, rfl, one_pos, rfl, rfl⟩
    | some b =>
      have hhash : b.bucketHash = bucketHash sha256 bucketKey := by simpa using List.find?_some hb
      have hpos := (t.counts b (List.mem_of_find?_eq_some hb)).1
      refine ⟨b.next now (boundPeriod period), hhash, ?_, rfl, (window_next b _).symm⟩
      unfold RateLimitBucket.next
      dsimp only
      split <;> omega
  obtain ⟨b, hhash, hpos, hb, hhit⟩ := hwindow
  unfold consumeDistributedRateLimit
  simp only [Op.apply, hb, hhit, reply, window]
  by_cases hcount : b.requestCount ≤ maxInteger
  · rw [dif_pos ⟨hpos, hcount⟩, if_pos hcount, if_pos hcount, counters_store, hhash]
    exact ⟨rfl, rfl⟩
  · rw [dif_neg fun h => hcount h.2, if_neg hcount, if_neg hcount]
    exact ⟨rfl, rfl⟩

/-- A deletion forgets the windows of the selected keys. -/
theorem deleteExpiredBuckets_eq (expired : List (List UInt8)) :
    counters (deleteExpiredBuckets expired t).2 =
      (Op.forget fun hash => decide (hash ∈ expired)).apply maxInteger now (counters t) := by
  funext hash
  have hdelete := @find?_key_delete _ _ t.rows _ _ (·.bucketHash)
    (fun h => decide (h ∈ expired)) hash
  simp only [counters, deleteExpiredBuckets, RateLimitBuckets.filter, Op.apply, decide_not, hdelete]
  split <;> rfl

/-- A step is its operation on the counters. -/
theorem counters_apply (op : RateLimitOp) :
    counters (apply sha256 now s op).buckets =
      (operation sha256 s op).apply maxInteger now (counters s.buckets) := by
  cases op with
  | consume bucketKey limit period => exact (consume_eq bucketKey limit period).1
  | selectExpired worker scan limit => rfl
  | deleteExpired worker => exact deleteExpiredBuckets_eq _

/-- A run is the run of its operations on the counters. -/
theorem counters_final : counters (final sha256 s run).buckets =
    Windows.final maxInteger (counters s.buckets) (operations sha256 s run) := by
  induction run generalizing s with
  | nil => rfl
  | cons x run ih =>
    refine ih.trans ?_
    rw [counters_apply]
    rfl

/-- The log of a run is the log of its operations. -/
theorem log_operations : (log sha256 s run).map
    (fun e => (e.1, bucketHash sha256 e.2.1, e.2.2)) =
      Windows.log maxInteger (counters s.buckets) (operations sha256 s run) := by
  induction run generalizing s with
  | nil => rfl
  | cons x run ih =>
    obtain ⟨now, op⟩ := x
    have hnext := @counters_apply sha256 s now op
    cases op with
    | consume bucketKey limit period =>
      rw [log, List.map_cons, ih, hnext, (consume_eq bucketKey limit period).2]
      rfl
    | selectExpired worker scan limit =>
      rw [log, ih, hnext]
      rfl
    | deleteExpired worker =>
      rw [log, ih, hnext]
      rfl

/-- The answers of a run are those of its operations. -/
theorem answers_eq : answers sha256 s run =
    (Windows.log maxInteger (counters s.buckets) (operations sha256 s run)).map (·.2.2) := by
  rw [← log_operations, List.map_map]
  rfl

/-- Leaving the prunes out leaves the losses out. -/
theorem operations_withoutPrunes (s s' : RateLimitState) :
    operations sha256 s' (withoutPrunes run) = hits (operations sha256 s run) := by
  induction run generalizing s s' with
  | nil => rfl
  | cons x run ih =>
    obtain ⟨now, op⟩ := x
    cases op with
    | consume bucketKey limit period => exact congrArg (_ :: ·) (ih _ _)
    | selectExpired worker scan limit => exact ih _ s'
    | deleteExpired worker => exact ih _ s'

/-- A bucket whose window is over when its key is used next is spent. -/
theorem isSpent_of_isOver {b : RateLimitBucket} (h : IsOver sha256 b run) :
    IsSpent b.bucketHash (window b) (operations sha256 s run) := by
  induction run generalizing s with
  | nil => trivial
  | cons x run ih =>
    obtain ⟨now, op⟩ := x
    cases op with
    | consume bucketKey limit period =>
      unfold IsOver at h
      rw [operations, operation, IsSpent]
      split at h
      · rename_i hhash
        rw [if_pos hhash]
        exact h
      · rename_i hhash
        rw [if_neg hhash]
        exact ih h
    | selectExpired worker scan limit => exact ih h
    | deleteExpired worker => exact ih h

/-- Prunes of buckets whose windows are over when they are needed forget spent windows. -/
theorem forgetsSpent (h : PrunesOver sha256 s run) :
    ForgetsSpent maxInteger (counters s.buckets) (operations sha256 s run) := by
  induction run generalizing s with
  | nil => trivial
  | cons x run ih =>
    obtain ⟨now, op⟩ := x
    have hnext := @counters_apply sha256 s now op
    cases op with
    | consume bucketKey limit period =>
      have hrest := ih h
      rw [hnext] at hrest
      exact hrest
    | selectExpired worker scan limit =>
      have hrest := ih h
      rw [hnext] at hrest
      exact ⟨fun _ _ hgone => Bool.noConfusion hgone, hrest⟩
    | deleteExpired worker =>
      obtain ⟨hover, hrest⟩ := h
      have hrest := ih hrest
      rw [hnext] at hrest
      refine ⟨fun hash w hgone hw => ?_, hrest⟩
      obtain ⟨b, hb, rfl, rfl⟩ := counters_eq_some_iff.mp hw
      exact isSpent_of_isOver (hover b hb (of_decide_eq_true hgone))

/-- A counter can hold one request. -/
theorem one_le_maxInteger : 1 ≤ maxInteger := by decide

/-- A bound limit is between one and the largest value of its column. -/
theorem boundLimit_bounds (limit : UInt32) :
    1 ≤ boundLimit limit ∧ boundLimit limit ≤ maxInteger := by
  unfold boundLimit
  have hmax : maxInteger = 2 ^ 31 - 1 := rfl
  omega

/-- The requests of a run are its calls. -/
theorem exists_consume_of_mem {x : ℤ × Op (List UInt8)} {hash : List UInt8} {l p : ℤ}
    (hx : x ∈ operations sha256 s run) (hop : x.2 = .hit hash l p) :
    ∃ bucketKey limit period, (x.1, .consume bucketKey limit period) ∈ run ∧
      bucketHash sha256 bucketKey = hash ∧ boundLimit limit = l ∧
        seconds (boundPeriod period) = p := by
  induction run generalizing s with
  | nil => cases hx
  | cons y run ih =>
    obtain ⟨now, op⟩ := y
    rcases List.mem_cons.mp hx with rfl | hx
    · cases op with
      | consume bucketKey limit period =>
        simp only [operation, Op.hit.injEq] at hop
        exact ⟨bucketKey, limit, period, List.mem_cons_self, hop⟩
      | selectExpired worker scan limit => cases hop
      | deleteExpired worker => cases hop
    · obtain ⟨bucketKey, limit, period, hmem, hcall⟩ := ih hx
      exact ⟨bucketKey, limit, period, List.mem_cons_of_mem _ hmem, hcall⟩

/-- The calls of a key since a time that were allowed. -/
def allowedSince (bucketKey : String) (start : Timestamp)
    (entries : List (Timestamp × String × Option Bool)) :
    List (Timestamp × String × Option Bool) :=
  entries.filter fun (now, key, answer) => decide (start ≤ now) && key == bucketKey &&
    answer == some true

/-- Calls of a key are requests of its digest. -/
theorem length_allowedSince_le {bucketKey : String} {start : Timestamp}
    (entries : List (Timestamp × String × Option Bool)) :
    (allowedSince bucketKey start entries).length ≤
      (Windows.allowedSince (bucketHash sha256 bucketKey) start
        (entries.map fun e => (e.1, bucketHash sha256 e.2.1, e.2.2))).length := by
  unfold allowedSince Windows.allowedSince
  rw [List.filter_map, List.length_map]
  refine List.Sublist.length_le (List.monotone_filter_right _ fun e he => ?_)
  simp only [Bool.and_eq_true, decide_eq_true_eq, beq_iff_eq] at he
  obtain ⟨⟨hstart, rfl⟩, hanswer⟩ := he
  simp [hstart, hanswer]

/-- The prunes of a run whose windows are over change no answer. -/
theorem answers_withoutPrunes (h : PrunesOver sha256 s run) :
    answers sha256 s run = answers sha256 s (withoutPrunes run) := by
  rw [answers_eq, answers_eq, operations_withoutPrunes s s,
    (Agrees.refl _ _).log_eq one_le_maxInteger (forgetsSpent h)]

/-- Without prunes that matter, at most as many calls of a key as its limit are allowed in a
window. -/
theorem length_allowedSince_le_limit (h : PrunesOver sha256 .empty run) {bucketKey : String}
    {limit : UInt32} {period : ℤ}
    (hfixed : ∀ now key l p, (now, .consume key l p) ∈ run →
      bucketHash sha256 key = bucketHash sha256 bucketKey → l = limit ∧ p = period)
    {b : RateLimitBucket} (hb : b ∈ (final sha256 .empty (withoutPrunes run)).buckets.rows)
    (hhash : b.bucketHash = bucketHash sha256 bucketKey) :
    ((allowedSince bucketKey b.windowStarted (log sha256 .empty run)).length : ℤ) ≤
      boundLimit limit := by
  have hcounter : counters (final sha256 .empty (withoutPrunes run)).buckets b.bucketHash =
      some (window b) := counters_eq_some_iff.mpr ⟨b, hb, rfl, rfl⟩
  rw [counters_final, operations_withoutPrunes .empty .empty, counters_empty, hhash] at hcounter
  have hlength : (1 : ℤ) ≤ seconds (boundPeriod period) := by
    unfold seconds boundPeriod
    omega
  have hisHit : ∀ x ∈ hits (operations sha256 .empty run), x.2.isHit = true :=
    fun x hx => (List.mem_filter.mp hx).2
  have hcounted := (counted_of_hits one_le_maxInteger (boundLimit_bounds limit).1 hlength hisHit
    (fun now l p hx => by
      obtain ⟨key, l', p', hmem, hkey, rfl, rfl⟩ :=
        exists_consume_of_mem (List.mem_filter.mp hx).1 rfl
      obtain ⟨rfl, rfl⟩ := hfixed _ _ _ _ hmem hkey
      exact ⟨rfl, rfl⟩)).2 (window b) hcounter
  have hlog := (Agrees.refl _ _).log_eq one_le_maxInteger (forgetsSpent h)
  rw [← log_operations, counters_empty] at hlog
  have hwithin := hcounted.le_limit
  rw [← hlog] at hwithin
  have hle := @length_allowedSince_le sha256 bucketKey b.windowStarted (log sha256 .empty run)
  exact le_trans (Int.ofNat_le.mpr hle) hwithin

/-! ## What a prune shows -/

/-- Calls alone prune nothing. -/
theorem prunesOver_of_consumes (h : ∀ x ∈ run, ∃ key l p, x.2 = .consume key l p) :
    PrunesOver sha256 s run := by
  induction run generalizing s with
  | nil => trivial
  | cons x run ih =>
    obtain ⟨now, op⟩ := x
    obtain ⟨key, l, p, rfl⟩ := h _ List.mem_cons_self
    exact ih fun x hx => h x (List.mem_cons_of_mem _ hx)

/-- Calls alone have no prunes to leave out. -/
theorem withoutPrunes_of_consumes (h : ∀ x ∈ run, ∃ key l p, x.2 = .consume key l p) :
    withoutPrunes run = run := by
  refine List.filter_eq_self.mpr fun x hx => ?_
  obtain ⟨key, l, p, hop⟩ := h x hx
  rw [hop]

/-- The window of a bucket is over for calls that come after its end. -/
theorem isOver_of_consumes {b : RateLimitBucket} {calls : String → UInt32 → ℤ → Prop}
    (hrun : ∀ x ∈ run, now ≤ x.1 ∧ ∃ key l p, x.2 = .consume key l p ∧ calls key l p)
    (hover : ∀ key l p, calls key l p → bucketHash sha256 key = b.bucketHash →
      b.windowStarted + seconds (boundPeriod p) ≤ now) : IsOver sha256 b run := by
  induction run with
  | nil => trivial
  | cons x run ih =>
    obtain ⟨time, op⟩ := x
    obtain ⟨htime, key, l, p, rfl, hcall⟩ := hrun _ List.mem_cons_self
    unfold IsOver
    split
    · rename_i hhash
      exact le_trans (hover key l p hcall hhash) htime
    · exact ih fun x hx => hrun x (List.mem_cons_of_mem _ hx)

/-- Equal calls are equal requests. -/
theorem operations_replicate (s : RateLimitState) (key : String) (l : UInt32) (p : ℤ) (n : ℕ) :
    operations sha256 s (List.replicate n (now, .consume key l p)) =
      List.replicate n
        (now, .hit (bucketHash sha256 key) (boundLimit l) (seconds (boundPeriod p))) := by
  induction n generalizing s with
  | zero => rfl
  | succ n ih =>
    rw [List.replicate_succ, List.replicate_succ, operations, ih]
    rfl

/-- The deletion of a row whose window is not over shows in the answers to some calls. -/
theorem answers_ne_of_open {worker : ℕ} {b : RateLimitBucket} (hb : b ∈ s.buckets.rows)
    (hselected : b.bucketHash ∈ s.selected worker) {key : String} {l : UInt32} {p : ℤ}
    (hhash : bucketHash sha256 key = b.bucketHash)
    (hopen : now < b.windowStarted + seconds (boundPeriod p)) :
    answers sha256 (apply sha256 now s (.deleteExpired worker))
        (List.replicate (boundLimit l).toNat (now, .consume key l p)) ≠
      answers sha256 s (List.replicate (boundLimit l).toNat (now, .consume key l p)) := by
  have hgone : decide (b.bucketHash ∈ s.selected worker) = true := decide_eq_true hselected
  have hlength : (1 : ℤ) ≤ seconds (boundPeriod p) := by
    unfold seconds boundPeriod
    omega
  rw [answers_eq, answers_eq, operations_replicate, operations_replicate, counters_apply, hhash]
  exact log_ne_of_forgotten (boundLimit_bounds l).1 (boundLimit_bounds l).2 hlength hgone
    (counters_eq_some_iff.mpr ⟨b, hb, rfl, rfl⟩) (s.buckets.counts b hb).1
    (s.buckets.counts b hb).2 hopen

/-- For later calls, the deletion of a prune is unobservable exactly when the windows of the rows
that it deletes are over. -/
theorem deletion_unobservable_iff {worker : ℕ} (calls : String → UInt32 → ℤ → Prop) :
    (∀ run, (∀ x ∈ run, now ≤ x.1 ∧ ∃ key l p, x.2 = .consume key l p ∧ calls key l p) →
      answers sha256 (apply sha256 now s (.deleteExpired worker)) run = answers sha256 s run) ↔
    ∀ b ∈ s.buckets.rows, b.bucketHash ∈ s.selected worker → ∀ key l p, calls key l p →
      bucketHash sha256 key = b.bucketHash →
        b.windowStarted + seconds (boundPeriod p) ≤ now := by
  constructor
  · intro h b hb hselected key l p hcall hhash
    by_contra hopen
    refine @answers_ne_of_open sha256 s now worker b hb hselected key l p hhash
      (not_le.mp hopen) (h _ fun x hx => ?_)
    rw [List.eq_of_mem_replicate hx]
    exact ⟨le_refl _, key, l, p, rfl, hcall⟩
  · intro h run hrun
    have hconsumes : ∀ x ∈ run, ∃ key l p, x.2 = .consume key l p := fun x hx => by
      obtain ⟨-, key, l, p, hop, -⟩ := hrun x hx
      exact ⟨key, l, p, hop⟩
    have hover : PrunesOver sha256 s ((now, .deleteExpired worker) :: run) :=
      ⟨fun b hb hselected => isOver_of_consumes hrun (h b hb hselected),
        prunesOver_of_consumes hconsumes⟩
    have hanswers := answers_withoutPrunes hover
    have hwithout : withoutPrunes ((now, .deleteExpired worker) :: run) = run :=
      withoutPrunes_of_consumes hconsumes
    rwa [hwithout] at hanswers

/-- In a run whose prunes delete only rows with windows that are over when their keys are used next,
every call is answered as without the prunes, and of the calls of a key in its current window at
most as many as the limit are allowed. And from any state, the deletion of a prune is unobservable
for all later calls exactly when the windows of the rows that it deletes are over. -/
theorem pruning_unobservable (h : PrunesOver sha256 .empty run) :
    answers sha256 .empty run = answers sha256 .empty (withoutPrunes run) ∧
    (∀ bucketKey limit period, (∀ now key l p, (now, .consume key l p) ∈ run →
      bucketHash sha256 key = bucketHash sha256 bucketKey → l = limit ∧ p = period) →
        ∀ b ∈ (final sha256 .empty (withoutPrunes run)).buckets.rows,
          b.bucketHash = bucketHash sha256 bucketKey →
            ((allowedSince bucketKey b.windowStarted (log sha256 .empty run)).length : ℤ) ≤
              boundLimit limit) ∧
    ∀ s now worker (calls : String → UInt32 → ℤ → Prop),
      (∀ run, (∀ x ∈ run, now ≤ x.1 ∧ ∃ key l p, x.2 = .consume key l p ∧ calls key l p) →
        answers sha256 (apply sha256 now s (.deleteExpired worker)) run = answers sha256 s run) ↔
      ∀ b ∈ s.buckets.rows, b.bucketHash ∈ s.selected worker → ∀ key l p, calls key l p →
        bucketHash sha256 key = b.bucketHash →
          b.windowStarted + seconds (boundPeriod p) ≤ now :=
  ⟨answers_withoutPrunes h, fun _ _ _ hfixed _ hb hhash =>
    length_allowedSince_le_limit h hfixed hb hhash, fun _ _ _ calls =>
      deletion_unobservable_iff calls⟩

/-! ## Sample runs -/

/-- A digest that keeps its text. -/
def sampleSha256 (text : String) : List UInt8 := text.toUTF8.toList

/-- A prune whose snapshot and deletion follow each other at a time. -/
def prunedAt (now : Timestamp) : List (Timestamp × RateLimitOp) :=
  (pruneDistributedRateLimits 0 .stored 10000).map (now, ·)

/-- A run in which a minute's window is pruned after ten minutes. -/
def prunedMinute : List (Timestamp × RateLimitOp) :=
  (0, enforceSharedRateLimit "login:a") :: prunedAt (seconds 601) ++
    [(seconds 602, enforceSharedRateLimit "login:a")]

/-- A run in which the worker prunes the hourly window of a client that has used it up. -/
def prunedHour : List (Timestamp × RateLimitOp) :=
  List.replicate 10 (0, registerHourly "a") ++ prunedAt (seconds 601) ++
    [(seconds 602, registerHourly "a")]

/-- A run in which a minute's window starts anew and is used up between the snapshot and the
deletion of a prune. -/
def restartedMinute : List (Timestamp × RateLimitOp) :=
  [(0, enforceSharedRateLimit "login:a"), (seconds 601, .selectExpired 0 .stored 10000)] ++
    List.replicate 120 (seconds 602, enforceSharedRateLimit "login:a") ++
      [(seconds 603, .deleteExpired 0), (seconds 604, enforceSharedRateLimit "login:a")]

/-- The prune of the minute's window shows in no answer. -/
theorem prunedMinute_unobservable :
    answers sampleSha256 .empty prunedMinute =
      answers sampleSha256 .empty (withoutPrunes prunedMinute) :=
  (pruning_unobservable (by decide +kernel)).1

/-- The prune of the hourly window lets an eleventh registration through. -/
theorem prunedHour_observable :
    answers sampleSha256 .empty prunedHour ≠
      answers sampleSha256 .empty (withoutPrunes prunedHour) := by
  decide +kernel

/-- Windows of a minute do not protect from a prune that overlaps their calls. -/
example : answers sampleSha256 .empty restartedMinute ≠
    answers sampleSha256 .empty (withoutPrunes restartedMinute) := by
  decide +kernel

end RateLimits

end TaskTipsCloud
