import TaskTipsCloud.Cleanup

/-!
# Runs of the cleanup

What the first stages of `cleanup_orphans` do to the database and the bucket. The statement of the
third stage is refused every time, so that no pass gets further.
-/

namespace TaskTipsCloud

open Program

/-! ## What the operations do -/

/-- The database and the bucket. -/
structure Storage where
  db : PurgeDb
  /-- When the object of a key was written. -/
  objects : String → Option Timestamp

/-- Whether an operation belongs to the expiries. -/
def StorageOp.isExpiry : StorageOp → Bool
  | .expirePendingSnapshots _ | .expireBootstrapManifests _ | .expireAccountPurgeExports _
  | .deleteKey _ => true
  | _ => false

/-- The keys of the pending snapshots that are too old. -/
def stalePendingKeys (olderThan : Timestamp) (d : Db) : List String :=
  (d.snapshots.filter fun x => x.status == .pending && decide (x.createdAt < olderThan)).map
    (·.manifestKey)

/-- A result of the persistence layer as the reply to a call. -/
def storageReply {α : Type} : Except PersistenceError α → Except StorageError α
  | .ok a => .ok a
  | .error error => .error (.persistence error)

/-- What the operations of the expiries do at a time. Any of them may fail, and a deletion may be
carried out without an answer. What the other operations do is left open. -/
inductive ExpiryStep (now : Timestamp) :
    Behaviour StorageOp StorageOp.Reply StorageError Storage
  | fault (op : StorageOp) (error : StorageError) (s : Storage) :
    ExpiryStep now op s (.error error) s
  | expirePendingSnapshots {olderThan : Timestamp} {keys : List String} (s : Storage)
      (hkeys : keys.Perm (stalePendingKeys olderThan s.db.sync)) :
    ExpiryStep now (.expirePendingSnapshots olderThan) s (.ok keys)
      { s with db.sync := ((expirePendingSnapshots olderThan).execute s.db.sync).2 }
  | expireBootstrapManifests {limit : ℤ} {scan : Arrangement BootstrapManifestRow}
      {values : List Sql.Value} {manifests : List BootstrapManifestRow} {keys : List String}
      (s : Storage) (h : Sql.execute manifestRelation now scan [max limit 1]
        (queryText manifestLines) s.db.sync.bootstrapManifests = (.ok values, manifests))
      (hkeys : values = keys.map .text) :
    ExpiryStep now (.expireBootstrapManifests limit) s (.ok keys)
      { s with db.sync.bootstrapManifests := manifests }
  | expireAccountPurgeExports {limit : ℤ} (scan : Arrangement AccountExport) (s : Storage) :
    ExpiryStep now (.expireAccountPurgeExports limit) s
      (storageReply ((expireAccountPurgeExports now scan limit).execute s.db).1)
      { s with db := ((expireAccountPurgeExports now scan limit).execute s.db).2 }
  | deleteKey (key : String) (s : Storage) :
    ExpiryStep now (.deleteKey key) s (.ok ())
      { s with objects := Function.update s.objects key none }
  | deleteKeyLost (key : String) (error : StorageError) (s : Storage) :
    ExpiryStep now (.deleteKey key) s (.error error)
      { s with objects := Function.update s.objects key none }
  | other {op : StorageOp} (hop : op.isExpiry = false) (reply : Except StorageError op.Reply)
      (s s' : Storage) : ExpiryStep now op s reply s'

/-! ## Where a pass ends -/

section

variable {now : Timestamp} {s s' : Storage} {calls : List StorageCall}

/-- The third stage fails in every state. -/
theorem expireAccountPurgeExports_fails {limit : ℤ} {reply : Except StorageError (List String)}
    (h : ExpiryStep now (.expireAccountPurgeExports limit) s reply s') :
    ∃ e, reply = .error e ∧ s' = s := by
  cases h with
  | fault error => exact ⟨_, rfl, rfl⟩
  | expireAccountPurgeExports scan =>
    have hrun := run_expireAccountPurgeExports now scan limit s.db
    rw [Txn.execute, hrun]
    exact ⟨_, rfl, rfl⟩
  | other hop => cases hop

/-- Only the listed keys are deleted. -/
theorem forall_deleteKeys {keys : List String} {r : Except StorageError Unit}
    (h : Ends (forEach ObjectStore.deleteKey keys) calls r) :
    ∀ c ∈ calls, ∃ key ∈ keys, c.op = .deleteKey key := by
  induction keys generalizing calls with
  | nil =>
    obtain ⟨rfl, -⟩ := ends_done_iff.mp h
    nofun
  | cons key keys ih =>
    rcases ends_andThen_iff.mp h with ⟨calls₁, _, calls₂, h₁, h₂, rfl⟩ | ⟨e, he, rfl⟩
    · obtain rfl := ends_perform_iff.mp h₁
      intro c hc
      rcases List.mem_append.mp hc with hc | hc
      · obtain rfl := List.mem_singleton.mp hc
        exact ⟨key, List.mem_cons_self, rfl⟩
      · obtain ⟨k, hk, hop⟩ := ih h₂ c hc
        exact ⟨k, List.mem_cons_of_mem _ hk, hop⟩
    · obtain rfl := ends_perform_iff.mp he
      intro c hc
      obtain rfl := List.mem_singleton.mp hc
      exact ⟨key, List.mem_cons_self, rfl⟩

/-- The cleanup of expired objects makes no other calls than those of expiry. -/
theorem isExpiry_deleteExpired {expire : StorageProgram (List String)}
    (hexpire : ∀ {calls r}, Ends expire calls r → ∀ c ∈ calls, c.op.isExpiry = true)
    {r : Except StorageError Unit} (h : Ends (deleteExpired expire) calls r) :
    ∀ c ∈ calls, c.op.isExpiry = true := by
  rcases ends_andThen_iff.mp h with ⟨calls₁, keys, calls₂, h₁, h₂, rfl⟩ | ⟨e, he, rfl⟩
  · intro c hc
    rcases List.mem_append.mp hc with hc | hc
    · exact hexpire h₁ c hc
    · obtain ⟨key, -, hop⟩ := forall_deleteKeys h₂ c hc
      rw [hop]
      rfl
  · exact hexpire he

/-- A pass whose third stage fails calls no operation of the later stages. -/
theorem isExpiry_of_ends {pages : ℕ} {start : Timestamp} {r : Except StorageError Unit}
    (h : Ends (cleanupOrphans pages start) calls r)
    (hfails : ∀ limit reply, ⟨.expireAccountPurgeExports limit, reply⟩ ∈ calls →
      ∃ e, reply = .error e) :
    (∃ e, r = .error e) ∧ ∀ c ∈ calls, c.op.isExpiry = true := by
  have hperform : ∀ {op : StorageOp}, op.isExpiry = true →
      ∀ {calls : List StorageCall} {r}, Ends (perform op) calls r →
        ∀ c ∈ calls, c.op.isExpiry = true := by
    intro op hop calls r h c hc
    obtain rfl := ends_perform_iff.mp h
    obtain rfl := List.mem_singleton.mp hc
    exact hop
  rcases ends_andThen_iff.mp h with ⟨calls₁, _, later, h₁, hlater, rfl⟩ | ⟨e, he, rfl⟩
  swap
  · exact ⟨⟨e, rfl⟩, isExpiry_deleteExpired (fun h => hperform rfl h) he⟩
  have hsnapshots := isExpiry_deleteExpired (fun h => hperform rfl h) h₁
  rcases ends_andThen_iff.mp hlater with ⟨calls₂, _, last, h₂, hlast, rfl⟩ | ⟨e, he, rfl⟩
  swap
  · refine ⟨⟨e, rfl⟩, List.forall_mem_append.mpr ⟨hsnapshots, ?_⟩⟩
    exact isExpiry_deleteExpired (fun h => hperform rfl h) he
  have hmanifests := isExpiry_deleteExpired (fun h => hperform rfl h) h₂
  rcases ends_andThen_iff.mp hlast with ⟨calls₃, _, rest, h₃, -, rfl⟩ | ⟨e, he, rfl⟩
  swap
  · refine ⟨⟨e, rfl⟩, List.forall_mem_append.mpr ⟨hsnapshots, List.forall_mem_append.mpr
      ⟨hmanifests, ?_⟩⟩⟩
    exact isExpiry_deleteExpired (fun h => hperform rfl h) he
  -- The third stage does not end without an error.
  rcases ends_andThen_iff.mp h₃ with ⟨calls₄, keys, _, h₄, -, rfl⟩ | ⟨e, -, he⟩
  · obtain rfl := ends_perform_iff.mp h₄
    obtain ⟨e, he⟩ := hfails 1000 (.ok keys) (List.mem_append_right _ (List.mem_append_right _
      (List.mem_append_left _ (List.mem_append_left _ List.mem_cons_self))))
    cases he
  · cases he

end

/-- In no state does the statement that the code sends mark the exports that are due, and no pass,
from any state and whatever else fails, reaches a stage after the expiry of exports: it ends with an
error. -/
theorem expiry_never (now start : Timestamp) (limit : ℤ) (scan : Arrangement AccountExport)
    (pages : ℕ) (s : Storage) :
    (∀ rows, ¬ MarksExpired now limit rows (Sql.execute exportRelation now scan [max limit 1]
        (queryText exportLines) rows)) ∧
      ∀ calls r s', Ends (cleanupOrphans pages start) calls r →
        Performs (ExpiryStep now) s calls s' →
          (∃ e, r = .error e) ∧ ∀ c ∈ calls, c.op.isExpiry = true := by
  constructor
  · rintro rows ⟨-, -, ⟨keys, hkeys, -⟩, -⟩
    rw [execute_exportLines] at hkeys
    cases hkeys
  · intro calls r s' h hperforms
    refine isExpiry_of_ends h fun limit reply hmem => ?_
    obtain ⟨t, t', hstep⟩ := hperforms.mem hmem
    obtain ⟨e, he, -⟩ := expireAccountPurgeExports_fails hstep
    exact ⟨e, he⟩

/-- An export that has expired. -/
def dueExport : AccountExport where
  id := 1
  userId := 2
  jobId := 3
  objectKey := "users/2/exports/1.tar.zst"
  contentHash := none
  sizeBytes := none
  status := .ready
  createdAt := 0
  expiresAt := 5
  completedAt := none

/-- A database with this export only. -/
def dueStorage : Storage := ⟨⟨.initial [], [], [dueExport]⟩, fun _ => none⟩

/-- The export stays as it is, and the pass ends before the later stages. -/
theorem dueExport_not_expired :
    (¬ MarksExpired 10 1000 [dueExport] (Sql.execute exportRelation 10 .stored [1000]
        (queryText exportLines) [dueExport])) ∧
      ∃ calls, Ends (cleanupOrphans 1 10) calls (.error (.persistence (.database .syntaxError))) ∧
        Performs (ExpiryStep 10) dueStorage calls dueStorage ∧
        ∀ c ∈ calls, c.op.isExpiry = true := by
  have hmanifests : Sql.execute manifestRelation 10 .stored [max 1000 1] (queryText manifestLines)
      [] = (.ok [], []) := by
    rw [Sql.execute_of_parse parse_manifestLines rfl]
    rfl
  have hexports : (expireAccountPurgeExports 10 .stored 1000).execute dueStorage.db =
      (.error (.database .syntaxError), dueStorage.db) := by
    rw [Txn.execute, run_expireAccountPurgeExports]
    rfl
  refine ⟨?_, [⟨.expirePendingSnapshots (10 - orphanAge), .ok []⟩,
    ⟨.expireBootstrapManifests 1000, .ok []⟩,
    ⟨.expireAccountPurgeExports 1000, .error (.persistence (.database .syntaxError))⟩],
    .call (.call (.call .start)), ?_, ?_⟩
  · rintro ⟨-, -, ⟨keys, hkeys, -⟩, -⟩
    rw [Sql.execute_of_parse_none parse_exportLines] at hkeys
    cases hkeys
  · have hthird : ExpiryStep 10 (.expireAccountPurgeExports 1000) dueStorage _ _ :=
      .expireAccountPurgeExports .stored dueStorage
    rw [hexports] at hthird
    have hsecond : ExpiryStep 10 (.expireBootstrapManifests 1000) dueStorage (.ok []) dueStorage :=
      .expireBootstrapManifests dueStorage hmanifests rfl
    exact .cons (.expirePendingSnapshots dueStorage .rfl) (.cons hsecond (.cons hthird .nil))
  · simp [StorageOp.isExpiry]

end TaskTipsCloud
