import TaskTipsCloud.Cleanup

/-!
# Sessions of locks

What the server keeps for the connection of a lock, and when the connection goes back to the pool
with its transaction ended. A statement that is refused leaves its transaction open; only `COMMIT`
and `ROLLBACK` end it.
-/

namespace TaskTipsCloud

open Program

/-! ## Sessions -/

/-- What the server keeps for a connection. -/
structure LockSession where
  inTransaction : Bool
  role : Option ServerRole
  userId : Option Uuid
  appRole : Option String
  /-- The advisory locks of the transaction. -/
  locks : List (Uuid × String)
  deriving DecidableEq, Repr

namespace LockSession

/-- A session without a transaction. -/
def fresh : LockSession := ⟨false, none, none, none, []⟩

/-- What a statement does to the session when the server carries it out. The settings are those of
the transaction. -/
def after (s : LockSession) : LockStatement → LockSession
  | .begin => { s with inTransaction := true }
  | .advisoryLock projectId contentHash => { s with locks := (projectId, contentHash) :: s.locks }
  | .setRole role => { s with role := some role }
  | .setUser userId => { s with userId := some userId }
  | .setAppRole role => { s with appRole := some role }
  | .commit | .rollback => fresh
  | .projectStatus _ | .insertPayload .. | .unreferencedPayload .. | .payloadExists ..
  | .deletePayload .. => s

end LockSession

/-- The connection of a lock after a call, if it is still there. A transaction that cannot be
committed is rolled back; a connection that is gone ends its session. -/
def sessionAfter (s : Option LockSession) (c : StorageCall) : Option LockSession :=
  match c.op, c.reply with
  | .acquire, .ok _ => some .fresh
  | .statement statement, .ok _ => s.map (·.after statement)
  | .statement _, .error .disconnected => none
  | .statement .commit, .error _ => s.map fun _ => .fresh
  | _, _ => s

/-- The connection after some calls. -/
def sessionAfterAll (s : Option LockSession) (calls : List StorageCall) : Option LockSession :=
  calls.foldl sessionAfter s

/-- A connection that can be used again: its transaction has ended, or the pool drops it. -/
def isClean (s : Option LockSession) : Bool := s == none || s == some .fresh

/-- Whether the connection goes back to the pool each time with its transaction ended. -/
def returnsClean (s : Option LockSession) : List StorageCall → Bool
  | [] => true
  | c :: calls =>
    (match c.op with
      | .release => isClean s
      | _ => true) && returnsClean (sessionAfter s c) calls

/-- Whether a project is active. -/
def isActiveStatus (status : Option ProjectStatus) : Bool := status == some .active

/-- Whether the size of a payload fits its column. -/
def fitsBigint (payload : PayloadInfo) : Bool := decide (payload.size < 2 ^ 63)

/-- Whether a call leaves the transaction of a lock open: a statement in it is refused, or the code
turns back after the reply. -/
def leavesOpen (c : StorageCall) : Bool :=
  match c.op, c.reply with
  | .statement .begin, _ | .statement .commit, _ => false
  | .statement _, .error .disconnected => false
  | .statement _, .error _ => true
  | .statement (.projectStatus _), .ok status => !isActiveStatus status
  | .putPayloadFile .., .ok payload => !fitsBigint payload
  | _, _ => false

/-! ## Lists of calls -/

section

variable {s : Option LockSession} {c : StorageCall} {calls calls' : List StorageCall}

/-- The session after calls in two parts. -/
theorem sessionAfterAll_append : sessionAfterAll s (calls ++ calls') =
    sessionAfterAll (sessionAfterAll s calls) calls' := List.foldl_append

/-- Calls in two parts return the connection clean when both do. -/
theorem returnsClean_append : returnsClean s (calls ++ calls') =
    (returnsClean s calls && returnsClean (sessionAfterAll s calls) calls') := by
  induction calls generalizing s with
  | nil => rfl
  | cons c calls ih => rw [List.cons_append, returnsClean, ih, returnsClean, Bool.and_assoc]; rfl

/-- A session in a transaction is not clean. -/
theorem isClean_of_inTransaction {s : LockSession} (h : s.inTransaction = true) :
    isClean (some s) = false := by
  rw [isClean, Bool.or_eq_false_iff]
  refine ⟨rfl, ?_⟩
  rw [beq_eq_false_iff_ne]
  rintro ⟨⟩
  cases h

end

/-! ## Parts of a transaction -/

/-- A part of a transaction that stays in it, unless it fails. -/
def Keeps {α : Type} (x : StorageProgram α) : Prop :=
  ∀ ⦃calls r⦄, Ends x calls r → ∀ s : LockSession, s.inTransaction = true →
    returnsClean (some s) calls = true ∧
    match r with
    | .ok _ => calls.any leavesOpen = false ∧
        ∃ s', sessionAfterAll (some s) calls = some s' ∧ s'.inTransaction = true
    | .error _ => isClean (sessionAfterAll (some s) calls) = !calls.any leavesOpen

/-- A part of a transaction after which the connection is put back. -/
def Closes {α : Type} (x : StorageProgram α) : Prop :=
  ∀ ⦃calls r⦄, Ends x calls r → ∀ s : LockSession, s.inTransaction = true →
    returnsClean (some s) calls = true ∧
      isClean (sessionAfterAll (some s) calls) = !calls.any leavesOpen

section

variable {α β : Type} {x : StorageProgram α} {f : α → StorageProgram β}

/-- Parts that stay in the transaction do so one after the other. -/
theorem Keeps.andThen (hx : Keeps x) (hf : ∀ a, Keeps (f a)) : Keeps (x.andThen f) := by
  intro calls r h s hs
  rcases ends_andThen_iff.mp h with ⟨calls₁, a, calls₂, h₁, h₂, rfl⟩ | ⟨e, he, rfl⟩
  · obtain ⟨hclean, hany, s', hs', hopen⟩ := hx h₁ s hs
    have hrest := hf a h₂ s' hopen
    rw [returnsClean_append, sessionAfterAll_append, List.any_append, hclean, hany, hs']
    exact hrest
  · exact hx he s hs

/-- A part that stays may be followed by one after which the connection is put back. -/
theorem Keeps.andThen_closes (hx : Keeps x) (hf : ∀ a, Closes (f a)) : Closes (x.andThen f) := by
  intro calls r h s hs
  rcases ends_andThen_iff.mp h with ⟨calls₁, a, calls₂, h₁, h₂, rfl⟩ | ⟨e, he, rfl⟩
  · obtain ⟨hclean, hany, s', hs', hopen⟩ := hx h₁ s hs
    have hrest := hf a h₂ s' hopen
    rw [returnsClean_append, sessionAfterAll_append, List.any_append, hclean, hany, hs']
    exact hrest
  · exact hx he s hs

/-- A call that has nothing to do with the connection. -/
theorem closes_call {op : StorageOp} {next : Except StorageError op.Reply → StorageProgram α}
    (hop : ∀ reply s, sessionAfter s ⟨op, reply⟩ = s) (hrelease : op ≠ .release)
    (hnext : ∀ reply, leavesOpen ⟨op, reply⟩ = false → Closes (next reply))
    (hopen : ∀ reply, leavesOpen ⟨op, reply⟩ = true → ∃ e, next reply = .fail e) :
    Closes (.call op next) := by
  intro calls r h s hs
  obtain ⟨reply, rest, rfl, hrest⟩ := ends_call_iff.mp h
  have hsession : sessionAfterAll (some s) (⟨op, reply⟩ :: rest) =
      sessionAfterAll (some s) rest := by
    rw [sessionAfterAll, List.foldl_cons, hop]
    rfl
  have hclean : returnsClean (some s) (⟨op, reply⟩ :: rest) = returnsClean (some s) rest := by
    rw [returnsClean, hop]
    cases op <;> first | rfl | exact absurd rfl hrelease
  rw [hclean, hsession, List.any_cons]
  cases hleaves : leavesOpen ⟨op, reply⟩ with
  | false => exact hnext reply hleaves hrest s hs
  | true =>
    obtain ⟨e, he⟩ := hopen reply hleaves
    rw [he] at hrest
    obtain ⟨rfl, -⟩ := ends_fail_iff.mp hrest
    exact ⟨rfl, isClean_of_inTransaction hs⟩

end

/-- The transaction of a refused statement stays open, unless the connection is gone. -/
theorem isClean_refused {st : LockStatement} {s : LockSession} (hs : s.inTransaction = true)
    (hbegin : st ≠ .begin) (hcommit : st ≠ .commit) (e : StorageError) :
    isClean (sessionAfterAll (some s) [⟨.statement st, .error e⟩]) =
      !List.any [⟨.statement st, .error e⟩] leavesOpen := by
  have hopen := isClean_of_inTransaction hs
  cases st with
  | begin => exact absurd rfl hbegin
  | commit => exact absurd rfl hcommit
  | _ => cases e <;> first | rfl | exact hopen

/-- A statement after which the transaction goes on, whatever it returns. -/
def LockStatement.isInner : LockStatement → Bool
  | .begin | .commit | .rollback | .projectStatus _ => false
  | _ => true

/-- An inner statement stays in the transaction, unless it fails. -/
theorem keeps_statement {st : LockStatement} (hst : st.isInner = true) : Keeps (statement st) := by
  intro calls r h s hs
  obtain rfl := ends_perform_iff.mp h
  cases r with
  | ok reply =>
    refine ⟨rfl, ?_, s.after st, rfl, ?_⟩
    · cases st <;> first | rfl | cases hst
    · cases st <;> first | exact hs | cases hst
  | error e =>
    exact ⟨rfl, isClean_refused hs (by rintro ⟨⟩; cases hst) (by rintro ⟨⟩; cases hst) e⟩

/-- The check of the project, which turns back when the project is missing or not active. -/
theorem keeps_requireActiveStatus {projectId : Uuid} : Keeps (requireActiveStatus projectId) := by
  intro calls r h s hs
  rcases ends_andThen_iff.mp h with ⟨calls₁, status, calls₂, h₁, h₂, rfl⟩ | ⟨e, he, rfl⟩
  · obtain rfl := ends_perform_iff.mp h₁
    rcases (status : Option ProjectStatus) with _ | status
    · obtain ⟨rfl, rfl⟩ := ends_fail_iff.mp h₂
      exact ⟨rfl, isClean_of_inTransaction hs⟩
    · cases status with
      | active =>
        obtain ⟨rfl, rfl⟩ := ends_done_iff.mp h₂
        exact ⟨rfl, rfl, s, rfl, hs⟩
      | _ =>
        obtain ⟨rfl, rfl⟩ := ends_fail_iff.mp h₂
        exact ⟨rfl, isClean_of_inTransaction hs⟩
  · obtain rfl := ends_perform_iff.mp he
    exact ⟨rfl, isClean_refused hs (by nofun) (by nofun) e⟩

/-- After a commit the connection is put back. -/
theorem closes_commit : Closes PayloadLock.finish := by
  intro calls r h s hs
  rcases ends_andThen_iff.mp h with ⟨calls₁, _, calls₂, h₁, h₂, rfl⟩ | ⟨e, he, rfl⟩
  · obtain rfl := ends_perform_iff.mp h₁
    obtain ⟨rfl, rfl⟩ := ends_done_iff.mp h₂
    exact ⟨rfl, rfl⟩
  · obtain rfl := ends_perform_iff.mp he
    cases e <;> exact ⟨rfl, rfl⟩

/-- After a rollback, the code returns an error. -/
theorem closes_rollback {α : Type} (error : StorageError) :
    Closes (PayloadLock.rollback.andThen fun _ => (.fail error : StorageProgram α)) := by
  intro calls r h s hs
  rcases ends_andThen_iff.mp h with ⟨calls₁, _, calls₂, h₁, h₂, rfl⟩ | ⟨e, he, rfl⟩
  · obtain ⟨rfl, rfl⟩ := ends_fail_iff.mp h₂
    obtain ⟨_, r₁, _, hrollback, hdone, rfl⟩ := ends_handle_iff.mp h₁
    obtain rfl := ends_perform_iff.mp hrollback
    obtain ⟨rfl, -⟩ := ends_done_iff.mp hdone
    cases r₁ with
    | ok _ => exact ⟨rfl, rfl⟩
    | error e => exact ⟨rfl, isClean_refused hs (by nofun) (by nofun) e⟩
  · obtain ⟨_, r₁, _, h₁, h₂, rfl⟩ := ends_handle_iff.mp he
    cases (ends_done_iff.mp h₂).2

/-! ## The methods of the lock -/

/-- After the registration of a payload the connection is put back. -/
theorem closes_registerPayload {userId projectId : Uuid} {role : String} {payload : StoredPayload} :
    Closes (PayloadLock.registerPayload userId role projectId payload) := by
  refine (keeps_statement rfl).andThen_closes fun _ => ?_
  refine (keeps_statement rfl).andThen_closes fun _ => ?_
  refine (keeps_statement rfl).andThen_closes fun _ => ?_
  refine keeps_requireActiveStatus.andThen_closes fun _ => ?_
  exact (keeps_statement rfl).andThen_closes fun _ => closes_commit

/-- The search for a payload without references stays in the transaction. -/
theorem keeps_unreferencedPayloadKey {projectId : Uuid} {contentHash : String}
    {olderThan : Timestamp} :
    Keeps (PayloadLock.unreferencedPayloadKey projectId contentHash olderThan) :=
  (keeps_statement rfl).andThen fun _ => keeps_statement rfl

/-- So does the check for references. -/
theorem keeps_payloadIsReferenced {projectId : Uuid} {contentHash : String} :
    Keeps (PayloadLock.payloadIsReferenced projectId contentHash) :=
  (keeps_statement rfl).andThen fun _ => keeps_statement rfl

/-- After the deletion of the row of a payload the connection is put back. -/
theorem closes_deletePayloadRow {projectId : Uuid} {contentHash : String} :
    Closes (PayloadLock.deletePayloadRow projectId contentHash) :=
  (keeps_statement rfl).andThen_closes fun _ => closes_commit

/-! ## Uses of a lock -/

/-- A program after which no connection is out, and which puts every one back with its transaction
ended if and only if no call leaves one open. -/
def Tidy {α : Type} (x : StorageProgram α) : Prop :=
  ∀ ⦃calls r⦄, Ends x calls r → ∀ s, returnsClean s calls = !calls.any leavesOpen

section

variable {α β : Type} {x : StorageProgram α} {f : α → StorageProgram β}

/-- A program that is done is tidy. -/
theorem tidy_done (a : α) : Tidy (.done a) := by
  intro calls r h s
  obtain ⟨rfl, -⟩ := ends_done_iff.mp h
  rfl

/-- So is one that fails. -/
theorem tidy_fail (e : StorageError) : Tidy (.fail e : StorageProgram α) := by
  intro calls r h s
  obtain ⟨rfl, -⟩ := ends_fail_iff.mp h
  rfl

/-- A sequence is tidy when both programs are. -/
theorem Tidy.andThen (hx : Tidy x) (hf : ∀ a, Tidy (f a)) : Tidy (x.andThen f) := by
  intro calls r h s
  rcases ends_andThen_iff.mp h with ⟨calls₁, a, calls₂, h₁, h₂, rfl⟩ | ⟨e, he, rfl⟩
  · rw [returnsClean_append, hx h₁, hf a h₂, List.any_append, Bool.not_or]
  · exact hx he s

/-- A loop is tidy when its body is. -/
theorem tidy_forEach {body : α → StorageProgram Unit} (h : ∀ a, Tidy (body a)) :
    ∀ as, Tidy (forEach body as)
  | [] => tidy_done ()
  | a :: as => (h a).andThen fun _ => tidy_forEach h as

/-- An operation without a connection. -/
theorem tidy_perform {op : StorageOp} (hop : ∀ reply, leavesOpen ⟨op, reply⟩ = false)
    (hrelease : op ≠ .release) : Tidy (perform op : StorageProgram op.Reply) := by
  intro calls r h s
  obtain rfl := ends_perform_iff.mp h
  rw [List.any_cons, hop, returnsClean]
  cases op <;> first | rfl | exact absurd rfl hrelease

/-- The transaction of a lock, from its beginning. -/
theorem returnsClean_locked {projectId : Uuid} {contentHash : String} (hx : Closes x)
    {calls : List StorageCall} {r : Except StorageError α}
    (h : Ends ((statement .begin).andThen fun _ =>
      (statement (.advisoryLock projectId contentHash)).andThen fun _ => x) calls r) :
    returnsClean (some .fresh) calls = true ∧
      isClean (sessionAfterAll (some .fresh) calls) = !calls.any leavesOpen := by
  rcases ends_andThen_iff.mp h with ⟨calls₁, _, calls₂, h₁, h₂, rfl⟩ | ⟨e, he, rfl⟩
  · obtain rfl := ends_perform_iff.mp h₁
    have hadvisory : Keeps (statement (.advisoryLock projectId contentHash)) := keeps_statement rfl
    exact hadvisory.andThen_closes (fun _ => hx) h₂ _ rfl
  · obtain rfl := ends_perform_iff.mp he
    cases e <;> exact ⟨rfl, rfl⟩

/-- A lock is put back clean if and only if no call leaves its transaction open. -/
theorem tidy_withPayloadLock {projectId : Uuid} {contentHash : String} (hx : Closes x) :
    Tidy (withPayloadLock projectId contentHash x) := by
  intro calls r h s
  rcases ends_andThen_iff.mp h with ⟨calls₁, _, calls₂, h₁, h₂, rfl⟩ | ⟨e, he, rfl⟩
  · obtain rfl := ends_perform_iff.mp h₁
    obtain ⟨inner, r₁, last, hinner, hlast, rfl⟩ := ends_handle_iff.mp h₂
    obtain ⟨_, r₂, _, hrelease, hdone, rfl⟩ := ends_handle_iff.mp hlast
    obtain rfl := ends_perform_iff.mp hrelease
    obtain ⟨rfl, -⟩ := ends_ofExcept_iff.mp hdone
    obtain ⟨hclean, hend⟩ := returnsClean_locked hx hinner
    have hreturns : returnsClean (some .fresh) (inner ++ ([⟨.release, r₂⟩] ++ [])) =
        !inner.any leavesOpen := by
      rw [returnsClean_append, hclean, List.append_nil, ← hend]
      exact (Bool.true_and _).trans (Bool.and_true _)
    rw [List.append_nil] at hreturns ⊢
    refine hreturns.trans ?_
    rw [List.singleton_append, List.any_cons, List.any_append]
    exact congrArg not ((Bool.false_or _).trans (Bool.or_false _)).symm
  · obtain rfl := ends_perform_iff.mp he
    rfl

end

/-! ## The code that uses a lock -/

/-- An upload under the lock is tidy. -/
theorem tidy_putPayloadLocked (userId : Uuid) (role : String) (projectId : Uuid)
    (contentHash mediaType : String) (bytes : List UInt8) :
    Tidy (putPayloadLocked userId role projectId contentHash mediaType bytes) := by
  refine tidy_withPayloadLock (closes_call (fun reply s => ?_) nofun (fun reply hleaves => ?_)
    fun reply hleaves => ?_)
  · cases reply <;> rfl
  · cases reply with
    | error e => exact closes_rollback e
    | ok payload =>
      have hfits : (payload : PayloadInfo).size < 2 ^ 63 := by
        simpa [leavesOpen, fitsBigint] using hleaves
      change Closes (if (payload : PayloadInfo).size < 2 ^ 63 then
        PayloadLock.registerPayload userId role projectId _ else .fail .internal)
      rw [if_pos hfits]
      exact closes_registerPayload
  · cases reply with
    | error e => cases hleaves
    | ok payload =>
      have hfits : ¬ (payload : PayloadInfo).size < 2 ^ 63 := by
        simpa [leavesOpen, fitsBigint] using hleaves
      exact ⟨.internal, if_neg hfits⟩

/-- After the deletion of an object under the lock the connection is put back. -/
theorem closes_deleteUnderLock {objectKey : String} {next : StorageProgram Unit}
    (hnext : Closes next) : Closes (deleteUnderLock objectKey next) := by
  refine closes_call (fun reply s => ?_) nofun (fun reply _ => ?_) fun reply hleaves => ?_
  · cases reply <;> rfl
  · cases reply with
    | error e => exact closes_rollback e
    | ok _ => exact hnext
  · cases reply <;> cases hleaves

/-- The collection of a candidate is tidy. -/
theorem tidy_collectCandidate (cutoff : Timestamp) (candidate : Uuid × String) :
    Tidy (collectCandidate cutoff candidate) := by
  refine tidy_withPayloadLock (keeps_unreferencedPayloadKey.andThen_closes fun key => ?_)
  cases key with
  | none => exact closes_commit
  | some objectKey => exact closes_deleteUnderLock closes_deletePayloadRow

/-- So is the deletion of a stale object. -/
theorem tidy_deleteStalePayload (objectKey : String) : Tidy (deleteStalePayload objectKey) := by
  unfold deleteStalePayload
  split
  · exact tidy_done ()
  · refine tidy_withPayloadLock (keeps_payloadIsReferenced.andThen_closes fun referenced => ?_)
    split
    · exact closes_commit
    · exact closes_deleteUnderLock closes_commit

/-- So is the listing of stale objects. -/
theorem tidy_stalePayloadKeys (referencedKeys : List String) (olderThan : Timestamp) :
    ∀ pages token, Tidy (ObjectStore.stalePayloadKeys referencedKeys olderThan pages token)
  | 0, _ => tidy_fail .internal
  | pages + 1, token => by
    refine Tidy.andThen (tidy_perform (fun reply => by cases reply <;> rfl) nofun) fun page => ?_
    simp only
    split
    · exact (tidy_stalePayloadKeys referencedKeys olderThan pages _).andThen fun _ => tidy_done _
    · exact tidy_done _

/-- So is the deletion of an object. -/
theorem tidy_deleteKey (key : String) : Tidy (ObjectStore.deleteKey key) :=
  tidy_perform (fun reply => by cases reply <;> rfl) (by nofun)

/-- So is the deletion of several. -/
theorem tidy_deleteKeys (keys : List String) : Tidy (forEach ObjectStore.deleteKey keys) :=
  tidy_forEach tidy_deleteKey keys

/-- So is the deletion of orphaned objects. -/
theorem tidy_deleteOrphans (referencedKeys : List String) (olderThan : Timestamp) :
    ∀ pages token, Tidy (ObjectStore.deleteOrphans referencedKeys olderThan pages token)
  | 0, _ => tidy_fail .internal
  | pages + 1, token => by
    refine Tidy.andThen (tidy_perform (fun reply => by cases reply <;> rfl) nofun) fun page => ?_
    refine (tidy_deleteKeys _).andThen fun _ => ?_
    split
    · exact tidy_deleteOrphans referencedKeys olderThan pages _
    · exact tidy_done ()

/-- So is the collection of payloads. -/
theorem tidy_collectGarbage (pages : ℕ) (cutoff : Timestamp) :
    Tidy (collectGarbage pages cutoff) := by
  refine Tidy.andThen (tidy_perform (fun reply => by cases reply <;> rfl) nofun) fun _ => ?_
  refine Tidy.andThen ?_ fun _ => ?_
  · refine Tidy.andThen (tidy_perform (fun reply => by cases reply <;> rfl) nofun) fun _ => ?_
    exact tidy_forEach (tidy_collectCandidate cutoff) _
  refine Tidy.andThen (tidy_perform (fun reply => by cases reply <;> rfl) nofun) fun _ => ?_
  refine (tidy_stalePayloadKeys _ cutoff pages none).andThen fun _ => ?_
  refine (tidy_forEach tidy_deleteStalePayload _).andThen fun _ => ?_
  refine Tidy.andThen (tidy_perform (fun reply => by cases reply <;> rfl) nofun) fun _ => ?_
  exact tidy_deleteOrphans _ cutoff pages none

/-- So is the whole cleanup. -/
theorem tidy_cleanupOrphans (pages : ℕ) (now : Timestamp) : Tidy (cleanupOrphans pages now) := by
  refine Tidy.andThen ?_ fun _ => Tidy.andThen ?_ fun _ => Tidy.andThen ?_ fun _ =>
    tidy_collectGarbage pages _
  all_goals
    refine Tidy.andThen (tidy_perform (fun reply => by cases reply <;> rfl) nofun) fun keys => ?_
    exact tidy_deleteKeys keys

/-! ## Leaks -/

/-- The code that uses locks. -/
inductive UsesLocks : StorageProgram Unit → Prop
  | putPayload (userId : Uuid) (role : String) (projectId : Uuid) (contentHash mediaType : String)
      (bytes : List UInt8) :
      UsesLocks (putPayloadLocked userId role projectId contentHash mediaType bytes)
  | cleanupOrphans (pages : ℕ) (now : Timestamp) : UsesLocks (cleanupOrphans pages now)

/-- The payload without bytes as the object store returns it. -/
def lockedInfo : PayloadInfo :=
  ⟨"payloads", .payload 1 2 sampleDigest, sampleDigest, 0, "text/plain"⟩

/-- The calls of an upload up to the check of the project. -/
def uploadCalls (status : Option ProjectStatus) (rest : List StorageCall) : List StorageCall :=
  ⟨.acquire, .ok ()⟩ :: ⟨.statement .begin, .ok ()⟩ ::
    ⟨.statement (.advisoryLock 2 sampleDigest), .ok ()⟩ ::
    ⟨.putPayloadFile 1 2 sampleDigest "text/plain" [], .ok lockedInfo⟩ ::
    ⟨.statement (.setRole .app), .ok ()⟩ :: ⟨.statement (.setUser 1), .ok ()⟩ ::
    ⟨.statement (.setAppRole "user"), .ok ()⟩ :: ⟨.statement (.projectStatus 2), .ok status⟩ :: rest

/-- The calls of an upload to an active project. -/
def activeUploadCalls : List StorageCall :=
  uploadCalls (some .active)
    [⟨.statement (.insertPayload 2 1
        ⟨sampleDigest, "payloads", lockedInfo.key.text, 0, "text/plain"⟩), .ok ()⟩,
      ⟨.statement .commit, .ok ()⟩, ⟨.release, .ok ()⟩]

/-- The upload of no bytes to an active project makes these calls. -/
theorem ends_activeUpload : Ends (putPayloadLocked 1 "user" 2 sampleDigest "text/plain" [])
    activeUploadCalls (.ok ()) :=
  .call <| .call <| .call <| .call <| .call <| .call <| .call <| .call <| .call <| .call <|
    .call .start

/-- In every execution, whatever the server and the object store reply, each connection is put back
with its transaction ended if and only if no call leaves one open. -/
theorem returnsClean_iff {x : StorageProgram Unit} (hx : UsesLocks x) {calls : List StorageCall}
    {r : Except StorageError Unit} (h : Ends x calls r) :
    returnsClean none calls = true ↔ ∀ c ∈ calls, leavesOpen c = false := by
  have htidy : Tidy x := by
    cases hx with
    | putPayload => exact tidy_putPayloadLocked ..
    | cleanupOrphans => exact tidy_cleanupOrphans ..
  rw [htidy h, Bool.not_eq_true', List.any_eq_false]
  simp only [Bool.not_eq_true]

/-- An upload to an active project puts its connection back clean. -/
theorem returnsClean_active : returnsClean none activeUploadCalls = true := by
  refine (returnsClean_iff (.putPayload 1 "user" 2 sampleDigest "text/plain" [])
    ends_activeUpload).mpr ?_
  simp [activeUploadCalls, uploadCalls, leavesOpen, isActiveStatus, fitsBigint, lockedInfo]

/-- An upload to a project that is missing puts its connection back in the transaction of the
upload, with its lock and its settings. -/
theorem missingProject_leaks :
    let calls := uploadCalls none [⟨.release, .ok ()⟩]
    Ends (putPayloadLocked 1 "user" 2 sampleDigest "text/plain" []) calls
        (.error (.persistence .notFound)) ∧
      returnsClean none calls = false ∧
      sessionAfterAll none calls =
        some ⟨true, some .app, some 1, some "user", [(2, sampleDigest)]⟩ :=
  ⟨.call <| .call <| .call <| .call <| .call <| .call <| .call <| .call <| .call .start, rfl, rfl⟩

end TaskTipsCloud
