import TaskTipsCloud.Fencing
import TaskTipsCloud.Library.Raises

/-!
# Replays of a push

The answers of the push route of `crates/api/src/routes.rs`, with the errors that it makes of those
of the persistence layer. A push that is executed stores its answer under its key. Whatever runs in
between, every later push with the key that ends while the answer is kept changes nothing: it gets
the stored answer, as the route gave it the first time, when it is the same request, and a conflict
when it is another one.
-/

namespace TaskTipsCloud

open Txn

/-! ## Errors of the API -/

/-- An error of the API, without the identifier of the request that it is an answer to. -/
structure ApiError where
  status : ℕ
  code : String
  message : String
  retryable : Bool
  details : Option Json

namespace ApiError

/-- An error with its details. -/
def withDetails (e : ApiError) (details : Json) : ApiError := { e with details := some details }

/-- A request that is not valid. -/
def invalid (message : String) : ApiError := ⟨400, "INVALID_REQUEST", message, false, none⟩

/-- A request without valid authentication. -/
def authentication : ApiError := ⟨401, "AUTHENTICATION_REQUIRED", "认证信息无效或已过期", false, none⟩

/-- A failure of the service. -/
def internal : ApiError := ⟨500, "INTERNAL_ERROR", "服务暂时无法完成请求", true, none⟩

/-- A request that the account may not make. -/
def authorization : ApiError := ⟨403, "AUTHORIZATION_DENIED", "当前账号无权执行此操作", false, none⟩

/-- An account that may not be used. -/
def accountDisabled : ApiError := ⟨403, "ACCOUNT_DISABLED", "账号当前不可用", false, none⟩

end ApiError

/-- The error that is made of a stored failure of a push. Its stored status is not read. -/
def mapIdempotencyReplay (response : Json) (_status : ℤ) : ApiError :=
  match (response.get? "code").bind (·.str?) with
  | some "GENERATION_MISMATCH" =>
    (⟨409, "GENERATION_MISMATCH", "项目 generation 已变化，请重新 bootstrap", false, none⟩ :
      ApiError).withDetails ((response.get? "details").getD (.obj []))
  | some "CURSOR_INVALID" => ⟨409, "CURSOR_INVALID", "当前设备必须先完成 bootstrap", false, none⟩
  | some "PROJECT_MAINTENANCE" => ⟨423, "PROJECT_MAINTENANCE", "项目当前处于维护状态", true, none⟩
  | _ => .internal

/-- The error of the API for an error of the persistence layer; none when the request ended without
an answer. -/
def mapPersistence : PersistenceError → Option ApiError
  | .accountDisabled => some .accountDisabled
  | .deviceRevoked => some ⟨403, "DEVICE_REVOKED", "设备已被撤销", false, none⟩
  | .invalidRefreshToken | .refreshTokenReuse => some .authentication
  | .invalidInvitation => some (.invalid "邀请无效或已过期")
  | .adminRequired => some .authorization
  | .invalidAccountTransition =>
    some ⟨409, "INVALID_ACCOUNT_STATUS_TRANSITION", "账号状态转换无效", false, none⟩
  | .conflict => some ⟨409, "INVALID_REQUEST", "目标记录已存在", false, none⟩
  | .notFound => some ⟨404, "NOT_FOUND", "资源不存在", false, none⟩
  | .projectMaintenance => some ⟨423, "PROJECT_MAINTENANCE", "项目当前处于维护状态", true, none⟩
  | .generationMismatch expected actual =>
    some ((⟨409, "GENERATION_MISMATCH", "项目 generation 已变化，请重新 bootstrap", false, none⟩ :
      ApiError).withDetails
        (.obj [("expectedGeneration", .num expected), ("actualGeneration", .num actual)]))
  | .bootstrapRequired =>
    some ⟨409, "CURSOR_INVALID", "当前设备必须先完成 bootstrap", false, none⟩
  | .idempotencyConflict =>
    some ⟨409, "IDEMPOTENCY_CONFLICT", "幂等键已用于不同请求", false, none⟩
  | .idempotencyReplay response status => some (mapIdempotencyReplay response status)
  | .payloadNotFound => some ⟨404, "PAYLOAD_NOT_FOUND", "payload 不存在", false, none⟩
  | .invalidPayload => some (.invalid "payload 与对象类型不兼容")
  | .invalidRestoreTarget => some (.invalid "恢复目标无效")
  | .restoreNotReopenable =>
    some ⟨409, "RESTORE_NOT_REOPENABLE", "项目尚未通过恢复失败校验，不能重新开放", false, none⟩
  | .restoreCancelled => some ⟨409, "RESTORE_CANCELLED", "恢复任务已取消", false, none⟩
  | .accountPurgeNotReady =>
    some ⟨409, "ACCOUNT_PURGE_EXPORT_NOT_READY", "账号导出尚未完成或已过期", false, none⟩
  | .database _ => some .internal
  | .panicked => none

/-- The error of a route of one project. -/
def mapProjectError : PersistenceError → Option ApiError
  | .notFound => some ⟨404, "PROJECT_NOT_FOUND", "项目不存在", false, none⟩
  | e => mapPersistence e

/-- What the push route answers. -/
inductive PushAnswer where
  | ok (body : Json)
  | error (e : ApiError)

/-- The answer to a finished push; none when there is none. -/
def pushAnswer : Except PersistenceError Reply → Option PushAnswer
  | .ok (.pushed outcome) => some (.ok outcome.response)
  | .ok _ => none
  | .error e => (mapProjectError e).map .error

/-! ## What is stored -/

/-- A push that is answered for the first time, by its items or by a failure that is stored. -/
def AnswersAfresh (r : Except PersistenceError Reply) : Prop :=
  (∃ response, r = .ok (.pushed ⟨response, false⟩)) ∨
    ∃ error, r = .error error ∧ (pushFailureResponse error).isSome

/-- What a push gets from a record of its key. -/
def replayedResult (host : Host) (r : IdempotencyRecord) : Except PersistenceError Reply :=
  if r.responseStatus = 200 then .ok (.pushed ⟨migrateStoredPushResponse host r.response, true⟩)
  else .error (.idempotencyReplay r.response r.responseStatus)

/-- Two pushes have the same key. -/
def PushArgs.SameKey (a a' : PushArgs) : Prop :=
  a'.userId = a.userId ∧ a'.deviceId = a.deviceId ∧ a'.projectId = a.projectId ∧
    a'.requestKey = a.requestKey

/-- A record answers a push with the same key. -/
theorem answers_record {a a' : PushArgs} (h : a.SameKey a') (now : Timestamp) (response : Json)
    (status : ℤ) : (a.record now response status).answers a' = true := by
  obtain ⟨huser, hdevice, hproject, hkey⟩ := h
  simp [IdempotencyRecord.answers, PushArgs.record, huser, hdevice, hproject, hkey]

/-- A stored failure is answered as the failure was. -/
theorem mapProjectError_replay {a : PushArgs} {d : Db} {error : PersistenceError} {status : ℤ}
    {response : Json} (herror : PushFails a d error)
    (hresponse : pushFailureResponse error = some (status, response)) : status ≠ 200 ∧
      mapProjectError (.idempotencyReplay response status) = mapProjectError error := by
  cases herror with
  | maintenance hrow hstatus =>
    cases hresponse
    exact ⟨by decide, rfl⟩
  | generation hrow hgeneration =>
    cases hresponse
    exact ⟨by decide, rfl⟩
  | bootstrap =>
    cases hresponse
    exact ⟨by decide, rfl⟩

/-! ## Errors that roll a push back -/

/-- A failure that is not stored. -/
def Unstored (e : PersistenceError) : Prop := pushFailureResponse e = none

/-- The insertion of a row raises an error that is not stored. -/
theorem raises_insertRow (refused : Db → Option DatabaseError) (write : Db → Db) :
    (insertRow refused write).Raises Unstored := by
  refine Raises.bind (raises_query _) fun o => ?_
  cases o with
  | none => exact raises_modify _
  | some e => exact rfl

/-- So does one whose conflicts have another name. -/
theorem raises_mapConflict {α : Type} {x : Tx α}
    (hx : x.Raises fun e => Unstored (mapSqlxConflict e)) : (mapConflict x).Raises Unstored := by
  induction x with
  | pure a => exact trivial
  | throw e => exact hx
  | lock l k ih => exact ih hx
  | read k ih => exact fun s => ih s (hx s)
  | write w k ih => exact ih hx

/-- The record of a push raises an error that is not stored. -/
theorem raises_insertIdempotencyRecord (now : Timestamp) (a : PushArgs) (response : Json)
    (status : ℤ) :
    (mapConflict (insertIdempotencyRecord now a response status)).Raises Unstored := by
  refine raises_mapConflict (Raises.bind (raises_query _) fun o => ?_)
  cases o with
  | none => exact raises_modify _
  | some e => cases e <;> exact rfl

/-- The record of a failure raises an error that is not stored. -/
theorem raises_storePushFailure (now : Timestamp) (a : PushArgs) (error : PersistenceError) :
    (storePushFailure now a error).Raises Unstored := by
  unfold storePushFailure
  split
  · exact trivial
  · exact Raises.bind (raises_insertIdempotencyRecord _ _ _ _) fun _ => trivial

/-- A revision raises an error that is not stored. -/
theorem raises_appendRevision (role : DbRole) (now : Timestamp) (r : ObjectRevision) :
    (appendRevision role now r).Raises Unstored := by
  have hmissing : Unstored (.database .rowNotFound) := rfl
  refine Raises.bind (Raises.bind (raises_query _) fun o => Raises.bind (raises_orThrow hmissing o)
    fun row => Raises.bind (raises_modify _) fun _ => trivial) fun sequence => ?_
  refine Raises.bind (Raises.bind ?_ fun _ => Raises.bind (raises_insertRow _ _) fun _ => trivial)
    fun revisionId => Raises.bind (raises_modify _) fun _ =>
      Raises.bind (raises_insertRow _ _) fun _ => trivial
  cases r.payloadId with
  | none => exact trivial
  | some payloadId => exact raises_acquire _

/-- An item raises an error that is not stored. -/
theorem raises_pushItem (now : Timestamp) (a : PushArgs) (x : NewSyncRevision) :
    (pushItem now a x).Raises Unstored := by
  refine Raises.bind (raises_query _) fun actual => ?_
  split
  · exact trivial
  · refine Raises.bind ?_ fun payload => ?_
    · unfold itemPayload
      split
      · exact trivial
      · split
        · exact trivial
        · exact Raises.bind (raises_query _) fun _ => trivial
    · cases payload with
      | error rejected => exact trivial
      | ok payloadId => exact Raises.bind (raises_appendRevision _ _ _) fun _ => trivial

/-- So do all items. -/
theorem raises_pushItems (now : Timestamp) (a : PushArgs) (xs : List NewSyncRevision) :
    (pushItems now a xs).Raises Unstored := by
  induction xs with
  | nil => exact trivial
  | cons x xs ih =>
    exact Raises.bind (raises_pushItem now a x) fun _ => Raises.bind ih fun _ => trivial

/-- What rolls a push back is not an error that is stored. -/
theorem raises_pushWithOutcome (host : Host) (now : Timestamp) (a : PushArgs) :
    (pushWithOutcome host now a).Raises Unstored := by
  have hfail (error : PersistenceError) : (failPush now a error).Raises Unstored :=
    Raises.bind (Raises.bind (raises_storePushFailure _ _ _) fun _ => trivial) fun _ => trivial
  refine Raises.bind (raises_acquire _) fun _ => Raises.bind (raises_modify _) fun _ =>
    Raises.bind (raises_query _) fun rs => ?_
  cases rs.head? with
  | some r =>
    show (replayPush host a r).Raises Unstored
    unfold replayPush
    split
    · split <;> exact trivial
    · exact rfl
  | none =>
    refine Raises.bind (raises_attempt _) fun st => ?_
    rcases st with error | ⟨generation, sequence⟩
    · -- A failure rolls the push back when it is not stored, and only then.
      show Raises Unstored ((storePushFailure now a error).bind fun stored =>
        if stored = true then
          (.pure (Except.error error) : Tx (Except PersistenceError PushOutcome))
        else .throw error)
      unfold storePushFailure
      split
      · rename_i hnone
        exact hnone
      · rw [bind_eq, bind_assoc]
        exact Raises.bind (raises_insertIdempotencyRecord _ _ _ _) fun _ => trivial
    · dsimp only
      split
      · exact hfail _
      · refine Raises.bind (raises_query _) fun boot => ?_
        split
        · exact hfail _
        · have hpanicked : Unstored .panicked := rfl
          exact Raises.bind (raises_pushItems _ _ _) fun results => Raises.bind
            (raises_orThrow hpanicked _) fun response => Raises.bind (raises_insertRow _ _) fun _ =>
              Raises.bind (raises_modify _) fun _ => trivial

/-! ## The record of a push -/

section

variable {host : Host} {e : SyncEvent} {a a' : PushArgs}

/-- What a finished push did and returned. -/
theorem runs_of_push (hout : (service host).Outcome Db.Rely e)
    (hcall : e.request.call = .pushWithOutcome a) :
    (∃ H b r, Runs Db.Rely e.before (pushWithOutcome host e.request.now a) ∅ id (.ok r) H b ∧
      e.result = r.map .pushed ∧ e.after = b e.before) ∨
    (∃ H b x, Runs Db.Rely e.before (pushWithOutcome host e.request.now a) ∅ id (.error x) H b ∧
      e.result = .error x ∧ e.after = e.before) := by
  obtain ⟨H, b, ⟨hruns, hafter⟩ | ⟨x, hruns, herror, hafter⟩⟩ := hout
  · change Runs _ _ (e.request.call.body host e.request.now) ∅ id _ H b at hruns
    rw [hcall] at hruns
    obtain ⟨r, hpush, hr⟩ := runs_replying_iff.mp hruns
    exact .inl ⟨H, b, r, hpush, hr, hafter⟩
  · change Runs _ _ (e.request.call.body host e.request.now) ∅ id _ H b at hruns
    rw [hcall] at hruns
    rcases runs_bind_iff.mp hruns with ⟨y, hpush, hy⟩ | ⟨r, H₁, b₁, hpush, hpure⟩
    · cases hy
      exact .inr ⟨H, b, x, hpush, herror, hafter⟩
    · cases hpure

/-- A push that is answered afresh stores its answer. -/
theorem exists_storedRecord (hout : (service host).Outcome Db.Rely e)
    (hcall : e.request.call = .pushWithOutcome a) (hafresh : AnswersAfresh e.result) :
    ∃ response status, a.record e.request.now response status ∈ e.after.idempotencyRecords ∧
      pushAnswer (replayedResult host (a.record e.request.now response status)) =
        pushAnswer e.result := by
  rcases runs_of_push hout hcall with ⟨H, b, r, hpush, hr, hafter⟩ | ⟨H, b, x, hpush, hx, -⟩
  · obtain ⟨d, -, hrun⟩ := runs_pushWithOutcome hpush
    split at hrun
    · -- An answer from a record is not given afresh.
      exfalso
      unfold replayPush at hrun
      split at hrun
      · split at hrun
        · obtain ⟨hr', -, -⟩ := runs_pure_iff.mp hrun
          cases hr'
          rcases hafresh with ⟨response, h⟩ | ⟨error, h, -⟩ <;> rw [hr] at h <;> cases h
        · obtain ⟨hr', -, -⟩ := runs_pure_iff.mp hrun
          cases hr'
          rcases hafresh with ⟨response, h⟩ | ⟨error, h, hsome⟩
          · rw [hr] at h
            cases h
          · rw [hr] at h
            cases h
            cases hsome
      · cases hrun
    · -- The push was executed: its answer is in the record that it appended.
      have heffect := runs_executePush (b := Db.withoutExpired e.request.now a) (fun _ => rfl)
        (fun _ _ => rfl) hrun
      rw [← hafter] at heffect
      generalize e.after = d' at heffect
      cases heffect with
      | @failed error status response herror hresponse =>
        refine ⟨response, status, List.mem_append_right _ (List.mem_singleton.mpr rfl), ?_⟩
        obtain ⟨hstatus, hanswer⟩ := mapProjectError_replay herror hresponse
        have hreplay : replayedResult host (a.record e.request.now response status) =
            .error (.idempotencyReplay response status) := if_neg hstatus
        rw [hr, hreplay]
        exact congrArg (Option.map PushAnswer.error) hanswer
      | @applied row results rs response hrow hactive hgeneration hbootstrapped hitems hresponse =>
        refine ⟨response, 200, List.mem_append_right _ (List.mem_singleton.mpr rfl), ?_⟩
        have hreplay : replayedResult host (a.record e.request.now response 200) =
            .ok (.pushed ⟨migrateStoredPushResponse host response, true⟩) := if_pos rfl
        rw [hr, hreplay]
        exact congrArg (some ∘ PushAnswer.ok)
          (migrateStoredPushResponse_pushResponseJson host hresponse)
  · -- A push that was rolled back answers with an error that is not stored.
    exfalso
    have hunstored := hpush.raises (raises_pushWithOutcome host _ a)
    rcases hafresh with ⟨response, h⟩ | ⟨error, h, hsome⟩
    · rw [hx] at h
      cases h
    · rw [hx] at h
      cases h
      rw [Unstored.eq_1] at hunstored
      rw [hunstored] at hsome
      cases hsome

/-- A record that is not expired stays. -/
theorem EventEffect.record_mem (h : EventEffect host e) {r : IdempotencyRecord}
    (hr : r ∈ e.before.idempotencyRecords) (hlive : e.request.now < r.expiresAt) :
    r ∈ e.after.idempotencyRecords := by
  have hkept (a : PushArgs) : r ∈ (e.before.withoutExpired e.request.now a).idempotencyRecords :=
    List.mem_filter.mpr ⟨hr, by simp [not_le.mpr hlive]⟩
  cases h with
  | unchanged h => rwa [h]
  | quiet hquiet h htouches => rwa [h.records]
  | created hcall hnone hseq hgeneration h | collected hcall h | completed hcall hresult hlast h =>
    rw [h]
    exact hr
  | purged hcall h =>
    rw [h]
    exact List.mem_filter.mpr ⟨hr, by simp [not_le.mpr hlive]⟩
  | replayed hcall h =>
    rw [h]
    exact hkept _
  | pushed hcall hresult hnew h =>
    generalize e.after = d' at h
    cases h with
    | failed => exact List.mem_append_left _ (hkept _)
    | applied =>
      show r ∈ (Db.appendAll _ _ _).idempotencyRecords ++ _
      rw [Db.appendAll_eq]
      exact List.mem_append_left _ (hkept _)
  | restored hcall hresult h =>
    generalize e.after = d' at h
    obtain ⟨⟩ := h
    show r ∈ (Db.appendAll _ _ _).idempotencyRecords
    rw [Db.appendAll_eq]
    exact hr

/-- A record stays until a request that ends after it expired. -/
theorem record_mem_of_trail {s s' : Db} {l : List SyncEvent} {t : ℤ} {r : IdempotencyRecord}
    (htr : (service host).Trail Db.Sound Db.Rely s l s' t) (hr : r ∈ s.idempotencyRecords)
    (hlive : ∀ f ∈ l, f.clock < r.expiresAt) : r ∈ s'.idempotencyRecords := by
  refine htr.invariant (J := fun h d => (∀ f ∈ h, f.clock < r.expiresAt) →
    r ∈ d.idempotencyRecords) (fun _ => hr) (fun h f _ htime _ hout hbefore _ ih hall => ?_) hlive
  have hf := hall f (by simp)
  exact (eventEffect_of_outcome hbefore hout).record_mem
    (ih fun f' hf' => hall f' (List.mem_append_left _ hf')) (lt_of_le_of_lt htime hf)

/-- A push whose key has a record that is not expired changes nothing and gets its answer. -/
theorem replay_of_record (hsound : e.before.Sound) (hout : (service host).Outcome Db.Rely e)
    (hcall : e.request.call = .pushWithOutcome a) {r : IdempotencyRecord}
    (hr : r ∈ e.before.idempotencyRecords) (hanswers : r.answers a = true)
    (hlive : e.request.now < r.expiresAt) : e.after = e.before ∧
      e.result = if r.requestHash = a.requestHash then replayedResult host r
        else .error .idempotencyConflict := by
  have hmem : r ∈ e.before.recordsFor a := List.mem_filter.mpr ⟨hr, hanswers⟩
  -- The record is the only one of its key, wherever the push reads it.
  have hread : ∀ d, Db.Rely {.push a.userId a.deviceId a.requestKey} d e.before →
      ((d.withoutExpired e.request.now a).recordsFor a).head? = some r := by
    intro d hd
    have hmem' : r ∈ d.recordsFor a := (hd.recordsFor rfl).subset hmem
    have hone := hd.sound.records a
    obtain ⟨x, hx⟩ := List.length_eq_one_iff.mp (le_antisymm hone (List.length_pos_of_mem hmem'))
    rw [hx, List.mem_singleton] at hmem'
    rw [recordsFor_withoutExpired, hx, ← hmem', List.filter_singleton]
    simp [hlive]
  have hkept : e.before.withoutExpired e.request.now a = e.before := by
    have hfilter : e.before.idempotencyRecords.filter
        (fun x => !(x.answers a && x.expiresAt ≤ e.request.now)) = e.before.idempotencyRecords := by
      refine List.filter_eq_self.mpr fun x hx => ?_
      by_cases hxa : x.answers a = true
      · -- Another record of the key would be a second one.
        have hx' : x ∈ e.before.recordsFor a := List.mem_filter.mpr ⟨hx, hxa⟩
        obtain ⟨y, hy⟩ := List.length_eq_one_iff.mp
          (le_antisymm (hsound.records a) (List.length_pos_of_mem hmem))
        rw [hy, List.mem_singleton] at hx' hmem
        rw [hx', ← hmem]
        simp [not_le.mpr hlive]
      · simp [hxa]
    unfold Db.withoutExpired
    rw [hfilter]
  rcases runs_of_push hout hcall with ⟨H, b, o, hpush, ho, hafter⟩ | ⟨H, b, x, hpush, hx, hafter⟩
  · obtain ⟨d, hd, hrun⟩ := runs_pushWithOutcome hpush
    rw [hread d hd] at hrun
    change Runs _ _ (replayPush host a r) _ _ _ _ _ at hrun
    unfold replayPush at hrun
    split at hrun
    · rename_i hhash
      rw [if_pos hhash, replayedResult]
      split at hrun
      · rename_i hstatus
        obtain ⟨ho', -, rfl⟩ := runs_pure_iff.mp hrun
        cases ho'
        exact ⟨hafter.trans hkept, by rw [ho, if_pos hstatus]; rfl⟩
      · rename_i hstatus
        obtain ⟨ho', -, rfl⟩ := runs_pure_iff.mp hrun
        cases ho'
        exact ⟨hafter.trans hkept, by rw [ho, if_neg hstatus]; rfl⟩
    · cases hrun
  · obtain ⟨d, hd, hrun⟩ := runs_pushWithOutcome hpush
    rw [hread d hd] at hrun
    change Runs _ _ (replayPush host a r) _ _ _ _ _ at hrun
    unfold replayPush at hrun
    split at hrun
    · split at hrun <;> cases hrun
    · rename_i hhash
      cases hrun
      exact ⟨hafter, by rw [if_neg hhash, hx]⟩

/-- A push is executed at most once: after it was answered for the first time, every push with its
key that ends while the answer is kept leaves the database as it is; the same request gets the same
answer, and another one a conflict. -/
theorem push_answered_once {users : List UserRow}
    {w : World Db Lock PersistenceError Reply Request}
    (hw : (service host).Reachable (.initial users) w) {h₁ h₂ h₃ : List SyncEvent} {e' : SyncEvent}
    (hsplit : w.history = h₁ ++ e :: (h₂ ++ e' :: h₃))
    (hcall : e.request.call = .pushWithOutcome a) (hcall' : e'.request.call = .pushWithOutcome a')
    (hkey : a.SameKey a') (hafresh : AnswersAfresh e.result)
    (hwindow : e'.clock < e.request.now + idempotencyWindow) : e'.after = e'.before ∧
      (a'.requestHash = a.requestHash → pushAnswer e'.result = pushAnswer e.result) ∧
      (a'.requestHash ≠ a.requestHash → e'.result = .error .idempotencyConflict) := by
  have htr := reachable_trail hw
  rw [hsplit] at htr
  obtain ⟨-, -, hout, hbefore, -, htr', -, -⟩ := htr.split
  obtain ⟨response, status, hrecord, hanswer⟩ := exists_storedRecord hout hcall hafresh
  obtain ⟨htr₂, htime', hout', hbefore', -, -, -, -⟩ := htr'.split
  -- The requests in between end before the record expires.
  have hmem := record_mem_of_trail htr₂ hrecord fun f hf =>
    lt_of_le_of_lt (htr₂.clock_le f hf) hwindow
  obtain ⟨hafter, hresult⟩ := replay_of_record hbefore' hout' hcall' hmem
    (answers_record hkey _ _ _) (lt_of_le_of_lt htime' hwindow)
  change _ = if a.requestHash = a'.requestHash then _ else _ at hresult
  refine ⟨hafter, fun hhash => ?_, fun hhash => ?_⟩
  · rw [hresult, if_pos hhash.symm, hanswer]
  · rw [hresult, if_neg (Ne.symm hhash)]

end

/-- The sample push twice, and another one with its key. -/
def repeatedPushes : List Request :=
  sampleSetup ++ [⟨1, samplePush 1 "a" [sampleItem "x" none false]⟩,
    ⟨2, samplePush 1 "a" [sampleItem "x" none false]⟩,
    ⟨3, .pushWithOutcome ⟨1, 3, 2, 1, "a", "b", [sampleItem "y" none false]⟩⟩]

/-- A repeated push is answered as before, and a different one with the conflict. -/
theorem repeatedPushes_answered :
    (sampleEvent repeatedPushes ⟨6, by decide⟩).after =
        (sampleEvent repeatedPushes ⟨6, by decide⟩).before ∧
      pushAnswer (sampleEvent repeatedPushes ⟨6, by decide⟩).result =
        pushAnswer (sampleEvent repeatedPushes ⟨5, by decide⟩).result ∧
      (sampleEvent repeatedPushes ⟨7, by decide⟩).result = .error .idempotencyConflict := by
  -- The setup ends before the first of the pushes.
  have hsplit : (sampleWorld repeatedPushes).history =
      (sampleWorld repeatedPushes).history.take 5 ++ sampleEvent repeatedPushes ⟨5, by decide⟩ ::
        ([sampleEvent repeatedPushes ⟨6, by decide⟩] ++
          sampleEvent repeatedPushes ⟨7, by decide⟩ :: []) := rfl
  have hcall : (sampleEvent repeatedPushes ⟨5, by decide⟩).request.call =
      samplePush 1 "a" [sampleItem "x" none false] := rfl
  have hagain : (sampleEvent repeatedPushes ⟨6, by decide⟩).request.call =
      samplePush 1 "a" [sampleItem "x" none false] := rfl
  have hother : (sampleEvent repeatedPushes ⟨7, by decide⟩).request.call =
      .pushWithOutcome ⟨1, 3, 2, 1, "a", "b", [sampleItem "y" none false]⟩ := rfl
  have hagain' : (sampleWorld repeatedPushes).history =
      (sampleWorld repeatedPushes).history.take 5 ++ sampleEvent repeatedPushes ⟨5, by decide⟩ ::
        ([] ++ sampleEvent repeatedPushes ⟨6, by decide⟩ ::
          [sampleEvent repeatedPushes ⟨7, by decide⟩]) := hsplit
  have hsame := push_answered_once (reachable_sampleWorld (by decide)) hagain' hcall hagain
    ⟨rfl, rfl, rfl, rfl⟩ (.inl ⟨_, rfl⟩) (by decide)
  have hconflict := push_answered_once (reachable_sampleWorld (by decide)) hsplit hcall hother
    ⟨rfl, rfl, rfl, rfl⟩ (.inl ⟨_, rfl⟩) (by decide)
  exact ⟨hsame.1, hsame.2.1 rfl, hconflict.2.2 (by decide)⟩

end TaskTipsCloud
