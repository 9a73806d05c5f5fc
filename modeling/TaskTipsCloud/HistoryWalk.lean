import TaskTipsCloud.Encoders
import TaskTipsCloud.SnapshotRestore

/-!
# Walking through the history

The two history routes of `crates/api/src/routes.rs` and the walk of a client that follows
`nextSequence` from page to page, while other requests append to the change log between its pages.
The walk returns what matches its filter once each, in the order of the sequences.
-/

namespace TaskTipsCloud

open Txn

/-! ## The routes -/

/-- The query of a history route. -/
structure HistoryQuery where
  afterSequence : Option ℤ
  limit : Option ℤ
  kind : Option String
  objectId : Option String

/-- What a history lists. -/
structure HistoryArgs where
  kind : Option ObjectKind
  objectId : Option String
  afterSequence : ℤ
  limit : ℤ

/-- A limit in its bounds. -/
def validLimit (value : Option ℤ) (default_ maximum : ℤ) : Except String ℤ :=
  let value := value.getD default_
  if 1 ≤ value ∧ value ≤ maximum then .ok value else .error "分页 limit 无效"

/-- The kind that a query names. -/
def queryKind : Option String → Except String (Option ObjectKind)
  | none => .ok none
  | some value =>
    match ObjectKind.parse value with
    | some kind => .ok (some kind)
    | none => .error "对象类型无效"

/-- Checks the query of a history, of a kind and an object that its path may name. -/
def historyArgs (query : HistoryQuery) (kind : Option ObjectKind) (objectId : Option String) :
    Except String HistoryArgs := do
  if query.afterSequence.getD 0 < 0 then .error "afterSequence 无效"
  else if query.objectId.isSome ∧ kind.isNone then .error "history 查询条件无效"
  else
    let queriedKind ← queryKind query.kind
    let limit ← validLimit query.limit 200 1000
    return { kind := kind.or queriedKind, objectId := objectId.or query.objectId,
             afterSequence := query.afterSequence.getD 0, limit := limit }

/-- The arguments of `history`. -/
def historyRoute (query : HistoryQuery) : Except String HistoryArgs := historyArgs query none none

/-- The arguments of `object_history`. -/
def objectHistoryRoute (kind : String) (objectId : String) (query : HistoryQuery) :
    Except String HistoryArgs :=
  match ObjectKind.parse kind with
  | some kind => historyArgs query (some kind) (some objectId)
  | none => .error "对象类型无效"

/-- The bounds of what is accepted. -/
theorem historyArgs_bounds {query : HistoryQuery} {kind : Option ObjectKind}
    {objectId : Option String} {a : HistoryArgs} (h : historyArgs query kind objectId = .ok a) :
    0 ≤ a.afterSequence ∧ 1 ≤ a.limit ∧ a.limit ≤ 1000 := by
  unfold historyArgs at h
  split at h
  · cases h
  · rename_i hafter
    split at h
    · cases h
    · rcases hkind : queryKind query.kind with e | queriedKind
      · rw [hkind] at h
        cases h
      · rw [hkind] at h
        unfold validLimit at h
        dsimp only at h
        split at h
        · rename_i hlimit
          cases h
          exact ⟨not_lt.mp hafter, hlimit⟩
        · cases h

/-- The arguments that one of the two routes accepts. -/
def AcceptedHistory (a : HistoryArgs) : Prop :=
  ∃ query, historyRoute query = .ok a ∨
    ∃ kind objectId, objectHistoryRoute kind objectId query = .ok a

/-- What the routes accept is within the bounds that they check. -/
theorem AcceptedHistory.bounds {a : HistoryArgs} (h : AcceptedHistory a) :
    0 ≤ a.afterSequence ∧ 1 ≤ a.limit ∧ a.limit ≤ 1000 := by
  obtain ⟨query, h | ⟨kind, objectId, h⟩⟩ := h
  · exact historyArgs_bounds h
  · unfold objectHistoryRoute at h
    split at h
    · exact historyArgs_bounds h
    · cases h

/-- The answer of a history route. -/
structure HistoryPage where
  items : List SyncRecord
  hasMore : Bool
  nextSequence : Option ℤ

/-- Answers a history route. -/
def historyResponse (userId projectId : Uuid) (a : HistoryArgs) :
    Tx (Except PersistenceError HistoryPage) := do
  match ← listHistory userId projectId a.kind a.objectId a.afterSequence a.limit with
  | .error e => return .error e
  | .ok (records, hasMore) =>
    let nextSequence := (records.getLast?.filter fun _ => hasMore).map (·.changeSequence)
    return .ok ⟨records, hasMore, nextSequence⟩

/-! ## The walk -/

/-- A walk through the history of a project after a sequence: each page is read from a state of the
service, which goes on between the pages; the next page is that after `nextSequence`, with any limit
that the route accepts, and the walk ends when it is absent. -/
inductive HistoryWalk (host : Host) (userId projectId : Uuid) (kind : Option ObjectKind)
    (objectId : Option String) :
    ℤ → World Db Lock PersistenceError Reply Request → List SyncRecord →
      World Db Lock PersistenceError Reply Request → Prop
  | last {afterSequence limit : ℤ} {w : World Db Lock PersistenceError Reply Request}
      {page : HistoryPage} (haccepted : AcceptedHistory ⟨kind, objectId, afterSequence, limit⟩)
      (hpage : (historyResponse userId projectId ⟨kind, objectId, afterSequence, limit⟩).run
        w.committed = (.ok (.ok page), w.committed))
      (hnext : page.nextSequence = none) :
      HistoryWalk host userId projectId kind objectId afterSequence w page.items w
  | more {afterSequence limit next : ℤ}
      {w w' w'' : World Db Lock PersistenceError Reply Request}
      {page : HistoryPage} {rest : List SyncRecord}
      (haccepted : AcceptedHistory ⟨kind, objectId, afterSequence, limit⟩)
      (hpage : (historyResponse userId projectId ⟨kind, objectId, afterSequence, limit⟩).run
        w.committed = (.ok (.ok page), w.committed))
      (hnext : page.nextSequence = some next)
      (hsteps : Relation.ReflTransGen (service host).Step w w')
      (hrest : HistoryWalk host userId projectId kind objectId next w' rest w'') :
      HistoryWalk host userId projectId kind objectId afterSequence w (page.items ++ rest) w''

section

variable {host : Host} {userId p : Uuid} {kind : Option ObjectKind} {objectId : Option String}
  {afterSequence limit : ℤ} {d : Db}

/-- Whether a record is listed. -/
def listed (kind : Option ObjectKind) (objectId : Option String) (record : SyncRecord) : Bool :=
  kind.all fun kind => record.kind == kind && objectId.all (record.id == ·)

/-- The records of a visible project that are listed, in the order of their sequences. -/
theorem historyRecords_eq (hd : d.Coherent) {row : ProjectRow}
    (hrow : visibleProject (.app userId) p d = some row) :
    historyRecords (.app userId) p kind objectId afterSequence d =
      (history (d.revisionsOf p)).filter fun v =>
        afterSequence < v.changeSequence && listed kind objectId v := by
  obtain ⟨hproject, -⟩ := visibleProject_eq_some_iff.mp hrow
  have hx := hd.data hproject
  have hrecords : ((d.data p).visible (.app userId)).records = history (d.revisionsOf p) := by
    rw [hd.visible hrow]
    exact hx.records_eq
  unfold historyRecords recordsAfter
  have hsorted := hx.isHistory.orderBySequence_filter fun v => afterSequence < v.changeSequence
  change orderBySequence ((history (d.revisionsOf p)).filter _) = _ at hsorted
  rw [hrecords, hsorted]
  change _ = (history (d.data p).revisions).filter _
  rw [List.filter_filter]
  refine List.filter_congr fun v _ => ?_
  rw [Bool.and_comm]
  rfl

/-- The records that are listed have growing sequences. -/
theorem pairwise_historyRecords (hd : d.Coherent) {row : ProjectRow}
    (hrow : visibleProject (.app userId) p d = some row) :
    (historyRecords (.app userId) p kind objectId afterSequence d).Pairwise fun v v' =>
      v.changeSequence < v'.changeSequence := by
  obtain ⟨hproject, -⟩ := visibleProject_eq_some_iff.mp hrow
  rw [historyRecords_eq hd hrow]
  exact (hd.data hproject).isHistory.pairwise_sequence.sublist List.filter_sublist

/-- The rows after the last row of a page are the rest of the rows. -/
theorem historyRecords_after (hd : d.Coherent) {row : ProjectRow}
    (hrow : visibleProject (.app userId) p d = some row) {n : ℕ} {last : SyncRecord}
    (hlast : ((historyRecords (.app userId) p kind objectId afterSequence d).take n).getLast? =
      some last) :
    historyRecords (.app userId) p kind objectId last.changeSequence d =
      (historyRecords (.app userId) p kind objectId afterSequence d).drop n := by
  have hmem := List.mem_of_mem_take (List.mem_of_getLast? hlast)
  rw [← filter_after_last (pairwise_historyRecords hd hrow) hlast]
  rw [historyRecords_eq hd hrow] at hmem ⊢
  have hafter := List.of_mem_filter hmem
  rw [Bool.and_eq_true, decide_eq_true_eq] at hafter
  rw [historyRecords_eq hd hrow, List.filter_filter]
  refine List.filter_congr fun v _ => ?_
  rw [Bool.eq_iff_iff]
  simp only [Bool.and_eq_true, decide_eq_true_eq]
  constructor
  · exact fun h => ⟨h.1, hafter.1.trans h.1, h.2⟩
  · exact fun h => ⟨h.1, h.2.2⟩

/-- What a page answers. -/
theorem run_historyResponse {page : HistoryPage} (hlimit : 1 ≤ limit)
    (h : (historyResponse userId p ⟨kind, objectId, afterSequence, limit⟩).run d =
      (.ok (.ok page), d)) :
    (∃ row, visibleProject (.app userId) p d = some row) ∧
      ((page.nextSequence = none ∧
          page.items = historyRecords (.app userId) p kind objectId afterSequence d) ∨
        ∃ last, page.nextSequence = some last.changeSequence ∧ page.items.getLast? = some last ∧
          page.items =
            (historyRecords (.app userId) p kind objectId afterSequence d).take limit.toNat ∧
          limit < (historyRecords (.app userId) p kind objectId afterSequence d).length) := by
  -- One record more than the page is asked for, to see whether there are more.
  have hlook := lookAhead_eq (historyRecords (.app userId) p kind objectId afterSequence d)
    (show (0 : ℤ) ≤ limit by omega)
  simp only [historyResponse, listHistory, ensureProjectVisible, bind_eq, query_bind, run_bind,
    run_read, run_require, pure_eq] at h
  cases hrow : visibleProject (.app userId) p d with
  | none =>
    rw [hrow] at h
    cases h
  | some row =>
    refine ⟨⟨row, rfl⟩, ?_⟩
    rw [hrow, Option.any_some] at h
    cases hvisible : (row.status != .disabled && row.status != .deleting) with
    | false =>
      rw [hvisible] at h
      cases h
    | true =>
      rw [hvisible] at h
      simp only [if_true, run_pure] at h
      rw [hlook] at h
      by_cases hmore : limit <
          (historyRecords (.app userId) p kind objectId afterSequence d).length
      · rw [if_pos hmore] at h
        cases h
        right
        have hne : ((historyRecords (.app userId) p kind objectId afterSequence d).take
            limit.toNat) ≠ [] := by
          intro hnil
          have hlength := congrArg List.length hnil
          rw [List.length_take, List.length_nil] at hlength
          omega
        refine ⟨_, ?_, List.getLast?_eq_getLast_of_ne_nil hne, rfl, hmore⟩
        dsimp only
        rw [List.getLast?_eq_getLast_of_ne_nil hne]
        rfl
      · rw [if_neg hmore] at h
        cases h
        left
        refine ⟨?_, rfl⟩
        dsimp only
        cases List.getLast? (historyRecords (.app userId) p kind objectId afterSequence d) <;> rfl

end

/-! ## What a walk returns -/

section

variable {host : Host} {users : List UserRow} {userId p : Uuid} {kind : Option ObjectKind}
  {objectId : Option String} {afterSequence : ℤ} {records : List SyncRecord}
  {w w' : World Db Lock PersistenceError Reply Request}

/-- While a run goes on, the revisions of a project only grow. -/
theorem revisions_grow (hw : (service host).Reachable (.initial users) w)
    (hsteps : Relation.ReflTransGen (service host).Step w w') (p : Uuid) :
    w.committed.revisionsOf p <+: w'.committed.revisionsOf p :=
  hw.related (relies_service host) (sound_initial users) hsteps (P := fun d d' =>
    d.revisionsOf p <+: d'.revisionsOf p) (fun _ => List.prefix_refl _) (fun h h' => h.trans h')
    fun _ hout hsound => ((eventEffect_of_outcome hsound hout).projectStep p).revisions_grow

/-- A history goes on with what is appended. -/
theorem history_grow {rs rs' : List ObjectRevision} (h : rs <+: rs') :
    history rs <+: history rs' := by
  have htake := history_take_of_prefix h
  rw [← htake]
  exact List.take_prefix _ _

/-- The worlds of a walk follow each other. -/
theorem HistoryWalk.steps (h : HistoryWalk host userId p kind objectId afterSequence w records w') :
    Relation.ReflTransGen (service host).Step w w' := by
  induction h with
  | last => exact .refl
  | more _ _ _ hsteps _ ih => exact hsteps.trans ih

/-- A walk ends on a state in which the project is visible. -/
theorem HistoryWalk.visible
    (h : HistoryWalk host userId p kind objectId afterSequence w records w') :
    ∃ row, visibleProject (.app userId) p w'.committed = some row := by
  induction h with
  | last haccepted hpage hnext => exact (run_historyResponse haccepted.bounds.2.1 hpage).1
  | more _ _ _ _ _ ih => exact ih

/-- A walk returns the records that its last state lists. -/
theorem HistoryWalk.records_eq (hw : (service host).Reachable (.initial users) w)
    (h : HistoryWalk host userId p kind objectId afterSequence w records w') :
    records = historyRecords (.app userId) p kind objectId afterSequence w'.committed := by
  induction h with
  | last haccepted hpage hnext =>
    obtain ⟨-, ⟨-, hitems⟩ | ⟨_, hsome, -⟩⟩ := run_historyResponse haccepted.bounds.2.1 hpage
    · exact hitems
    · rw [hnext] at hsome
      cases hsome
  | @more afterSequence limit next w w' w'' page rest haccepted hpage hnext hsteps hrest ih =>
    obtain ⟨⟨row, hrow⟩, ⟨hnone, -⟩ | ⟨last, hsome, hlast, hitems, hmore⟩⟩ :=
      run_historyResponse haccepted.bounds.2.1 hpage
    · rw [hnext] at hnone
      cases hnone
    · rw [hnext] at hsome
      cases hsome
      obtain ⟨t, hfrom⟩ := hw
      have hw' : (service host).Reachable (.initial users) w' := ⟨t, hfrom.trans hsteps⟩
      have hw'' : (service host).Reachable (.initial users) w'' :=
        ⟨t, (hfrom.trans hsteps).trans hrest.steps⟩
      have hinv := Service.Reachable.inv (relies_service host) (sound_initial users) ⟨t, hfrom⟩
      have hd := hinv.coherent
      have hd'' := (hw''.inv (relies_service host) (sound_initial users)).coherent
      obtain ⟨row'', hrow''⟩ := hrest.visible
      -- What the page was taken from is the beginning of what the last state lists.
      have hgrow := history_grow
        (revisions_grow ⟨t, hfrom⟩ (hsteps.trans hrest.steps) p)
      have hbegins : historyRecords (.app userId) p kind objectId afterSequence w.committed <+:
          historyRecords (.app userId) p kind objectId afterSequence w''.committed := by
        rw [historyRecords_eq hd hrow, historyRecords_eq hd'' hrow'']
        exact hgrow.filter _
      have htake : page.items = (historyRecords (.app userId) p kind objectId afterSequence
          w''.committed).take limit.toNat := by
        obtain ⟨extra, hextra⟩ := hbegins
        rw [hitems, ← hextra, List.take_append_of_le_length]
        dsimp only at hmore
        omega
      rw [htake] at hlast
      rw [ih hw', historyRecords_after hd'' hrow'' hlast, htake, List.take_append_drop]

/-- A walk starts on a state in which the project is visible. -/
theorem HistoryWalk.visible_start
    (h : HistoryWalk host userId p kind objectId afterSequence w records w') :
    ∃ row, visibleProject (.app userId) p w.committed = some row := by
  cases h with
  | last haccepted hpage hnext => exact (run_historyResponse haccepted.bounds.2.1 hpage).1
  | more haccepted hpage hnext hsteps hrest =>
    exact (run_historyResponse haccepted.bounds.2.1 hpage).1

/-- The records of a history are those of the revisions with their entries. -/
theorem mem_history_iff_logged {d : Db} {row : ProjectRow} (hx : (d.data row.id).Coherent row)
    {v : SyncRecord} :
    v ∈ history (d.revisionsOf row.id) ↔ ∃ r c, d.Logged row.id r c ∧ v = r.syncRecord c := by
  rw [mem_history]
  constructor
  · rintro ⟨r, i, hr, rfl⟩
    have hlog : d.logOf row.id = logEntries (d.revisionsOf row.id) := hx.log
    refine ⟨r, r.entry i, ⟨List.fst_mem_of_mem_zipIdx hr, ?_, rfl⟩, rfl⟩
    rw [hlog]
    exact List.mem_map.mpr ⟨(r, i), hr, rfl⟩
  · rintro ⟨r, c, hlogged, rfl⟩
    obtain ⟨i, hi, rfl⟩ := mem_zipIdx_of_logged hx hlogged
    exact ⟨r, i, hi, rfl⟩

/-- A walk through the history of a project returns, in the order of their sequences, entries of the
change log that match its filter, and every matching entry that existed when the walk started
exactly once. -/
theorem history_walk_exact (hw : (service host).Reachable (.initial users) w)
    (h : HistoryWalk host userId p kind objectId afterSequence w records w') :
    (records.Pairwise fun v v' => v.changeSequence < v'.changeSequence) ∧
      (∀ v ∈ records, ∃ r c, w'.committed.Logged p r c ∧ v = r.syncRecord c ∧
        afterSequence < c.sequence ∧ listed kind objectId v = true) ∧
      ∀ r c, w.committed.Logged p r c → afterSequence < c.sequence →
        listed kind objectId (r.syncRecord c) = true → records.count (r.syncRecord c) = 1 := by
  obtain ⟨row, hrow⟩ := h.visible_start
  obtain ⟨row', hrow'⟩ := h.visible
  have hsteps := h.steps
  have hw' : (service host).Reachable (.initial users) w' := by
    obtain ⟨t, hfrom⟩ := hw
    exact ⟨t, hfrom.trans hsteps⟩
  have hd := (hw.inv (relies_service host) (sound_initial users)).coherent
  have hd' := (hw'.inv (relies_service host) (sound_initial users)).coherent
  have hproject := (visibleProject_eq_some_iff.mp hrow).1
  have hproject' := (visibleProject_eq_some_iff.mp hrow').1
  have hx := hd.data hproject
  have hx' := hd'.data hproject'
  have hid := Db.id_of_project hproject
  have hid' := Db.id_of_project hproject'
  -- The pages together are the records that match at the end of the walk.
  have heq := h.records_eq hw
  have hpairwise : records.Pairwise fun v v' => v.changeSequence < v'.changeSequence := by
    rw [heq]
    exact pairwise_historyRecords hd' hrow'
  refine ⟨hpairwise, fun v hv => ?_, fun r c hlogged hafter hlisted => ?_⟩
  · rw [heq, historyRecords_eq hd' hrow', List.mem_filter, Bool.and_eq_true,
      decide_eq_true_eq] at hv
    obtain ⟨hmem, hafter, hlisted⟩ := hv
    subst hid'
    obtain ⟨r, c, hlogged, rfl⟩ := (mem_history_iff_logged hx').mp hmem
    exact ⟨r, c, hlogged, rfl, hafter, hlisted⟩
  · have hnodup : records.Nodup := hpairwise.imp fun hlt heq => by
      rw [heq] at hlt
      exact absurd hlt (lt_irrefl _)
    refine List.count_eq_one_of_mem hnodup ?_
    rw [heq, historyRecords_eq hd' hrow', List.mem_filter, Bool.and_eq_true, decide_eq_true_eq]
    refine ⟨(history_grow (revisions_grow hw hsteps p)).subset ?_, hafter, hlisted⟩
    subst hid
    exact (mem_history_iff_logged hx).mpr ⟨r, c, hlogged, rfl⟩

end

/-- The first three records of the sample pushes, and those after them. -/
def samplePages : List SyncRecord × List SyncRecord :=
  let d := (sampleWorld (sampleSetup ++ samplePushes)).committed
  ((historyRecords (.app 1) 2 none none 0 d).take 3, historyRecords (.app 1) 2 none none 3 d)

/-- A walk in pages of three. -/
theorem samplePages_walk : HistoryWalk sampleHost 1 2 none none 0
    (sampleWorld (sampleSetup ++ samplePushes)) (samplePages.1 ++ samplePages.2)
    (sampleWorld (sampleSetup ++ samplePushes)) := by
  have haccepted : ∀ s : ℤ, 0 ≤ s → AcceptedHistory ⟨none, none, s, 3⟩ := by
    intro s hs
    refine ⟨⟨some s, some 3, none, none⟩, .inl ?_⟩
    unfold historyRoute historyArgs
    rw [Option.getD_some, if_neg (not_lt.mpr hs)]
    rfl
  have hfirst : (historyResponse 1 2 ⟨none, none, 0, 3⟩).run
      (sampleWorld (sampleSetup ++ samplePushes)).committed =
      (.ok (.ok ⟨samplePages.1, true, some 3⟩),
        (sampleWorld (sampleSetup ++ samplePushes)).committed) := rfl
  have hsecond : (historyResponse 1 2 ⟨none, none, 3, 3⟩).run
      (sampleWorld (sampleSetup ++ samplePushes)).committed =
      (.ok (.ok ⟨samplePages.2, false, none⟩),
        (sampleWorld (sampleSetup ++ samplePushes)).committed) := rfl
  exact .more (haccepted 0 (by decide)) hfirst rfl .refl
    (.last (haccepted 3 (by decide)) hsecond rfl)

/-- The walk returns the four records of the sample pushes. -/
theorem samplePages_exact :
    (samplePages.1 ++ samplePages.2).map (·.changeSequence) = [1, 2, 3, 4] ∧
      ∀ r c, (sampleWorld (sampleSetup ++ samplePushes)).committed.Logged 2 r c →
        0 < c.sequence → listed none none (r.syncRecord c) = true →
          (samplePages.1 ++ samplePages.2).count (r.syncRecord c) = 1 :=
  ⟨by decide +kernel,
    (history_walk_exact (reachable_sampleWorld (by decide)) samplePages_walk).2.2⟩

end TaskTipsCloud
