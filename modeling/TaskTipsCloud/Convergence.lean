import TaskTipsCloud.Fencing
import TaskTipsCloud.HistoryWalk
import TaskTipsCloud.Library.Replicas

/-!
# Convergence of a device

The client side of a synchronisation: a device reads the pages of its bootstrap manifest, and then
pulls from the cursor that each answer gives it, with any limits that the routes accept, while other
requests run between its own. The device applies what it receives in order. After a pull that says
that there is no more it holds the heads of the project.
-/

namespace TaskTipsCloud

open Txn Versions Replicas

/-! ## The client -/

/-- The page size that a bootstrap or a pull accepts. -/
def AcceptedLimit (limit : ℤ) : Prop := ∃ value, validLimit value 200 1000 = .ok limit

/-- An accepted limit asks for at least one record. -/
theorem AcceptedLimit.pos {limit : ℤ} (h : AcceptedLimit limit) : 1 ≤ limit := by
  obtain ⟨value, h⟩ := h
  unfold validLimit at h
  dsimp only at h
  split at h
  · rename_i hlimit
    cases h
    exact hlimit.1
  · cases h

section Client

variable (host : Host) (userId deviceId p : Uuid)

/-- A device reads a bootstrap manifest from an offset: each page is that of a state of the service,
which goes on between the pages; the next page starts after the records of this one, and the last
one says that there is no more. -/
inductive ManifestWalk (manifestId : Uuid) :
    ℤ → World Db Lock PersistenceError Reply Request → List SyncRecord → BootstrapPage →
      World Db Lock PersistenceError Reply Request → Prop
  | last {offset limit : ℤ} {now : Timestamp} {page : BootstrapPage} {d : Db}
      {w : World Db Lock PersistenceError Reply Request} (haccepted : AcceptedLimit limit)
      (hpage : (bootstrapManifestPage now ⟨userId, deviceId, p, manifestId, offset, limit⟩).run
        w.committed = (.ok (.ok page), d)) (hmore : page.hasMore = false) :
      ManifestWalk manifestId offset w page.records page w
  | more {offset limit : ℤ} {now : Timestamp} {page final : BootstrapPage} {d : Db}
      {w w' w'' : World Db Lock PersistenceError Reply Request} {rest : List SyncRecord}
      (haccepted : AcceptedLimit limit)
      (hpage : (bootstrapManifestPage now ⟨userId, deviceId, p, manifestId, offset, limit⟩).run
        w.committed = (.ok (.ok page), d)) (hmore : page.hasMore = true)
      (hsteps : Relation.ReflTransGen (service host).Step w w')
      (hrest : ManifestWalk manifestId (offset + page.records.length) w' rest final w'') :
      ManifestWalk manifestId offset w (page.records ++ rest) final w''

/-- A device pulls from a cursor, as often as it likes: each pull starts at the cursor of the answer
before, and the last one says that there is no more. -/
inductive PullWalk (generation : ℤ) :
    ℤ → World Db Lock PersistenceError Reply Request → List SyncRecord → ℤ →
      World Db Lock PersistenceError Reply Request → Prop
  | last {afterSequence limit : ℤ} {now : Timestamp} {page : PullPage} {d : Db}
      {w : World Db Lock PersistenceError Reply Request} (haccepted : AcceptedLimit limit)
      (hpage : (pullPage now ⟨userId, deviceId, p, generation, afterSequence, limit⟩).run
        w.committed = (.ok (.ok page), d)) (hmore : page.hasMore = false) :
      PullWalk generation afterSequence w page.records page.nextSequence w
  | next {afterSequence limit cursor : ℤ} {now : Timestamp} {page : PullPage} {d : Db}
      {w w' w'' : World Db Lock PersistenceError Reply Request} {rest : List SyncRecord}
      (haccepted : AcceptedLimit limit)
      (hpage : (pullPage now ⟨userId, deviceId, p, generation, afterSequence, limit⟩).run
        w.committed = (.ok (.ok page), d))
      (hsteps : Relation.ReflTransGen (service host).Step w w')
      (hrest : PullWalk generation page.nextSequence w' rest cursor w'') :
      PullWalk generation afterSequence w (page.records ++ rest) cursor w''

end Client

/-- What a device holds that applied some records, in order. -/
def heldRecords (records : List SyncRecord) : ObjectKind × String → Option SyncRecord :=
  replay SyncRecord.key SyncRecord.tombstone (fun _ => none) records

/-- A finished request prepared a manifest. -/
def Prepared (e : SyncEvent) (userId p : Uuid) (manifest : BootstrapManifest) : Prop :=
  ∃ order, e.request.call = .prepareBootstrapManifest order userId p manifest.id ∧
    e.result = .ok (.bootstrapManifest manifest)

/-- How the bootstrap route uses manifests: it records only what it prepared, for the same user and
project, and draws a new identifier for each. -/
structure BootstrapRoute (l : List SyncEvent) : Prop where
  recorded : ∀ l₁ e l₂, l = l₁ ++ e :: l₂ → ∀ userId p manifest bucket key,
    e.request.call = .recordBootstrapManifest userId p manifest bucket key →
      ∃ e' ∈ l₁, Prepared e' userId p manifest
  distinct : ∀ e ∈ l, ∀ e' ∈ l, ∀ userId p manifest userId' p' manifest',
    Prepared e userId p manifest → Prepared e' userId' p' manifest' → manifest.id = manifest'.id →
      p = p' ∧ manifest = manifest'

/-- A part of a run of the bootstrap route is one. -/
theorem BootstrapRoute.of_prefix {l l' : List SyncEvent} (h : BootstrapRoute l) (hp : l' <+: l) :
    BootstrapRoute l' where
  recorded l₁ e l₂ hl := by
    obtain ⟨l₃, rfl⟩ := hp
    exact h.recorded l₁ e (l₂ ++ l₃) (by rw [hl]; simp)
  distinct e he e' he' := h.distinct e (hp.subset he) e' (hp.subset he')

/-! ## What a manifest holds -/

/-- The records of a manifest are the latest ones up to its sequence. -/
structure IsFrozen (d : Db) (p : Uuid) (manifest : BootstrapManifest) : Prop where
  nonneg : 0 ≤ manifest.snapshotSequence
  le : manifest.snapshotSequence ≤ (d.revisionsOf p).length
  perm : manifest.records.Perm (current SyncRecord.key
    ((history (d.revisionsOf p)).take manifest.snapshotSequence.toNat))

/-- A history that goes on keeps what it starts with. -/
theorem IsFrozen.mono {d d' : Db} {p : Uuid} {manifest : BootstrapManifest}
    (h : IsFrozen d p manifest) (hgrow : d.revisionsOf p <+: d'.revisionsOf p) :
    IsFrozen d' p manifest where
  nonneg := h.nonneg
  le := h.le.trans (by exact_mod_cast hgrow.length_le)
  perm := by
    have hn : manifest.snapshotSequence.toNat ≤ (history (d.revisionsOf p)).length := by
      rw [length_history]
      have := h.le
      omega
    obtain ⟨rest, hrest⟩ := history_grow hgrow
    have htake : (history (d'.revisionsOf p)).take manifest.snapshotSequence.toNat =
        (history (d.revisionsOf p)).take manifest.snapshotSequence.toNat := by
      rw [← hrest, List.take_append_of_le_length hn]
    rw [htake]
    exact h.perm

/-- A row of a manifest that was prepared. -/
def BootstrapManifestRow.Holds (m : BootstrapManifestRow) (p : Uuid)
    (manifest : BootstrapManifest) : Prop :=
  m.id = manifest.id ∧ m.projectId = p ∧ m.items = manifest.records ∧
    m.changeSequence = manifest.snapshotSequence

section

variable {host : Host} {e : SyncEvent} {userId deviceId p : Uuid}

/-- A manifest that is prepared holds the latest records of its project. -/
theorem isFrozen_of_prepared (hsound : e.before.Sound) (hout : (service host).Outcome Db.Rely e)
    {manifest : BootstrapManifest} (h : Prepared e userId p manifest) :
    IsFrozen e.before p manifest := by
  obtain ⟨order, hcall, hresult⟩ := h
  obtain ⟨H, b, ⟨hruns, -⟩ | ⟨_, -, herror, -⟩⟩ := hout
  · change Runs _ _ (e.request.call.body host e.request.now) ∅ id _ H b at hruns
    rw [hcall] at hruns
    obtain ⟨r, hprepare, hr⟩ := runs_replying_iff.mp hruns
    obtain ⟨⟨generation, sequence⟩, H₁, b₁, hproject, hrest⟩ := runs_bind_ok_iff.mp hprepare
    obtain ⟨rfl, rfl, d, row, hd, hrow, -, hstate⟩ := runs_requireActiveProjectForUpdate hproject
    simp only [query_bind, bind_eq, runs_read_iff, runs_bind_ok_iff, pure_eq, runs_pure_iff,
      Except.ok.injEq] at hrest
    obtain ⟨d', hd', _, _, _, -, hr', -, -⟩ := hrest
    -- Under the lock of the project both reads see its rows as they are at the end.
    have hdata := hd'.data p (Set.mem_insert _ _)
    have hvisible : visibleProject (.app userId) p e.before = some row := by
      rw [visibleProject, ← hd.data p (Set.mem_insert _ _)]
      exact hrow
    obtain ⟨hfound, -⟩ := visibleProject_eq_some_iff.mp hvisible
    have hx := hsound.coherent.data hfound
    cases hstate
    have hrecords : rankedRows (.app userId) order p row.changeSeq d' =
        order.arrange (current SyncRecord.key
          ((history (e.before.revisionsOf p)).take row.changeSeq.toNat)) := by
      rw [rankedRows, hdata, hsound.coherent.visible hvisible, hx.records_eq,
        hx.isHistory.rankedRecords_eq]
      rfl
    rw [hr, hr'] at hresult
    simp only [Except.map, Except.ok.injEq, Reply.bootstrapManifest.injEq] at hresult
    have hat : row.changeSeq = manifest.snapshotSequence :=
      congrArg BootstrapManifest.snapshotSequence hresult
    have hread : rankedRows (.app userId) order p row.changeSeq d' = manifest.records :=
      congrArg BootstrapManifest.records hresult
    have hsequence : row.changeSeq = (e.before.revisionsOf p).length := hx.sequence
    refine ⟨by omega, by omega, ?_⟩
    rw [← hread, hrecords, ← hat]
    exact order.perm _
  · rw [hresult] at herror
    cases herror

/-- A manifest that is there after a request was there before, or the request recorded it. -/
theorem holds_of_outcome (hsound : e.before.Sound) (hout : (service host).Outcome Db.Rely e)
    {m : BootstrapManifestRow} (hm : m ∈ e.after.bootstrapManifests) :
    m ∈ e.before.bootstrapManifests ∨ ∃ userId p manifest bucket key,
      e.request.call = .recordBootstrapManifest userId p manifest bucket key ∧
        m.Holds p manifest := by
  have htouches := (eventEffect_of_outcome hsound hout).touches
  by_cases hT : Table.bootstrapManifests ∈ e.request.call.tables
  · obtain ⟨H, b, ⟨hruns, hafter⟩ | ⟨_, -, -, hafter⟩⟩ := hout
    · change Runs _ _ (e.request.call.body host e.request.now) ∅ id _ H b at hruns
      cases hcall : e.request.call with
      | recordBootstrapManifest userId p manifest bucket key =>
        rw [hcall] at hruns
        obtain ⟨r, hrecord, -⟩ := runs_replying_iff.mp hruns
        simp only [recordBootstrapManifest, bind_eq, acquire_bind, runs_lock_iff, runs_bind_ok_iff,
          runs_mapConflict_ok_iff, pure_eq, runs_pure_iff] at hrecord
        obtain ⟨_, _, _, hinsert, -, -, rfl⟩ := hrecord
        obtain ⟨-, rfl, -⟩ := runs_insertRow hinsert
        rw [hafter] at hm
        rcases List.mem_append.mp hm with hm | hm
        · exact .inl hm
        · rw [List.mem_singleton.mp hm]
          exact .inr ⟨userId, p, manifest, bucket, key, rfl, rfl, rfl, rfl, rfl⟩
      | expireBootstrapManifests inBatch =>
        rw [hcall] at hruns
        obtain ⟨r, hexpire, -⟩ := runs_replying_iff.mp hruns
        simp only [expireBootstrapManifests, bind_eq, modify_bind, pure_eq, runs_write_iff,
          runs_pure_iff] at hexpire
        obtain ⟨-, -, rfl⟩ := hexpire
        rw [hafter] at hm
        exact .inl (List.mem_of_mem_filter hm)
      | _ => simp [hcall, Call.tables] at hT
    · rw [hafter] at hm
      exact .inl hm
  · have heq : e.after.bootstrapManifests = e.before.bootstrapManifests :=
      (congrArg Db.bootstrapManifests htouches).trans (if_neg hT)
    exact .inl (heq ▸ hm)

variable {users : List UserRow} {w w' : World Db Lock PersistenceError Reply Request}

/-- Where the manifests of a run come from: each was prepared, and stays what it was. -/
structure ManifestsFrozen (l : List SyncEvent) (d : Db) : Prop where
  prepared : ∀ e ∈ l, ∀ userId p manifest, Prepared e userId p manifest → IsFrozen d p manifest
  recorded : BootstrapRoute l → ∀ m ∈ d.bootstrapManifests,
    ∃ e ∈ l, ∃ userId p manifest, Prepared e userId p manifest ∧ m.Holds p manifest

/-- The records of a manifest do not change once it is recorded. -/
theorem manifestsFrozen (hw : (service host).Reachable (.initial users) w) :
    ManifestsFrozen w.history w.committed := by
  refine (reachable_trail hw).invariant (J := ManifestsFrozen)
    ⟨by simp, fun _ => by simp [Db.initial]⟩ fun l e _ _ _ hout hbefore hafter ih => ?_
  have hgrow (p : Uuid) := ((eventEffect_of_outcome hbefore hout).projectStep p).revisions_grow
  constructor
  · intro f hf userId p manifest hprepared
    rcases List.mem_append.mp hf with hf | hf
    · exact (ih.prepared f hf userId p manifest hprepared).mono (hgrow p)
    · rw [List.mem_singleton.mp hf] at hprepared
      exact (isFrozen_of_prepared hbefore hout hprepared).mono (hgrow p)
  · intro hroute m hm
    rcases holds_of_outcome hbefore hout hm with
      hm | ⟨userId, p, manifest, bucket, key, hcall, hholds⟩
    · obtain ⟨f, hf, h⟩ := ih.recorded (hroute.of_prefix (List.prefix_append _ _)) m hm
      exact ⟨f, List.mem_append_left _ hf, h⟩
    · obtain ⟨f, hf, hprepared⟩ := hroute.recorded l e [] rfl userId p manifest bucket key hcall
      exact ⟨f, List.mem_append_left _ hf, userId, p, manifest, hprepared, hholds⟩

/-! ## The pages of a manifest -/

/-- A page of a manifest starts at its offset, and the last one goes to the end. -/
theorem manifestPage_eq {items records : List SyncRecord} {offset limit : ℤ} {more : Bool}
    (h : manifestPage items offset limit = (records, more)) :
    records = (items.drop offset.toNat).take records.length ∧
      (more = false → records = items.drop offset.toNat) := by
  unfold manifestPage at h
  dsimp only at h
  split_ifs at h with hlength
  · cases h
    refine ⟨?_, fun h => by cases h⟩
    rw [List.take_take, min_eq_left (Nat.le_succ _), List.length_take, List.take_eq_take_min]
  · cases h
    have hall : items.length - offset.toNat ≤ (max limit 0).toNat + 1 := by
      rw [List.length_take, List.length_drop] at hlength
      omega
    rw [List.take_of_length_le (by rwa [List.length_drop])]
    exact ⟨(List.take_length).symm, fun _ => rfl⟩

/-- What a page of a manifest answers. -/
theorem run_bootstrapManifestPage {d d' : Db} {now : Timestamp} {a : BootstrapPageArgs}
    {page : BootstrapPage} (h : (bootstrapManifestPage now a).run d = (.ok (.ok page), d')) :
    ∃ m ∈ d.bootstrapManifests, m.id = a.manifestId ∧ m.projectId = a.projectId ∧ 0 ≤ a.offset ∧
      page.snapshotSequence = m.changeSequence ∧
      page.records = (m.items.drop a.offset.toNat).take page.records.length ∧
      (page.hasMore = false → page.records = m.items.drop a.offset.toNat) := by
  obtain ⟨H, b, hruns, -⟩ := runs_run (R := fun _ d c => d = c) (c := d) (fun _ => rfl)
    (bootstrapManifestPage now a) ∅ id
  rw [id, h] at hruns
  obtain ⟨⟨generation, sequence⟩, H₁, b₁, hproject, hruns⟩ := runs_bind_ok_iff.mp hruns
  obtain ⟨rfl, rfl, -⟩ := runs_requireActiveProject hproject
  simp only [bind_eq, query_bind, runs_read_iff, runs_bind_ok_iff, runs_orThrow_iff,
    runs_require_iff] at hruns
  obtain ⟨d, rfl, m, _, _, ⟨hfound, rfl, rfl⟩, _, _, _, ⟨-, rfl, rfl⟩, _, _, _, ⟨hbounds, rfl, rfl⟩,
    hruns⟩ := hruns
  -- The manifest that the page is cut from is the one of the request, read once.
  have hm : readableManifest now a d = some m := by
    cases hread : readableManifest now a d with
    | none => rw [id, hread] at hfound; cases hfound
    | some m' => rw [id, hread] at hfound; cases hfound; rfl
  obtain ⟨hfind, hreadable⟩ := Option.filter_eq_some_iff.mp hm
  simp only [Bool.and_eq_true, beq_iff_eq, decide_eq_true_eq] at hreadable hbounds
  have hoffset : 0 ≤ a.offset := by
    split_ifs at hbounds with hb
    exact hb.2
  rcases hpage : manifestPage m.items a.offset a.limit with ⟨records, hasMore⟩
  obtain ⟨htake, hall⟩ := manifestPage_eq hpage
  have hend : page = ⟨a.manifestId, generation, m.changeSequence, records, hasMore⟩ := by
    rw [hpage] at hruns
    cases hasMore with
    | true =>
      obtain ⟨hr, -, -⟩ := runs_pure_iff.mp hruns
      cases hr
      rfl
    | false =>
      obtain ⟨_, _, _, -, hlast⟩ := runs_bind_ok_iff.mp hruns
      obtain ⟨hr, -, -⟩ := runs_pure_iff.mp hlast
      cases hr
      rfl
  subst hend
  have hid : m.id = a.manifestId := by simpa using List.find?_some hfind
  exact ⟨m, List.mem_of_find?_eq_some hfind, hid, hreadable.1.1, hoffset, rfl, htake, hall⟩

/-- The worlds of a walk follow each other. -/
theorem ManifestWalk.steps {manifestId : Uuid} {offset : ℤ} {records : List SyncRecord}
    {final : BootstrapPage}
    (h : ManifestWalk host userId deviceId p manifestId offset w records final w') :
    Relation.ReflTransGen (service host).Step w w' := by
  induction h with
  | last => exact .refl
  | more _ _ _ hsteps _ ih => exact hsteps.trans ih

/-- The history of a run only grows. -/
theorem history_extends (hsteps : Relation.ReflTransGen (service host).Step w w') :
    w.history <+: w'.history := by
  induction hsteps with
  | refl => exact List.prefix_refl _
  | tail _ hstep ih => exact ih.trans (by cases hstep <;> simp)

/-- A walk through a manifest returns the records of what was prepared, each once and in order. -/
theorem ManifestWalk.records_eq (hw : (service host).Reachable (.initial users) w)
    {manifestId : Uuid} {offset : ℤ} {records : List SyncRecord} {final : BootstrapPage}
    (h : ManifestWalk host userId deviceId p manifestId offset w records final w')
    (hroute : BootstrapRoute w'.history) : 0 ≤ offset ∧
      ∃ e ∈ w'.history, ∃ preparer manifest, Prepared e preparer p manifest ∧
        manifest.id = manifestId ∧ records = manifest.records.drop offset.toNat ∧
        final.snapshotSequence = manifest.snapshotSequence := by
  induction h with
  | @last offset limit now page d w haccepted hpage hmore =>
    obtain ⟨m, hm, hid, hproject, hoffset, hsequence, -, hall⟩ := run_bootstrapManifestPage hpage
    obtain ⟨e, he, preparer, p', manifest, hprepared, hholds⟩ :=
      (manifestsFrozen hw).recorded hroute m hm
    obtain rfl : p' = p := hholds.2.1.symm.trans hproject
    refine ⟨hoffset, e, he, preparer, manifest, hprepared, hholds.1.symm.trans hid, ?_,
      hsequence.trans hholds.2.2.2⟩
    rw [hall hmore, hholds.2.2.1]
  | @more offset limit now page final d w w₁ w₂ rest haccepted hpage hmore hsteps hrest ih =>
    obtain ⟨m, hm, hid, hproject, hoffset, hsequence, htake, -⟩ := run_bootstrapManifestPage hpage
    obtain ⟨t, hfrom⟩ := hw
    have hgrow := history_extends (hsteps.trans hrest.steps)
    obtain ⟨e, he, preparer, p', manifest, hprepared, hholds⟩ :=
      (manifestsFrozen ⟨t, hfrom⟩).recorded (hroute.of_prefix hgrow) m hm
    obtain rfl : p' = p := hholds.2.1.symm.trans hproject
    obtain ⟨-, e', he', preparer', manifest', hprepared', hid', hrest', hfinal⟩ :=
      ih ⟨t, hfrom.trans hsteps⟩ hroute
    -- Both pages are of one manifest: its identifier was drawn once.
    obtain ⟨-, rfl⟩ := hroute.distinct e (hgrow.subset he) e' he' _ _ _ _ _ _ hprepared hprepared'
      ((hholds.1.symm.trans hid).trans hid'.symm)
    refine ⟨hoffset, e', he', preparer', manifest, hprepared', hid', ?_, hfinal⟩
    rw [hholds.2.2.1] at htake
    dsimp only at hoffset htake
    have hnext : (offset + page.records.length).toNat = offset.toNat + page.records.length := by
      omega
    rw [hrest', hnext, ← List.drop_drop]
    exact (congrArg (· ++ _) htake).trans (List.take_append_drop _ _)

/-! ## The pages of a log -/

/-- The records after a sequence are the rest of the history. -/
theorem recordsAfter_eq {d : Db} (hd : d.Coherent) {row : ProjectRow}
    (hrow : visibleProject (.app userId) p d = some row) (sequence : ℤ) :
    recordsAfter (.app userId) p sequence d = (history (d.revisionsOf p)).drop sequence.toNat := by
  have hx := hd.data (visibleProject_eq_some_iff.mp hrow).1
  unfold recordsAfter
  rw [hd.visible hrow, hx.records_eq, hx.isHistory.orderBySequence_filter]
  exact hx.isHistory.filter_gt sequence

/-- After a page of a log, its cursor is as many records further. -/
theorem nextSequence_eq {log records : List SyncRecord} (hh : IsHistory log) {sequence : ℤ}
    (hsequence : 0 ≤ sequence)
    (hrecords : records = (log.drop sequence.toNat).take records.length) :
    records.getLast?.elim sequence (·.changeSequence) = sequence + records.length := by
  rcases List.eq_nil_or_concat records with rfl | ⟨init, v, rfl⟩
  · simp
  · rw [List.concat_eq_append] at hrecords ⊢
    rw [List.getLast?_concat, Option.elim_some]
    -- The page ends the first part of the log.
    have hlength := congrArg List.length hrecords
    rw [List.length_take, List.length_drop, List.length_append, List.length_singleton] at hlength
    have hprefix : log.take sequence.toNat ++ init ++ [v] <+: log := by
      refine ⟨(log.drop sequence.toNat).drop (init ++ [v]).length, ?_⟩
      rw [List.append_assoc, List.append_assoc, ← List.append_assoc init]
      conv_rhs => rw [← List.take_append_drop sequence.toNat log]
      congr 1
      conv_lhs => lhs; rw [hrecords]
      exact List.take_append_drop _ _
    rw [(hh.of_prefix hprefix).sequence_last, List.length_append, List.length_take,
      List.length_append, List.length_singleton]
    omega

/-- What a page of the change log answers. -/
theorem run_pullPage {d d' : Db} (hd : d.Coherent) {now : Timestamp} {a : PullArgs}
    {page : PullPage} (hlimit : 1 ≤ a.limit) (h : (pullPage now a).run d = (.ok (.ok page), d')) :
    ∃ row, visibleProject (.app a.userId) a.projectId d = some row ∧
      a.expectedGeneration = row.generation ∧ 0 ≤ a.afterSequence ∧
      page.records = ((history (d.revisionsOf a.projectId)).drop a.afterSequence.toNat).take
        page.records.length ∧
      page.nextSequence = a.afterSequence + page.records.length ∧
      (page.hasMore = false →
        page.records = (history (d.revisionsOf a.projectId)).drop a.afterSequence.toNat) := by
  -- A call that runs alone is a run in which every read sees the same database.
  obtain ⟨H, b, hruns, -⟩ := runs_run (R := fun _ d c => d = c) (c := d) (fun _ => rfl)
    (pullPage now a) ∅ id
  rw [id, h] at hruns
  obtain ⟨⟨generation, sequence⟩, H₁, b₁, hproject, hruns⟩ := runs_bind_ok_iff.mp hruns
  obtain ⟨rfl, rfl, d₁, row, rfl, hrow, -, hstate⟩ := runs_requireActiveProject hproject
  cases hstate
  obtain ⟨_, _, _, hchecked, hruns⟩ := runs_bind_ok_iff.mp hruns
  obtain ⟨_, _, _, hchecked', hruns⟩ := runs_bind_ok_iff.mp hruns
  obtain ⟨hgeneration, rfl, rfl⟩ := runs_require_iff.mp hchecked
  obtain ⟨hbounds, rfl, rfl⟩ := runs_require_iff.mp hchecked'
  rw [bind_eq, query_bind, runs_read_iff] at hruns
  obtain ⟨d₁, rfl, hruns⟩ := hruns
  have hafter := recordsAfter_eq hd hrow a.afterSequence
  rw [id] at hrow hruns
  rw [hafter, lookAhead_eq _ (by omega)] at hruns
  simp only [beq_iff_eq, Bool.and_eq_true, decide_eq_true_eq] at hgeneration hbounds
  have heq : a.expectedGeneration = row.generation := by
    split_ifs at hgeneration with h
    exact h
  have hsequence : 0 ≤ a.afterSequence := by
    split_ifs at hbounds with h
    exact h.1
  refine ⟨row, hrow, heq, hsequence, ?_⟩
  have hx := hd.data (visibleProject_eq_some_iff.mp hrow).1
  split_ifs at hruns with hmore
  · obtain ⟨_, _, _, -, hend⟩ := runs_bind_ok_iff.mp hruns
    obtain ⟨hr, -, -⟩ := runs_pure_iff.mp hend
    cases hr
    have htake : ((history (d₁.revisionsOf a.projectId)).drop a.afterSequence.toNat).take
        a.limit.toNat = ((history (d₁.revisionsOf a.projectId)).drop a.afterSequence.toNat).take
          (((history (d₁.revisionsOf a.projectId)).drop a.afterSequence.toNat).take
            a.limit.toNat).length := by
      rw [List.length_take, List.take_eq_take_iff, min_assoc, min_self]
    exact ⟨htake, nextSequence_eq hx.isHistory hsequence htake, fun h => by cases h⟩
  · obtain ⟨_, _, _, -, hend⟩ := runs_bind_ok_iff.mp hruns
    obtain ⟨hr, -, -⟩ := runs_pure_iff.mp hend
    cases hr
    have htake := (List.take_length (l := (history (d₁.revisionsOf a.projectId)).drop
      a.afterSequence.toNat)).symm
    exact ⟨htake, nextSequence_eq hx.isHistory hsequence htake, fun _ => rfl⟩

/-- The worlds of a walk follow each other. -/
theorem PullWalk.steps {generation afterSequence cursor : ℤ} {records : List SyncRecord}
    (h : PullWalk host userId deviceId p generation afterSequence w records cursor w') :
    Relation.ReflTransGen (service host).Step w w' := by
  induction h with
  | last => exact .refl
  | next _ _ hsteps _ ih => exact hsteps.trans ih

/-- A walk through the change log returns the records after its start, each once and in order, and
ends with a cursor at the sequence of the project. -/
theorem PullWalk.records_eq (hw : (service host).Reachable (.initial users) w)
    {generation afterSequence cursor : ℤ} {records : List SyncRecord}
    (h : PullWalk host userId deviceId p generation afterSequence w records cursor w') :
    ∃ row, visibleProject (.app userId) p w'.committed = some row ∧ row.generation = generation ∧
      0 ≤ afterSequence ∧
      records = (history (w'.committed.revisionsOf p)).drop afterSequence.toNat ∧
      cursor = afterSequence + records.length := by
  induction h with
  | @last afterSequence limit now page d w haccepted hpage hmore =>
    have hd := (hw.inv (relies_service host) (sound_initial users)).coherent
    obtain ⟨row, hrow, hgeneration, hsequence, -, hnext, hall⟩ :=
      run_pullPage hd haccepted.pos hpage
    exact ⟨row, hrow, hgeneration.symm, hsequence, hall hmore, hnext⟩
  | @next afterSequence limit cursor now page d w w₁ w₂ rest haccepted hpage hsteps hrest ih =>
    obtain ⟨t, hfrom⟩ := hw
    have hw : (service host).Reachable (.initial users) w := ⟨t, hfrom⟩
    have hd := (hw.inv (relies_service host) (sound_initial users)).coherent
    obtain ⟨-, -, -, hsequence, htake, hnext, -⟩ := run_pullPage hd haccepted.pos hpage
    obtain ⟨row, hrow, hgeneration, -, hall, hcursor⟩ := ih ⟨t, hfrom.trans hsteps⟩
    dsimp only at hsequence htake hnext
    -- What the page was taken from is where the last history begins.
    obtain ⟨extra, hextra⟩ := history_grow (revisions_grow hw (hsteps.trans hrest.steps) p)
    have hpart : page.records =
        ((history (w₂.committed.revisionsOf p)).drop afterSequence.toNat).take
          page.records.length := by
      have hlength := congrArg List.length htake
      rw [List.length_take, List.length_drop] at hlength
      by_cases hempty : page.records = []
      · rw [hempty]
        rfl
      · have hpositive := List.length_pos_of_ne_nil hempty
        conv_lhs => rw [htake]
        rw [← hextra, List.drop_append_of_le_length (by omega),
          List.take_append_of_le_length (by rw [List.length_drop]; omega)]
    refine ⟨row, hrow, hgeneration, hsequence, ?_, ?_⟩
    · rw [hall, hnext, show (afterSequence + page.records.length).toNat =
        afterSequence.toNat + page.records.length by omega, ← List.drop_drop]
      exact (congrArg (· ++ _) hpart).trans (List.take_append_drop _ _)
    · rw [hcursor, hnext, List.length_append]
      push_cast
      omega

/-- A device that read its manifest, page by page, and then pulled until there was no more, holds
the heads of the project, with the cursor at its sequence: whatever the limits of its requests, and
whatever other requests ran in between. -/
theorem client_converges {w₀ w₁ w₂ w₃ : World Db Lock PersistenceError Reply Request}
    (hw : (service host).Reachable (.initial users) w₀) (hroute : BootstrapRoute w₁.history)
    {manifestId : Uuid} {items changes : List SyncRecord} {final : BootstrapPage} {cursor : ℤ}
    (hmanifest : ManifestWalk host userId deviceId p manifestId 0 w₀ items final w₁)
    (hsteps : Relation.ReflTransGen (service host).Step w₁ w₂)
    (hpull : PullWalk host userId deviceId p final.generation final.snapshotSequence w₂ changes
      cursor w₃) :
    ∃ row, w₃.committed.project p = some row ∧ row.generation = final.generation ∧
      row.changeSeq = cursor ∧
      items.Perm (current SyncRecord.key ((history (w₃.committed.revisionsOf p)).take
        final.snapshotSequence.toNat)) ∧
      changes = (history (w₃.committed.revisionsOf p)).drop final.snapshotSequence.toNat ∧
      ∀ k v, heldRecords (items ++ changes) k = some v ↔
        v ∈ (w₃.committed.data p).headRecords ∧ v.key = k ∧ v.tombstone = false := by
  obtain ⟨t, hfrom⟩ := id hw
  have hfrom₂ := (hfrom.trans hmanifest.steps).trans hsteps
  have hw₃ : (service host).Reachable (.initial users) w₃ := ⟨t, hfrom₂.trans hpull.steps⟩
  have hd := (hw₃.inv (relies_service host) (sound_initial users)).coherent
  -- The manifest that was read was prepared in this run, and its records are still the latest ones
  -- up to its sequence.
  obtain ⟨-, e, he, preparer, manifest, hprepared, -, hitems, hfinal⟩ :=
    hmanifest.records_eq hw hroute
  have hfrozen : IsFrozen w₃.committed p manifest :=
    (manifestsFrozen hw₃).prepared e ((history_extends (hsteps.trans hpull.steps)).subset he)
      preparer p manifest hprepared
  obtain ⟨row, hrow, hgeneration, -, hchanges, hcursor⟩ := hpull.records_eq ⟨t, hfrom₂⟩
  have hproject := (visibleProject_eq_some_iff.mp hrow).1
  have hx := hd.data hproject
  have hid := Db.id_of_project hproject
  have hperm : items.Perm (current SyncRecord.key ((history (w₃.committed.revisionsOf p)).take
      final.snapshotSequence.toNat)) := by
    rw [hitems, hfinal]
    exact hfrozen.perm
  refine ⟨row, hproject, hgeneration, ?_, hperm, hchanges, fun k v => ?_⟩
  · have hsequence : row.changeSeq = (w₃.committed.revisionsOf p).length := hx.sequence
    have hstart := hfrozen.le
    have hnonneg := hfrozen.nonneg
    rw [hcursor, hchanges, List.length_drop, length_history]
    omega
  · have hheld : heldRecords (items ++ changes) k =
        (latest SyncRecord.key k (history (w₃.committed.revisionsOf p))).filter (!·.tombstone) := by
      rw [hchanges]
      exact replay_of_prefix hperm
    have hmem : v ∈ (w₃.committed.data p).headRecords ↔
        latest SyncRecord.key v.key (history (w₃.committed.revisionsOf p)) = some v := by
      rw [hx.mem_headRecords, mem_current_iff]
      rfl
    rw [hheld, hmem, Option.filter_eq_some_iff, Bool.not_eq_true']
    constructor
    · rintro ⟨hlatest, hgone⟩
      have hk := key_of_latest hlatest
      exact ⟨hk.symm ▸ hlatest, hk, hgone⟩
    · rintro ⟨hlatest, rfl, hgone⟩
      exact ⟨hlatest, hgone⟩

end

/-! ## A device that converges -/

/-- The sample project is bootstrapped, changed, and, after its manifest has expired, bootstrapped
once more. -/
def bootstrappedTwice : List Request :=
  sampleSetup.take 3 ++ [⟨0, .prepareBootstrapManifest .stored 1 2 4⟩] ++ sampleSetup.drop 3 ++
    [⟨1, samplePush 1 "a" [sampleItem "x" none false, sampleItem "y" none false,
      sampleItem "x" (some 1) false]⟩,
      ⟨manifestWindow, .expireBootstrapManifests fun _ => true⟩,
      ⟨manifestWindow, .prepareBootstrapManifest .stored 1 2 6⟩]

/-- The second manifest. -/
def secondManifest : BootstrapManifest where
  id := 6
  generation := 1
  snapshotSequence := 3
  records := rankedRows (.app 1) .stored 2 3 (sampleWorld bootstrappedTwice).committed
  hash := sampleDigest

/-- Another device deletes an object after the manifest is recorded. -/
def changedMeanwhile : List Request :=
  bootstrappedTwice ++
    [⟨manifestWindow, .recordBootstrapManifest 1 2 secondManifest "manifests" "6"⟩,
      ⟨manifestWindow, samplePush 1 "b" [sampleItem "y" (some 1) true]⟩]

/-- A request of a sample run, with those before it. -/
theorem eq_sampleEvent_of_split {requests : List Request} {l₁ l₂ : List SyncEvent} {e : SyncEvent}
    (h : (sampleWorld requests).history = l₁ ++ e :: l₂) : ∃ i : Fin requests.length,
      e = sampleEvent requests i ∧ l₁ = (sampleWorld requests).history.take i := by
  have hlength : l₁.length < requests.length := by
    rw [← history_length_sampleWorld requests, h, List.length_append, List.length_cons]
    omega
  refine ⟨⟨l₁.length, hlength⟩, ?_, ?_⟩
  · show e = (sampleWorld requests).history.get _
    simp only [h, List.get_eq_getElem]
    simp
  · rw [h, List.take_left']
    rfl

/-- Each manifest that is recorded was prepared. -/
theorem bootstrapRoute_changedMeanwhile :
    BootstrapRoute (sampleWorld changedMeanwhile).history := by
  have hfirst : Prepared (sampleEvent changedMeanwhile ⟨3, by decide⟩) 1 2
      ⟨4, 1, 0, [], sampleDigest⟩ := ⟨.stored, rfl, rfl⟩
  have hsecond : Prepared (sampleEvent changedMeanwhile ⟨8, by decide⟩) 1 2 secondManifest :=
    ⟨.stored, rfl, rfl⟩
  -- Only these two requests prepare a manifest.
  have hprepares : ∀ e ∈ (sampleWorld changedMeanwhile).history, ∀ userId p manifest,
      Prepared e userId p manifest →
        p = 2 ∧ (manifest = ⟨4, 1, 0, [], sampleDigest⟩ ∨ manifest = secondManifest) := by
    rintro e he userId p manifest ⟨order, hcall, hresult⟩
    obtain ⟨l₁, l₂, hl⟩ := List.append_of_mem he
    obtain ⟨⟨i, hi⟩, rfl, -⟩ := eq_sampleEvent_of_split hl
    have hindex : i = 3 ∨ i = 8 := by
      have heleven : i < 11 := hi
      interval_cases i <;> first | exact .inl rfl | exact .inr rfl | cases hcall
    rcases hindex with rfl | rfl
    · have hmanifest : (sampleEvent changedMeanwhile ⟨3, hi⟩).result =
          .ok (.bootstrapManifest ⟨4, 1, 0, [], sampleDigest⟩) := rfl
      cases hmanifest.symm.trans hresult
      cases hcall
      exact ⟨rfl, .inl rfl⟩
    · have hmanifest : (sampleEvent changedMeanwhile ⟨8, hi⟩).result =
          .ok (.bootstrapManifest secondManifest) := rfl
      cases hmanifest.symm.trans hresult
      cases hcall
      exact ⟨rfl, .inr rfl⟩
  constructor
  · intro l₁ e l₂ hl userId p manifest bucket key hcall
    obtain ⟨⟨i, hi⟩, rfl, rfl⟩ := eq_sampleEvent_of_split hl
    have hindex : i = 4 ∨ i = 9 := by
      have heleven : i < 11 := hi
      interval_cases i <;> first | exact .inl rfl | exact .inr rfl | cases hcall
    rcases hindex with rfl | rfl
    · cases hcall
      exact ⟨_, @sampleEvent_mem_take _ ⟨3, by decide⟩ ⟨4, by decide⟩ (by decide), hfirst⟩
    · cases hcall
      exact ⟨_, @sampleEvent_mem_take _ ⟨8, by decide⟩ ⟨9, by decide⟩ (by decide), hsecond⟩
  · intro e he e' he' userId p manifest userId' p' manifest' hprepared hprepared' hid
    obtain ⟨rfl, hmanifest⟩ := hprepares e he userId p manifest hprepared
    obtain ⟨rfl, hmanifest'⟩ := hprepares e' he' userId' p' manifest' hprepared'
    refine ⟨rfl, ?_⟩
    rcases hmanifest with rfl | rfl <;> rcases hmanifest' with rfl | rfl
    · rfl
    · cases hid
    · cases hid
    · rfl

/-- A device that reads the manifest in two pages, and pulls what changed since, holds the object
that is left. -/
theorem changedMeanwhile_converges :
    ∃ row, (sampleWorld changedMeanwhile).committed.project 2 = some row ∧ row.changeSeq = 4 ∧
      ∀ k v, heldRecords (secondManifest.records ++
          recordsAfter (.app 1) 2 3 (sampleWorld changedMeanwhile).committed) k = some v ↔
        v ∈ ((sampleWorld changedMeanwhile).committed.data 2).headRecords ∧ v.key = k ∧
          v.tombstone = false := by
  have hone : AcceptedLimit 1 := ⟨some 1, rfl⟩
  -- The pages of the manifest have one record each.
  let first : BootstrapPage := ⟨6, 1, 3, secondManifest.records.take 1, true⟩
  let final : BootstrapPage := ⟨6, 1, 3, secondManifest.records.drop 1, false⟩
  have hnext : (0 : ℤ) + first.records.length = 1 := rfl
  have hfinal : ManifestWalk sampleHost 1 3 2 6 1 (sampleWorld changedMeanwhile) final.records
      final (sampleWorld changedMeanwhile) :=
    @ManifestWalk.last _ _ _ _ _ _ 1 manifestWindow final _ _ hone rfl rfl
  have hmanifest : ManifestWalk sampleHost 1 3 2 6 0 (sampleWorld changedMeanwhile)
      (first.records ++ final.records) final (sampleWorld changedMeanwhile) :=
    @ManifestWalk.more _ _ _ _ _ _ 1 manifestWindow first _ _ _ _ _ _ hone rfl rfl .refl
      (hnext.symm ▸ hfinal)
  have hpull : PullWalk sampleHost 1 3 2 1 3 (sampleWorld changedMeanwhile)
      (recordsAfter (.app 1) 2 3 (sampleWorld changedMeanwhile).committed) 4
      (sampleWorld changedMeanwhile) :=
    @PullWalk.last _ _ _ _ _ _ 1 manifestWindow ⟨1, recordsAfter (.app 1) 2 3
      (sampleWorld changedMeanwhile).committed, false, 4⟩ _ _ hone rfl rfl
  obtain ⟨row, hrow, -, hsequence, -, -, hheld⟩ := client_converges
    (reachable_sampleWorld (by decide)) bootstrapRoute_changedMeanwhile hmanifest .refl hpull
  exact ⟨row, hrow, hsequence, hheld⟩

end TaskTipsCloud
