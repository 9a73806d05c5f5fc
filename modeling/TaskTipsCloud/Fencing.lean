import TaskTipsCloud.Events

/-!
# Fencing of pushes

A push changes a project only while the project is active, at the generation that the push expects,
and from a device that has read the last page of a bootstrap manifest of that generation. As no
request lowers the generation of a project, a restore locks out every push of the generations before
it, and every device that has not bootstrapped since.
-/

namespace TaskTipsCloud

open Txn Versions

/-- The device of a push reads the last page of a manifest of a generation. -/
def ReadsLastPage (a : PushArgs) (generation : ℤ) (e : SyncEvent) : Prop :=
  ∃ b page, e.request.call = .bootstrapManifestPage b ∧ b.userId = a.userId ∧
    b.deviceId = a.deviceId ∧ b.projectId = a.projectId ∧
      e.result = .ok (.bootstrapPage page) ∧ page.hasMore = false ∧ page.generation = generation

/-- A restore that succeeded and left a project at a generation. -/
def Restores (p : Uuid) (generation : ℤ) (e : SyncEvent) : Prop :=
  (∃ targetOrder currentOrder jobId leaseToken job, e.request.call =
      .executeRestoreWithLease targetOrder currentOrder jobId leaseToken ∧
      leasedJob jobId leaseToken e.before = some job ∧ job.projectId = p) ∧
    e.result = .ok .done ∧ (e.after.project p).map (·.generation) = some generation

section

variable {host : Host} {users : List UserRow} {w : World Db Lock PersistenceError Reply Request}

/-- The trail of the service. -/
theorem reachable_trail (hw : (service host).Reachable (.initial users) w) :
    (service host).Trail Db.Sound Db.Rely (.initial users) w.history w.committed w.clock :=
  hw.trail (relies_service host) (sound_initial users)

/-- A completed bootstrap is an old one or the new one. -/
theorem bootstrapped_withCompletion {d : Db} {x : BootstrapCompletion} {a : PushArgs} {g : ℤ}
    (h : bootstrapped a g (d.withCompletion x)) : bootstrapped a g d ∨
      (x.projectId = a.projectId ∧ x.deviceId = a.deviceId ∧ x.generation = g ∧
        x.ownerUserId = a.userId) := by
  obtain ⟨y, hy, hkey⟩ := List.any_eq_true.mp h
  unfold Db.withCompletion upsert at hy
  dsimp only at hy
  split at hy
  · obtain ⟨z, hz, rfl⟩ := List.mem_map.mp hy
    refine .inl (List.any_eq_true.mpr ⟨z, hz, ?_⟩)
    split at hkey <;> exact hkey
  · rcases List.mem_append.mp hy with hy | hy
    · exact .inl (List.any_eq_true.mpr ⟨y, hy, hkey⟩)
    · rw [List.mem_singleton.mp hy] at hkey
      right
      simpa [and_assoc] using hkey

/-- A finished request leaves the completed bootstraps, or is the last page of a manifest. -/
theorem EventEffect.completions {e : SyncEvent} (h : EventEffect host e) :
    e.after.bootstrapCompletions = e.before.bootstrapCompletions ∨
      ∃ a page, e.request.call = .bootstrapManifestPage a ∧
        e.result = .ok (.bootstrapPage page) ∧ page.hasMore = false ∧
          e.after = e.before.withCompletion (a.completion e.request.now page) := by
  cases h with
  | unchanged h => exact .inl (by rw [h])
  | quiet hquiet h htouches => exact .inl h.completions
  | created hcall hnone hseq hgeneration h => exact .inl (by rw [h])
  | collected hcall h => exact .inl (by rw [h])
  | purged hcall h | replayed hcall h => exact .inl (by rw [h]; rfl)
  | pushed hcall hresult hnew h =>
    left
    generalize e.after = d' at h
    cases h with
    | failed => rfl
    | applied =>
      rw [Db.appendAll_eq]
      rfl
  | completed hcall hresult hlast h => exact .inr ⟨_, _, hcall, hresult, hlast, h⟩
  | restored hcall hresult h =>
    left
    generalize e.after = d' at h
    obtain ⟨⟩ := h
    rw [Db.appendAll_eq]
    rfl

/-- Every completed bootstrap was completed by the last page of a manifest of its generation. -/
theorem completions_of_trail {s : Db} {h : List SyncEvent} {t : ℤ}
    (htr : (service host).Trail Db.Sound Db.Rely (.initial users) h s t) (a : PushArgs) (g : ℤ)
    (hb : bootstrapped a g s) : ∃ e ∈ h, ReadsLastPage a g e := by
  revert hb
  refine htr.invariant (J := fun h s => bootstrapped a g s → ∃ e ∈ h, ReadsLastPage a g e)
    (by simp [bootstrapped, Db.initial]) fun h e _ _ _ hout hsound _ ih hb => ?_
  have hold : bootstrapped a g e.before → ∃ e' ∈ h ++ [e], ReadsLastPage a g e' := fun hb => by
    obtain ⟨e', he', hreads⟩ := ih hb
    exact ⟨e', List.mem_append_left _ he', hreads⟩
  rcases (eventEffect_of_outcome hsound hout).completions with heq |
    ⟨b, page, hcall, hresult, hlast, heq⟩
  · unfold bootstrapped at hb hold
    rw [heq] at hb
    exact hold hb
  · rw [heq] at hb
    rcases bootstrapped_withCompletion hb with hb | ⟨hp, hv, hg, hu⟩
    · exact hold hb
    · exact ⟨e, by simp, b, page, hcall, hu, hv, hp, hresult, hlast, hg⟩

/-- No request lowers the generation of a project. -/
theorem ProjectStep.generation_le {e : SyncEvent} {p : Uuid} (h : ProjectStep e p)
    {row : ProjectRow} (hrow : e.before.project p = some row) :
    ∃ row', e.after.project p = some row' ∧ row.generation ≤ row'.generation := by
  cases h with
  | kept h =>
    have hproject := h.project
    simp only [Db.data, hrow, Option.map_some, Option.map_eq_some_iff] at hproject
    obtain ⟨row', hrow', hcore⟩ := hproject
    simp only [ProjectRow.core, Prod.mk.injEq] at hcore
    exact ⟨row', hrow', hcore.2.2.1.ge⟩
  | created hbefore => rw [hbefore] at hrow; cases hrow
  | pushed hcall hp hrow' _ _ _ _ _ hafter =>
    rw [hrow'] at hrow
    cases hrow
    exact ⟨_, hafter, le_refl _⟩
  | restored hcall hjob hp hrow' _ _ hafter =>
    rw [hrow'] at hrow
    cases hrow
    exact ⟨_, hafter, by show _ ≤ row.generation + 1; omega⟩

/-- Along a trail the generation of a project does not fall. -/
theorem generation_le_of_trail {s₀ s : Db} {h : List SyncEvent} {t : ℤ}
    (htr : (service host).Trail Db.Sound Db.Rely s₀ h s t) {p : Uuid} {row : ProjectRow}
    (hrow : s₀.project p = some row) :
    ∃ row', s.project p = some row' ∧ row.generation ≤ row'.generation := by
  refine htr.invariant
    (J := fun _ s => ∃ row', s.project p = some row' ∧ row.generation ≤ row'.generation)
    ⟨row, hrow, le_refl _⟩ fun _ e _ _ _ hout hsound _ ih => ?_
  obtain ⟨row₁, hrow₁, hle₁⟩ := ih
  obtain ⟨row₂, hrow₂, hle₂⟩ :=
    ((eventEffect_of_outcome hsound hout).projectStep p).generation_le hrow₁
  exact ⟨row₂, hrow₂, hle₁.trans hle₂⟩

/-- What lets a push change a project. -/
structure Fence (earlier : List SyncEvent) (e : SyncEvent) (a : PushArgs) (p : Uuid) : Prop where
  project : p = a.projectId
  /-- The project is active, at the generation that the push expects, which stays its generation. -/
  active : ∃ row, e.before.project p = some row ∧ row.status = .active ∧
    row.generation = a.expectedGeneration
  generation : (e.after.project p).map (·.generation) = some a.expectedGeneration
  /-- The device has read the last page of a manifest of that generation. -/
  bootstrapped : ∃ e₀ ∈ earlier, ReadsLastPage a a.expectedGeneration e₀
  /-- What is appended comes from the device. -/
  device : ∀ r ∈ e.after.revisionsOf p, r ∉ e.before.revisionsOf p → r.deviceId = a.deviceId

/-- The items of a push that is executed are applied within the fence. -/
theorem ItemEffects.fence {earlier : List SyncEvent} {e : SyncEvent} {t now : ℤ} {a : PushArgs}
    {row : ProjectRow} {results : List PushItemResult} {rs : List ObjectRevision} {p : Uuid}
    (hitems : ItemEffects now a (e.before.withoutExpired now a) a.revisions results rs)
    (htr : (service host).Trail Db.Sound Db.Rely (.initial users) earlier e.before t)
    (hafter : e.after.data p = ((e.before.withoutExpired now a).appendAll now rs).data p)
    (hp : p = a.projectId)
    (hrow : visibleProject (.app a.userId) a.projectId (e.before.withoutExpired now a) = some row)
    (hactive : row.status = .active) (hgeneration : a.expectedGeneration = row.generation)
    (hbootstrapped : bootstrapped a row.generation (e.before.withoutExpired now a)) :
    Fence earlier e a p := by
  subst hp
  obtain ⟨hproject, -⟩ := visibleProject_eq_some_iff.mp hrow
  have hrs : ∀ r ∈ rs, r.projectId = a.projectId := hitems.projectId
  have hrevisions := (congrArg ProjectData.revisions hafter).trans (Db.revisionsOf_appendAll hrs)
  have hproject' := (congrArg ProjectData.project hafter).trans (Db.project_appendAll hrs hproject)
  refine ⟨rfl, ⟨row, hproject, hactive, hgeneration.symm⟩, ?_, ?_, fun r hr hnew => ?_⟩
  · change e.after.project a.projectId = _ at hproject'
    rw [hproject', hgeneration]
    rfl
  · rw [hgeneration]
    exact completions_of_trail htr a row.generation hbootstrapped
  · change e.after.revisionsOf a.projectId = e.before.revisionsOf a.projectId ++ rs at hrevisions
    rw [hrevisions] at hr
    exact hitems.deviceId r ((List.mem_append.mp hr).resolve_left hnew)

/-- A push leaves a project's head, revisions, log and sequence, or it passed the fence. -/
theorem data_eq_or_fence (hw : (service host).Reachable (.initial users) w)
    {earlier later : List SyncEvent} {e : SyncEvent} (hsplit : w.history = earlier ++ e :: later)
    {a : PushArgs} (hcall : e.request.call = .pushWithOutcome a) (p : Uuid) :
    e.after.data p = e.before.data p ∨ Fence earlier e a p := by
  have htr := reachable_trail hw
  rw [hsplit] at htr
  obtain ⟨hearlier, -, hout, hsound, -, -, -⟩ := htr.split
  have heffect := eventEffect_of_outcome hsound hout
  cases heffect with
  | unchanged h => exact .inl (by rw [h])
  | quiet hquiet h htouches => rw [hcall] at hquiet; cases hquiet
  | created hcall' | collected hcall' | purged hcall' => rw [hcall] at hcall'; cases hcall'
  | replayed hcall' h => exact .inl (by rw [h]; rfl)
  | completed hcall' => rw [hcall] at hcall'; cases hcall'
  | restored hcall' => rw [hcall] at hcall'; cases hcall'
  | pushed hcall' hresult hnew h =>
    rw [hcall] at hcall'
    cases hcall'
    generalize hafter : e.after = d' at h
    cases h with
    | failed => exact .inl rfl
    | applied hrow hactive hgeneration hbootstrapped hitems hresponse =>
      rename_i row results rs response
      by_cases hp : p = a.projectId
      · right
        exact hitems.fence hearlier (by rw [hafter]; rfl) hp hrow hactive hgeneration hbootstrapped
      · left
        exact Db.data_appendAll_of_ne fun r hr => by rw [hitems.projectId r hr]; exact Ne.symm hp

/-- After a restore a project stays beyond the generations before it. -/
theorem generation_of_restores {s : Db} {h : List SyncEvent} {t : ℤ}
    (htr : (service host).Trail Db.Sound Db.Rely (.initial users) h s t) {e : SyncEvent}
    (he : e ∈ h) {p : Uuid} {g : ℤ} (hrestores : Restores p g e) :
    ∃ row, s.project p = some row ∧ g ≤ row.generation := by
  obtain ⟨h₁, h₂, rfl⟩ := List.append_of_mem he
  obtain ⟨-, -, -, -, -, htr', -⟩ := htr.split
  obtain ⟨row, hrow, hg⟩ := Option.map_eq_some_iff.mp hrestores.2.2
  obtain ⟨row', hrow', hle⟩ := generation_le_of_trail htr' hrow
  exact ⟨row', hrow', hg ▸ hle⟩

/-- In every run, a push that changes the heads, the revisions, the log or the sequence of a project
does so while the project is active at the generation that the push expects, and from a device that
has read the last page of a manifest of that generation. Once a restore has left the project at the
generation `g + 1`, a push that expects `g` or less changes nothing of it, and neither does a push
from a device that has not read such a page for the generation which the project has now. -/
theorem push_within_fence (hw : (service host).Reachable (.initial users) w)
    {earlier later : List SyncEvent} {e : SyncEvent} (hsplit : w.history = earlier ++ e :: later)
    {a : PushArgs} (hcall : e.request.call = .pushWithOutcome a) (p : Uuid) :
    (e.after.data p ≠ e.before.data p → Fence earlier e a p) ∧
      ∀ e₁ ∈ earlier, ∀ g, Restores p (g + 1) e₁ → ∃ row, e.before.project p = some row ∧
        g + 1 ≤ row.generation ∧ (a.expectedGeneration ≤ g ∨
          (∀ e₀ ∈ earlier, ¬ ReadsLastPage a row.generation e₀) →
            e.after.data p = e.before.data p) := by
  have hfence := data_eq_or_fence hw hsplit hcall p
  refine ⟨fun hne => hfence.resolve_left hne, fun e₁ he₁ g hrestores => ?_⟩
  have htr := reachable_trail hw
  rw [hsplit] at htr
  obtain ⟨row, hrow, hle⟩ := generation_of_restores htr.split.1 he₁ hrestores
  refine ⟨row, hrow, hle, fun hstale => hfence.resolve_right fun h => ?_⟩
  obtain ⟨row', hrow', -, hgeneration⟩ := h.active
  obtain rfl : row = row' := Option.some.inj (hrow.symm.trans hrow')
  rcases hstale with hstale | hstale
  · omega
  · obtain ⟨e₀, he₀, hreads⟩ := h.bootstrapped
    rw [← hgeneration] at hreads
    exact hstale e₀ he₀ hreads

end

/-- The sample run with a restore, and then a push of the generation before it. -/
def staleRequests : List Request :=
  sampleSetup ++ samplePushes ++ sampleRestore 3 7 2 ++
    [⟨6, samplePush 1 "c" [sampleItem "z" none false]⟩]

/-- The push after the restore changes nothing of the project. -/
theorem staleRequests_push_within_fence :
    (sampleEvent staleRequests ⟨10, by decide⟩).after.data 2 =
      (sampleEvent staleRequests ⟨10, by decide⟩).before.data 2 := by
  have hrestores : Restores 2 (1 + 1) (sampleEvent staleRequests ⟨9, by decide⟩) := by
    obtain ⟨job, hjob, hp⟩ : ∃ job, leasedJob 7 8
        (sampleEvent staleRequests ⟨9, by decide⟩).before = some job ∧ job.projectId = 2 :=
      Option.map_eq_some_iff.mp (by decide +kernel)
    exact ⟨⟨.stored, .stored, 7, 8, job, rfl, hjob, hp⟩, rfl, by decide +kernel⟩
  have hearlier := @sampleEvent_mem_take staleRequests ⟨9, by decide⟩ ⟨10, by decide⟩ (by decide)
  obtain ⟨row, -, -, hunchanged⟩ := (push_within_fence (reachable_sampleWorld (by decide))
    (history_sampleWorld staleRequests ⟨10, by decide⟩)
    (a := ⟨1, 3, 2, 1, "c", "c", [sampleItem "z" none false]⟩) rfl 2).2 _ hearlier 1 hrestores
  exact hunchanged (.inl (by decide))

end TaskTipsCloud
