import Mathlib

/-!
# Versioned logs

A log is a list of versions of keyed objects, oldest first. It is numbered when the versions of
every object carry the numbers `1, 2, 3, ...` in the order of the log. The latest version of an
object can then be told in three ways that agree: it is the last one in the log, the one with the
highest number, and the one that no version of the same object follows.
-/

namespace TaskTipsCloud

namespace Versions

variable {V κ : Type} [DecidableEq κ] (key : V → κ) (rev : V → ℤ)

/-- The versions of an object, oldest first. -/
def versions (k : κ) (log : List V) : List V := log.filter (key · = k)

/-- The latest version of an object. -/
def latest (k : κ) (log : List V) : Option V := (versions key k log).getLast?

/-- The latest version of every object, in the order of the log. -/
def current [DecidableEq V] (log : List V) : List V :=
  log.filter fun v => latest key (key v) log = some v

/-- Every version carries one more than the number of versions of its object before it. -/
def Numbered (log : List V) : Prop :=
  ∀ before v, before ++ [v] <+: log → rev v = (versions key (key v) before).length + 1

variable {key rev} {log log' : List V} {k : κ} {v w : V}

/-! ## The versions of an object -/

/-- An empty log has no versions. -/
@[simp] theorem versions_nil : versions key k [] = [] := rfl

/-- The versions in a longer log. -/
theorem versions_append :
    versions key k (log ++ log') = versions key k log ++ versions key k log' :=
  List.filter_append ..

/-- A record is the last version of its key. -/
theorem versions_concat_self :
    versions key (key v) (log ++ [v]) = versions key (key v) log ++ [v] := by
  simp [versions]

/-- A record is no version of another key. -/
theorem versions_concat_of_ne (h : key v ≠ k) :
    versions key k (log ++ [v]) = versions key k log := by
  simp [versions, h]

/-- The versions of a key are its records. -/
theorem mem_versions : v ∈ versions key k log ↔ v ∈ log ∧ key v = k := by simp [versions]

/-- A record is a version of its key. -/
theorem mem_versions_self (key : V → κ) (hv : v ∈ log) : v ∈ versions key (key v) log :=
  mem_versions.mpr ⟨hv, rfl⟩

/-- An empty log has no latest version. -/
@[simp] theorem latest_nil : latest key k [] = none := rfl

/-- The last record is the latest version of its key. -/
theorem latest_concat_self : latest key (key v) (log ++ [v]) = some v := by
  simp [latest, versions_concat_self]

/-- A record leaves the latest versions of other keys. -/
theorem latest_concat_of_ne (h : key v ≠ k) : latest key k (log ++ [v]) = latest key k log := by
  simp [latest, versions_concat_of_ne h]

/-- The last of two logs that has versions of an object has its latest version. -/
theorem latest_append : latest key k (log ++ log') = (latest key k log').or (latest key k log) := by
  rw [latest, versions_append, List.getLast?_append]
  rfl

/-- The latest version of a key has it. -/
theorem key_of_latest (h : latest key k log = some v) : key v = k :=
  (mem_versions.mp (List.mem_of_getLast? h)).2

/-- The latest version is in the log. -/
theorem mem_of_latest (h : latest key k log = some v) : v ∈ log :=
  (mem_versions.mp (List.mem_of_getLast? h)).1

/-- A key has no latest version when it has no record. -/
theorem latest_eq_none_iff : latest key k log = none ↔ ∀ v ∈ log, key v ≠ k := by
  simp [latest, versions]

/-- The current records are the latest versions of their keys. -/
theorem mem_current_iff [DecidableEq V] :
    v ∈ current key log ↔ latest key (key v) log = some v := by
  simp only [current, List.mem_filter, decide_eq_true_eq]
  exact ⟨And.right, fun h => ⟨mem_of_latest h, h⟩⟩

/-- In a log with one version of each object every version is the latest. -/
theorem latest_of_nodup (hnodup : (log.map key).Nodup) (hv : v ∈ log) :
    latest key (key v) log = some v := by
  obtain ⟨before, after, rfl⟩ := List.append_of_mem hv
  rw [List.map_append, List.map_cons, List.nodup_append] at hnodup
  obtain ⟨-, hafter, -⟩ := hnodup
  have hnone : latest key (key v) after = none :=
    latest_eq_none_iff.mpr fun w hw hk =>
      (List.nodup_cons.mp hafter).1 (List.mem_map.mpr ⟨w, hw, hk⟩)
  rw [List.append_cons, latest_append, hnone, latest_concat_self]
  rfl

/-- Two logs whose versions go in pairs have their latest versions in pairs. -/
theorem latest_map {W : Type} {key' : W → κ} {f : V → W} (hf : ∀ v, key' (f v) = key v) :
    latest key' k (log.map f) = (latest key k log).map f := by
  unfold latest versions
  rw [List.filter_map, List.getLast?_map]
  simp only [Function.comp_def, hf]

/-! ## Numbered logs -/

/-- An empty log is numbered. -/
theorem numbered_nil : Numbered key rev [] := by
  intro before v h
  simp at h

/-- A further record has the next number of its key. -/
theorem numbered_concat_iff : Numbered key rev (log ++ [v]) ↔
    Numbered key rev log ∧ rev v = (versions key (key v) log).length + 1 := by
  constructor
  · intro h
    exact ⟨fun before w hw => h before w (hw.trans (List.prefix_append _ _)),
      h log v (List.prefix_refl _)⟩
  · rintro ⟨h, hv⟩ before w hw
    rcases List.prefix_concat_iff.mp hw with heq | hpre
    · obtain ⟨rfl, rfl⟩ := List.append_singleton_inj.mp heq
      exact hv
    · exact h before w hpre

/-- A part of a numbered log from its start is numbered. -/
theorem Numbered.of_prefix (h : Numbered key rev log) (hp : log' <+: log) :
    Numbered key rev log' :=
  fun before v hv => h before v (hv.trans hp)

/-- The versions of an object carry the numbers from one on. -/
theorem Numbered.map_rev (h : Numbered key rev log) (k : κ) :
    (versions key k log).map rev =
      (List.range' 1 (versions key k log).length).map fun n : ℕ => (n : ℤ) := by
  induction log using List.reverseRecOn with
  | nil => rfl
  | append_singleton log v ih =>
    obtain ⟨hlog, hv⟩ := numbered_concat_iff.mp h
    by_cases hk : key v = k
    · subst hk
      rw [versions_concat_self, List.map_append, ih hlog, List.length_append, List.length_singleton,
        List.range'_concat, List.map_append, List.map_singleton, List.map_singleton, hv]
      congr 2
      omega
    · rw [versions_concat_of_ne hk, ih hlog]

/-- The number of the latest version of an object is the number of its versions. -/
theorem Numbered.rev_latest (h : Numbered key rev log) (hv : latest key k log = some v) :
    rev v = (versions key k log).length := by
  have hlast := congrArg List.getLast? (h.map_rev k)
  have hne : (versions key k log).length ≠ 0 := by
    intro h0
    rw [latest, List.eq_nil_of_length_eq_zero h0] at hv
    simp at hv
  rw [List.getLast?_map, List.getLast?_map, ← latest, hv, List.getLast?_range', if_neg hne] at hlast
  simp only [Option.map_some, Option.some.injEq] at hlast
  rw [hlast]
  omega

/-- Numbers start with one. -/
theorem Numbered.one_le (h : Numbered key rev log) (hv : v ∈ log) : 1 ≤ rev v := by
  have hmem := List.mem_map_of_mem (f := rev)
    (mem_versions_self key hv)
  rw [h.map_rev (key v)] at hmem
  obtain ⟨n, hn, hrev⟩ := List.mem_map.mp hmem
  have := List.mem_range'_1.mp hn
  omega

/-- A number is at most that of the versions. -/
theorem Numbered.le_length (h : Numbered key rev log) (hv : v ∈ log) :
    rev v ≤ (versions key (key v) log).length := by
  have hmem := List.mem_map_of_mem (f := rev)
    (mem_versions_self key hv)
  rw [h.map_rev (key v)] at hmem
  obtain ⟨n, hn, hrev⟩ := List.mem_map.mp hmem
  have := List.mem_range'_1.mp hn
  omega

/-- There is a version with each number up to that of the latest. -/
theorem Numbered.exists_rev (h : Numbered key rev log) {n : ℤ} (hlo : 1 ≤ n)
    (hhi : n ≤ (versions key k log).length) : ∃ v ∈ log, key v = k ∧ rev v = n := by
  have hmem : n ∈ (versions key k log).map rev := by
    rw [h.map_rev k]
    exact List.mem_map.mpr ⟨n.toNat, List.mem_range'_1.mpr (by omega), by omega⟩
  obtain ⟨v, hv, hrev⟩ := List.mem_map.mp hmem
  exact ⟨v, (mem_versions.mp hv).1, (mem_versions.mp hv).2, hrev⟩

/-- Of two versions of one object the later one has the higher number. -/
theorem Numbered.pairwise (h : Numbered key rev log) :
    log.Pairwise fun v w => key v = key w → rev v < rev w := by
  induction log using List.reverseRecOn with
  | nil => exact .nil
  | append_singleton log w ih =>
    obtain ⟨hlog, hw⟩ := numbered_concat_iff.mp h
    refine List.pairwise_append.mpr ⟨ih hlog, List.pairwise_singleton .., fun v hv x hx hk => ?_⟩
    rw [List.mem_singleton] at hx
    subst hx
    have hle := hlog.le_length hv
    rw [hk] at hle
    omega

/-- A version is determined by its object and its number. -/
theorem Numbered.eq_of_rev (h : Numbered key rev log) (hv : v ∈ log) (hw : w ∈ log)
    (hk : key v = key w) (hr : rev v = rev w) : v = w := by
  have hlt : log.Pairwise fun v w => key v = key w → rev v ≠ rev w :=
    h.pairwise.imp fun hlt hk => ne_of_lt (hlt hk)
  refine List.Pairwise.forall_of_forall_of_flip
    (R := fun v w => key v = key w → rev v = rev w → v = w) (fun _ _ _ _ => rfl)
    (hlt.imp fun hne hk hr => absurd hr (hne hk))
    (hlt.imp fun hne hk hr => absurd hr.symm (hne hk.symm)) hv hw hk hr

/-- An object that has versions has a latest one. -/
theorem exists_latest (key : V → κ) (hv : v ∈ log) : ∃ w, latest key (key v) log = some w := by
  cases h : latest key (key v) log with
  | some w => exact ⟨w, rfl⟩
  | none => exact absurd rfl (latest_eq_none_iff.mp h v hv)

/-- A version is the latest of its object when no version of that object follows it. -/
theorem latest_iff_forall (key : V → κ) {seq : V → ℤ} (hseq : log.Pairwise fun v w => seq v < seq w)
    (hv : v ∈ log) :
    latest key (key v) log = some v ↔ ∀ w ∈ log, key w = key v → seq w ≤ seq v := by
  -- By induction from the end of the log: its last version follows all others.
  induction log using List.reverseRecOn with
  | nil => simp at hv
  | append_singleton log x ih =>
    obtain ⟨hlog, -, hx⟩ := List.pairwise_append.mp hseq
    have hlast : ∀ w ∈ log, seq w < seq x := fun w hw => hx w hw x (List.mem_singleton.mpr rfl)
    rcases List.mem_append.mp hv with hmem | hmem
    · have hvx : v ≠ x := by
        rintro rfl
        exact absurd (hlast v hmem) (lt_irrefl _)
      by_cases hk : key x = key v
      · rw [← hk, latest_concat_self]
        constructor
        · intro h
          exact absurd (Option.some.inj h).symm hvx
        · intro h
          have := h x (by simp) rfl
          have := hlast v hmem
          omega
      · rw [latest_concat_of_ne hk, ih hlog hmem]
        constructor
        · intro h w hw hkw
          rcases List.mem_append.mp hw with hw | hw
          · exact h w hw hkw
          · exact absurd (List.mem_singleton.mp hw ▸ hkw) hk
        · exact fun h w hw => h w (List.mem_append_left _ hw)
    · rw [List.mem_singleton] at hmem
      subst hmem
      refine ⟨fun _ w hw _ => ?_, fun _ => latest_concat_self⟩
      rcases List.mem_append.mp hw with hw | hw
      · have := hlast w hw
        omega
      · rw [List.mem_singleton.mp hw]

end Versions

end TaskTipsCloud
