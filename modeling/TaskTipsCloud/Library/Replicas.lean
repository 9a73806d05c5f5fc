import TaskTipsCloud.Library.Versions

/-!
# Replicas of a log

A replica holds one version of each object and applies the versions of a log in order: a version
takes the place of the one that is held, and one that marks its object as gone takes it away. A
replica that starts from the latest versions of the first part of a log, and applies the rest, holds
what the whole log leaves.
-/

namespace TaskTipsCloud

namespace Replicas

open Versions

variable {V κ : Type} [DecidableEq κ] (key : V → κ) (gone : V → Bool)

/-- What a replica holds once it applied a version. -/
def hold (held : κ → Option V) (v : V) : κ → Option V :=
  Function.update held (key v) (if gone v then none else some v)

/-- What a replica holds once it applied some versions, in order. -/
def replay (held : κ → Option V) (vs : List V) : κ → Option V := vs.foldl (hold key gone) held

variable {key gone} {held : κ → Option V} {log vs : List V} {k : κ} {v : V}

/-- A replica replays a log one record at a time. -/
theorem replay_concat :
    replay key gone held (vs ++ [v]) = hold key gone (replay key gone held vs) v :=
  List.foldl_append ..

/-- What a replica holds of an object is its latest version, if it applied one. -/
theorem replay_apply : replay key gone held vs k =
    (latest key k vs).elim (held k) fun v => if gone v then none else some v := by
  induction vs using List.reverseRecOn with
  | nil => rfl
  | append_singleton vs v ih =>
    rw [replay_concat, hold]
    by_cases hk : key v = k
    · rw [← hk, Function.update_self, latest_concat_self]
      rfl
    · rw [Function.update_of_ne (Ne.symm hk), ih, latest_concat_of_ne hk]

/-- An empty replica holds the latest versions that do not mark their objects as gone. -/
theorem replay_empty : replay key gone (fun _ => none) vs k =
    (latest key k vs).filter (!gone ·) := by
  rw [replay_apply]
  cases latest key k vs with
  | none => rfl
  | some v =>
    cases hgone : gone v <;> simp [Option.filter, hgone]

/-- The latest versions of a log, in any order, have the latest version of each object. -/
theorem latest_of_perm_current [DecidableEq V] (h : vs.Perm (current key log)) :
    latest key k vs = latest key k log := by
  have hmem : ∀ v, v ∈ vs ↔ latest key (key v) log = some v := fun v => by
    rw [h.mem_iff, mem_current_iff]
  cases hlog : latest key k log with
  | none =>
    refine latest_eq_none_iff.mpr fun v hv hk => ?_
    have hlatest := (hmem v).mp hv
    rw [hk, hlog] at hlatest
    cases hlatest
  | some v =>
    have hk := key_of_latest hlog
    have hv : v ∈ vs := (hmem v).mpr (hk.symm ▸ hlog)
    obtain ⟨w, hw⟩ := exists_latest key hv
    rw [hk] at hw
    -- The version that is found is a latest one too.
    have hlatest := (hmem w).mp (mem_of_latest hw)
    rw [key_of_latest hw, hlog] at hlatest
    rw [hw, hlatest]

/-- A replica that starts from the latest versions of the first part of a log holds, once it applied
the rest, what the log leaves. -/
theorem replay_of_prefix [DecidableEq V] {n : ℕ} (h : vs.Perm (current key (log.take n))) :
    replay key gone (fun _ => none) (vs ++ log.drop n) k = (latest key k log).filter (!gone ·) := by
  rw [replay_empty, latest_append, latest_of_perm_current h, ← latest_append, List.take_append_drop]

end Replicas

end TaskTipsCloud
