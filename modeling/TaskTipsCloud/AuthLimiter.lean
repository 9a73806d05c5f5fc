import TaskTipsCloud.Library.Segments
import TaskTipsCloud.Library.Table
import TaskTipsCloud.Library.Windows

/-!
# The limiter of authentication requests

`AuthRateLimiter` of `crates/api/src/auth.rs`. The limiter counts the requests of each operation and
key in windows. It drops the windows that are over at most once in a period, and refuses a new key
when it holds as many windows as it may. A call reads the clock several times.
-/

namespace TaskTipsCloud

/-- The operations that the limiter tells apart. -/
inductive AuthOperation where
  | login
  | refresh
  | adminLogin
  | adminRefresh
  | adminReauth
  | payloadUpload
  | purge
  | invitationActivation
  | register
  | webLogin
  | webRefresh
  | webInvitationActivation
  | webLogout
  deriving DecidableEq, Repr

/-- The name of an operation. -/
def AuthOperation.asStr : AuthOperation → String
  | .login => "login"
  | .refresh => "refresh"
  | .adminLogin => "admin_login"
  | .adminRefresh => "admin_refresh"
  | .adminReauth => "admin_reauth"
  | .payloadUpload => "payload_upload"
  | .purge => "purge"
  | .invitationActivation => "invitation_activation"
  | .register => "register"
  | .webLogin => "web_login"
  | .webRefresh => "web_refresh"
  | .webInvitationActivation => "web_invitation_activation"
  | .webLogout => "web_logout"

/-- The number of requests that a window allows. -/
def authRateLimit : ℕ := 120

/-- The length of a window in nanoseconds. -/
def authRatePeriod : ℕ := 60 * 10 ^ 9

/-- The number of windows that the limiter may hold. -/
def authRateMaxKeys : ℕ := 10000

/-- A window of a key. -/
structure RateWindow where
  startedAt : ℕ
  requests : ℕ
  deriving DecidableEq, Repr

/-- The limiter: the windows by their keys, and when it last dropped windows. -/
structure AuthRateLimiter where
  windows : List (String × RateWindow)
  lastCleanup : ℕ
  nodup : (windows.map (·.1)).Nodup

/-- The readings of the clock in a call, in their order: for the cleanup, for each window in it, at
its end, for a new window, for the age of a window, and for a restarted one. -/
structure ClockReadings where
  cleanup : ℕ
  swept : String → ℕ
  cleaned : ℕ
  opened : ℕ
  checked : ℕ
  restarted : ℕ
  cleanup_le k : cleanup ≤ swept k
  swept_le k : swept k ≤ cleaned
  cleaned_le : cleaned ≤ opened
  opened_le : opened ≤ checked
  checked_le : checked ≤ restarted

/-- The time from one reading of the clock to another. -/
def elapsed (start now : ℕ) : ℕ := now - start

/-- The key of the window of an operation and a key. -/
def rateKey (operation : AuthOperation) (key : String) : String := operation.asStr ++ ":" ++ key

namespace AuthRateLimiter

/-- A limiter without windows. -/
def new (now : ℕ) : AuthRateLimiter := ⟨[], now, .nil⟩

/-- The window of a key. -/
def get (l : AuthRateLimiter) (k : String) : Option RateWindow :=
  (l.windows.find? (·.1 == k)).map (·.2)

/-- Sets the window of a key. -/
def insert (k : String) (w : RateWindow) (l : AuthRateLimiter) : AuthRateLimiter where
  windows := upsert (·.1 == k) (k, w) (fun x => (x.1, w)) l.windows
  lastCleanup := l.lastCleanup
  nodup := nodup_map_upsert l.nodup (fun _ _ => rfl) fun _ => rfl

/-- Drops the windows that are over, when the last time was a period ago. -/
def sweep (r : ClockReadings) (l : AuthRateLimiter) : AuthRateLimiter :=
  if authRatePeriod ≤ elapsed l.lastCleanup r.cleanup then
    { windows := l.windows.filter fun x =>
        decide (elapsed x.2.startedAt (r.swept x.1) < authRatePeriod)
      lastCleanup := r.cleaned
      nodup := l.nodup.sublist (List.filter_sublist.map _) }
  else l

/-- Counts a request, and tells whether it is allowed. -/
def allow (r : ClockReadings) (operation : AuthOperation) (key : String) (l : AuthRateLimiter) :
    Bool × AuthRateLimiter :=
  let l := l.sweep r
  let k := rateKey operation key
  if (l.get k).isNone ∧ authRateMaxKeys ≤ l.windows.length then (false, l)
  else
    let w := (l.get k).getD ⟨r.opened, 0⟩
    let w := if authRatePeriod ≤ elapsed w.startedAt r.checked then ⟨r.restarted, 0⟩ else w
    if authRateLimit ≤ w.requests then (false, l.insert k w)
    else (true, l.insert k { w with requests := w.requests + 1 })

/-- The limiter has no window of a key, and no room for one. -/
def IsFullFor (l : AuthRateLimiter) (k : String) : Prop :=
  l.get k = none ∧ authRateMaxKeys ≤ l.windows.length

end AuthRateLimiter

/-- A call of the limiter. -/
structure AllowCall where
  operation : AuthOperation
  key : String
  readings : ClockReadings

/-- A call with its answer and the start of the window that it was counted in. -/
structure AllowDecision extends AllowCall where
  allowed : Bool
  window : Option ℕ

namespace AuthRateLimiter

/-- The limiter after a call. -/
def apply (l : AuthRateLimiter) (c : AllowCall) : AuthRateLimiter :=
  (l.allow c.readings c.operation c.key).2

/-- What a call decides. -/
def decision (l : AuthRateLimiter) (c : AllowCall) : AllowDecision :=
  { c with
    allowed := (l.allow c.readings c.operation c.key).1
    window := ((l.apply c).get (rateKey c.operation c.key)).map (·.startedAt) }

/-- The limiter after some calls. -/
def final (l : AuthRateLimiter) (calls : List AllowCall) : AuthRateLimiter := calls.foldl apply l

/-- The decisions of some calls. -/
def decisions : AuthRateLimiter → List AllowCall → List AllowDecision
  | _, [] => []
  | l, c :: calls => l.decision c :: decisions (l.apply c) calls

end AuthRateLimiter

/-- Calls whose readings of the clock do not decrease. -/
def Timely : ℕ → List AllowCall → Prop
  | _, [] => True
  | now, c :: calls => now ≤ c.readings.cleanup ∧ Timely c.readings.restarted calls

/-- Whether a decision is about an operation and a key. -/
def AllowDecision.isOf (operation : AuthOperation) (key : String) (d : AllowDecision) : Bool :=
  d.operation == operation && d.key == key

/-- The allowed requests of an operation and a key in a window. -/
def allowedIn (operation : AuthOperation) (key : String) (w : ℕ) (log : List AllowDecision) :
    List AllowDecision :=
  log.filter fun d => d.isOf operation key && d.allowed && d.window == some w

/-- The allowed requests of an operation and a key in an interval. -/
def allowedBetween (operation : AuthOperation) (key : String) (first last : ℕ)
    (log : List AllowDecision) : List AllowDecision :=
  log.filter fun d => d.isOf operation key && d.allowed &&
    decide (first ≤ d.readings.checked ∧ d.readings.checked ≤ last)

/-! ## The windows -/

namespace AuthRateLimiter

variable {l : AuthRateLimiter} {r : ClockReadings} {k k' : String} {w : RateWindow}

/-- A key has the window that is stored for it. -/
theorem get_eq_some_iff : l.get k = some w ↔ (k, w) ∈ l.windows := by
  unfold get
  rw [Option.map_eq_some_iff]
  constructor
  · rintro ⟨x, hx, rfl⟩
    have hkey : x.1 = k := by simpa using List.find?_some hx
    rw [← hkey]
    exact List.mem_of_find?_eq_some hx
  · exact fun h => ⟨(k, w), find?_key_eq l.nodup h, rfl⟩

/-- An inserted window is found under its key. -/
@[simp] theorem get_insert_self : (l.insert k w).get k = some w := by
  unfold get insert
  rw [find?_upsert (by simp) (fun _ _ => rfl), Option.map_some]
  rintro x - hx
  rw [beq_iff_eq.mp hx]

/-- An insertion leaves the other keys. -/
theorem get_insert_of_ne (h : k' ≠ k) : (l.insert k w).get k' = l.get k' := by
  unfold get insert
  rw [find?_upsert_of_not (by simpa using Ne.symm h)]
  · intro x hx
    rw [beq_iff_eq.mp hx]
    simpa using Ne.symm h
  · exact fun _ _ => rfl

/-- Setting a window adds at most one, and none to a key that has one. -/
theorem length_insert (l : AuthRateLimiter) (k : String) (w : RateWindow) :
    (l.insert k w).windows.length =
      if (l.get k).isNone then l.windows.length + 1 else l.windows.length := by
  have hany : l.windows.any (·.1 == k) = !(l.get k).isNone := by
    unfold get
    cases hfind : l.windows.find? (·.1 == k) with
    | none => simpa using hfind
    | some x => simpa using ⟨x.2, by
        have hkey : x.1 = k := by simpa using List.find?_some hfind
        rw [← hkey]
        exact List.mem_of_find?_eq_some hfind⟩
  show (upsert (·.1 == k) (k, w) (fun x => (x.1, w)) l.windows).length = _
  unfold upsert
  rw [hany]
  cases (l.get k).isNone <;> simp [updateWhere]

/-- A cleanup drops only windows that are over. -/
theorem get_sweep (l : AuthRateLimiter) (r : ClockReadings) (k : String) :
    (l.sweep r).get k = l.get k ∨
      (l.sweep r).get k = none ∧
        ∃ w, l.get k = some w ∧ w.startedAt + authRatePeriod ≤ r.swept k := by
  have hperiod : 0 < authRatePeriod := by decide
  unfold sweep
  split
  · cases hnew : AuthRateLimiter.get _ k with
    | some w =>
      have hmem := get_eq_some_iff.mp hnew
      exact .inl (get_eq_some_iff.mpr (List.mem_of_mem_filter hmem)).symm
    | none =>
      cases hold : l.get k with
      | none => exact .inl rfl
      | some w =>
        refine .inr ⟨rfl, w, rfl, ?_⟩
        by_contra hopen
        have hkept : elapsed w.startedAt (r.swept k) < authRatePeriod := by
          unfold elapsed
          omega
        have hmem : (k, w) ∈ l.windows.filter fun x =>
            decide (elapsed x.2.startedAt (r.swept x.1) < authRatePeriod) :=
          List.mem_filter.mpr ⟨get_eq_some_iff.mp hold, decide_eq_true hkept⟩
        rw [get_eq_some_iff.mpr hmem] at hnew
        cases hnew
  · exact .inl rfl

/-- A sweep adds no window. -/
theorem length_sweep_le : (l.sweep r).windows.length ≤ l.windows.length := by
  unfold sweep
  split
  · exact List.length_filter_le _ _
  · exact le_rfl

/-- What a call decides and leaves of the window of its key, which the cleanup has left as it is
given. -/
inductive Decides (r : ClockReadings) (full : Bool) (before : Option RateWindow) :
    Bool → Option RateWindow → Prop
  | refused (h : before = none) (hfull : full = true) : Decides r full before false none
  | opens {start : ℕ} (h : ∀ w, before = some w → w.startedAt + authRatePeriod ≤ r.checked ∧
        w.startedAt + authRatePeriod ≤ start)
      (hstart : r.opened ≤ start) (hend : start ≤ r.restarted)
      (hchecked : r.checked < start + authRatePeriod) :
      Decides r full before true (some ⟨start, 1⟩)
  | counts {w : RateWindow} (h : before = some w) (hopen : r.checked < w.startedAt + authRatePeriod)
      (hcount : w.requests < authRateLimit) :
      Decides r full before true (some ⟨w.startedAt, w.requests + 1⟩)
  | denies {w : RateWindow} (h : before = some w)
      (hopen : r.checked < w.startedAt + authRatePeriod) (hcount : authRateLimit ≤ w.requests) :
      Decides r full before false (some w)

/-- A call decides by the window of its key. -/
theorem decides_allow (l : AuthRateLimiter) (c : AllowCall) :
    Decides c.readings (decide (authRateMaxKeys ≤ (l.sweep c.readings).windows.length))
      ((l.sweep c.readings).get (rateKey c.operation c.key)) (l.decision c).allowed
      ((l.apply c).get (rateKey c.operation c.key)) := by
  have hperiod : 0 < authRatePeriod := by decide
  have hlimit : 0 < authRateLimit := by decide
  have hopened := c.readings.opened_le
  have hchecked := c.readings.checked_le
  unfold decision apply allow
  dsimp only
  generalize l.sweep c.readings = l'
  split
  · -- At capacity a key without a window is refused.
    next h =>
    have hnone : l'.get (rateKey c.operation c.key) = none := Option.isNone_iff_eq_none.mp h.1
    dsimp only
    rw [hnone]
    exact .refused rfl (decide_eq_true h.2)
  · by_cases hover : authRatePeriod ≤
        elapsed ((l'.get (rateKey c.operation c.key)).getD ⟨c.readings.opened, 0⟩).startedAt
          c.readings.checked
    · -- The window of the key is over by the second reading, so the request opens a new one.
      rw [if_pos hover, if_neg (by dsimp only; omega)]
      dsimp only
      rw [get_insert_self]
      refine .opens (fun w hw => ?_) (le_trans hopened hchecked) le_rfl (by omega)
      rw [hw, Option.getD_some, elapsed] at hover
      exact ⟨by omega, by omega⟩
    · rw [if_neg hover]
      unfold elapsed at hover
      cases hget : l'.get (rateKey c.operation c.key) with
      | none =>
        rw [hget] at hover
        dsimp only [Option.getD_none] at hover ⊢
        rw [if_neg (by omega)]
        dsimp only
        rw [get_insert_self]
        exact .opens nofun le_rfl (by omega) (by omega)
      | some w =>
        rw [hget] at hover
        dsimp only [Option.getD_some] at hover ⊢
        split
        · next hcount =>
          dsimp only
          rw [get_insert_self]
          exact .denies rfl (by omega) hcount
        · next hcount =>
          dsimp only
          rw [get_insert_self]
          exact .counts rfl (by omega) (not_le.mp hcount)

/-- A call sets at most the window of its key, and a new one only where there is room. -/
theorem apply_eq (l : AuthRateLimiter) (c : AllowCall) :
    l.apply c = l.sweep c.readings ∨
      ¬(((l.sweep c.readings).get (rateKey c.operation c.key)).isNone ∧
          authRateMaxKeys ≤ (l.sweep c.readings).windows.length) ∧
        ∃ w, l.apply c = (l.sweep c.readings).insert (rateKey c.operation c.key) w := by
  unfold apply allow
  dsimp only
  generalize l.sweep c.readings = l'
  by_cases hfull : (l'.get (rateKey c.operation c.key)).isNone ∧
      authRateMaxKeys ≤ l'.windows.length
  · rw [if_pos hfull]
    exact .inl rfl
  · rw [if_neg hfull]
    refine .inr ⟨hfull, ?_⟩
    split <;> split <;> exact ⟨_, rfl⟩

/-- A call leaves the windows of other keys as its cleanup does. -/
theorem get_apply_of_ne {c : AllowCall} (h : k ≠ rateKey c.operation c.key) :
    (l.apply c).get k = (l.sweep c.readings).get k := by
  rcases apply_eq l c with heq | ⟨-, w, heq⟩
  · rw [heq]
  · rw [heq, get_insert_of_ne h]

/-- A call keeps the bound on the number of windows. -/
theorem length_apply_le {c : AllowCall} (h : l.windows.length ≤ authRateMaxKeys) :
    (l.apply c).windows.length ≤ authRateMaxKeys := by
  have hsweep : (l.sweep c.readings).windows.length ≤ authRateMaxKeys :=
    le_trans length_sweep_le h
  rcases apply_eq l c with heq | ⟨hroom, w, heq⟩
  · rwa [heq]
  · rw [heq, length_insert]
    split
    · next hnone => exact not_le.mp fun hfull => hroom ⟨hnone, hfull⟩
    · exact hsweep

/-- The number of windows never exceeds the bound. -/
theorem length_final_le (h : l.windows.length ≤ authRateMaxKeys) (calls : List AllowCall) :
    (l.final calls).windows.length ≤ authRateMaxKeys := by
  induction calls generalizing l with
  | nil => exact h
  | cons c calls ih => exact ih (length_apply_le h)

end AuthRateLimiter

/-! ## Runs -/

/-- The names of operations have no colon. -/
theorem AuthOperation.notMem_asStr (operation : AuthOperation) :
    ':' ∉ operation.asStr.toList := by
  cases operation <;> decide

/-- Operations are told apart by their names. -/
theorem AuthOperation.asStr_injective : Function.Injective AuthOperation.asStr := by
  intro a b h
  cases a <;> cases b <;> first | rfl | exact absurd h (by decide)

/-- The key of a window determines the operation and the key. -/
theorem rateKey_inj {operation operation' : AuthOperation} {key key' : String} :
    rateKey operation key = rateKey operation' key' ↔ operation = operation' ∧ key = key' := by
  constructor
  · intro h
    have hlist : operation.asStr.toList ++ ':' :: key.toList =
        operation'.asStr.toList ++ ':' :: key'.toList := by
      simpa [rateKey] using congrArg String.toList h
    obtain ⟨hop, hkey⟩ := append_cons_inj_of_notMem operation.notMem_asStr
      operation'.notMem_asStr hlist
    exact ⟨AuthOperation.asStr_injective (String.toList_inj.mp hop), String.toList_inj.mp hkey⟩
  · rintro ⟨rfl, rfl⟩
    rfl

/-- A decision is of an operation and a key when both are its own. -/
theorem AllowDecision.isOf_iff {d : AllowDecision} {operation : AuthOperation} {key : String} :
    d.isOf operation key = true ↔ d.operation = operation ∧ d.key = key := by
  simp [AllowDecision.isOf]

/-- The decisions about an operation and a key that were counted in a window. -/
def countedOf (operation : AuthOperation) (key : String) (log : List AllowDecision) :
    List AllowDecision :=
  log.filter fun d => d.isOf operation key && d.window.isSome

/-- The start of the window that a decision was counted in. -/
def AllowDecision.start (d : AllowDecision) : ℕ := d.window.getD 0

/-- What the window of an operation and a key, or its absence, tells of the decisions so far. -/
structure Accounts (now : ℕ) (operation : AuthOperation) (key : String) (log : List AllowDecision)
    (o : Option RateWindow) : Prop where
  /-- The other windows of the key were over when this one started, or are over now. -/
  past : ∀ d ∈ log, d.isOf operation key = true → ∀ start, d.window = some start →
    start + authRatePeriod ≤ o.elim now (·.startedAt) ∨ ∃ w, o = some w ∧ w.startedAt = start
  started_le : ∀ w, o = some w → w.startedAt ≤ now
  /-- The window counts exactly the allowed requests of the operation and the key. -/
  requests_eq : ∀ w, o = some w → w.requests = (allowedIn operation key w.startedAt log).length
  requests_le : ∀ w, o = some w → w.requests ≤ authRateLimit

/-- What is so after every call of a run. -/
structure Kept (now : ℕ) (log : List AllowDecision) (l : AuthRateLimiter) : Prop where
  accounts : ∀ operation key, Accounts now operation key log (l.get (rateKey operation key))
  within : ∀ operation key start, (allowedIn operation key start log).length ≤ authRateLimit
  apart : ∀ operation key, Windows.Apart (·.readings.checked) (·.start) authRatePeriod
    (countedOf operation key log)
  counted : ∀ d ∈ log, d.allowed = true → d.window.isSome = true

section

variable {now later : ℕ} {operation : AuthOperation} {key : String} {log : List AllowDecision}
  {l : AuthRateLimiter} {r : ClockReadings} {before after : Option RateWindow} {full : Bool}
  {d : AllowDecision}

/-- An account of a log stays one as time goes on. -/
theorem Accounts.mono (h : Accounts now operation key log before) (hle : now ≤ later) :
    Accounts later operation key log before := by
  refine ⟨fun d hd hof start hstart => ?_, fun w hw => le_trans (h.started_le w hw) hle,
    h.requests_eq, h.requests_le⟩
  refine (h.past d hd hof start hstart).imp_left fun hpast => ?_
  cases before with
  | none => exact le_trans hpast hle
  | some w => exact hpast

/-- A cleanup keeps the accounts. -/
theorem Accounts.sweep (h : Accounts now operation key log (l.get (rateKey operation key)))
    (hnow : now ≤ r.cleanup) :
    Accounts r.opened operation key log ((l.sweep r).get (rateKey operation key)) := by
  have hcleanup := r.cleanup_le (rateKey operation key)
  have hswept := r.swept_le (rateKey operation key)
  have hcleaned := r.cleaned_le
  rcases AuthRateLimiter.get_sweep l r (rateKey operation key) with heq | ⟨hnone, w, hw, hover⟩
  · rw [heq]
    exact h.mono (by omega)
  · rw [hnone]
    refine ⟨fun d hd hof start hstart => .inl ?_, nofun, nofun, nofun⟩
    rcases h.past d hd hof start hstart with hpast | ⟨w', hw', hsame⟩
    · rw [hw] at hpast
      dsimp only [Option.elim] at hpast ⊢
      omega
    · rw [hw, Option.some.injEq] at hw'
      subst hw'
      dsimp only [Option.elim]
      omega

/-- The allowed decisions of a window in a longer log. -/
theorem allowedIn_append (start : ℕ) : allowedIn operation key start (log ++ [d]) =
    allowedIn operation key start log ++ allowedIn operation key start [d] :=
  List.filter_append ..

/-- The counted decisions of a longer log. -/
theorem countedOf_append : countedOf operation key (log ++ [d]) =
    countedOf operation key log ++ countedOf operation key [d] :=
  List.filter_append ..

/-- A decision about another operation or key changes no account. -/
theorem Accounts.other (h : Accounts now operation key log before)
    (hof : d.isOf operation key = false) : Accounts now operation key (log ++ [d]) before := by
  have hallowed (start : ℕ) : allowedIn operation key start [d] = [] := by simp [allowedIn, hof]
  refine ⟨fun d' hd' hof' start hstart => ?_, h.started_le, fun w hw => ?_, h.requests_le⟩
  · rcases List.mem_append.mp hd' with hd' | hd'
    · exact h.past d' hd' hof' start hstart
    · rw [List.mem_singleton.mp hd', hof] at hof'
      cases hof'
  · rw [allowedIn_append, hallowed, List.append_nil]
    exact h.requests_eq w hw

/-- A decision of the key is allowed in its own window only. -/
theorem allowedIn_singleton (hof : d.isOf operation key = true) (start : ℕ) :
    allowedIn operation key start [d] =
      if d.allowed = true ∧ d.window = some start then [d] else [] := by
  simp [allowedIn, List.filter_cons, hof]

/-- When a window opens, the earlier windows of its key are over. -/
theorem Accounts.over_of_opens {start : ℕ} (h : Accounts r.opened operation key log before)
    (hbefore : ∀ w, before = some w → w.startedAt + authRatePeriod ≤ r.checked ∧
      w.startedAt + authRatePeriod ≤ start) (hstart : r.opened ≤ start) {x : AllowDecision}
    (hx : x ∈ log) (hof : x.isOf operation key = true) {s : ℕ} (hs : x.window = some s) :
    s + authRatePeriod ≤ start ∧ s + authRatePeriod ≤ r.checked := by
  have hopened := r.opened_le
  cases before with
  | none =>
    rcases h.past x hx hof s hs with hpast | ⟨w, hw, -⟩
    · dsimp only [Option.elim] at hpast
      omega
    · cases hw
  | some w =>
    obtain ⟨hchecked, hover⟩ := hbefore w rfl
    rcases h.past x hx hof s hs with hpast | ⟨w', hw', hsame⟩
    · dsimp only [Option.elim] at hpast
      omega
    · rw [Option.some.injEq] at hw'
      subst hw'
      omega

/-- A window that opens has no earlier request. -/
theorem Accounts.allowedIn_of_opens {start : ℕ} (h : Accounts r.opened operation key log before)
    (hbefore : ∀ w, before = some w → w.startedAt + authRatePeriod ≤ r.checked ∧
      w.startedAt + authRatePeriod ≤ start) (hstart : r.opened ≤ start) :
    allowedIn operation key start log = [] := by
  have hperiod : 0 < authRatePeriod := by decide
  refine List.filter_eq_nil_iff.mpr fun x hx hcounts => ?_
  simp only [Bool.and_eq_true, beq_iff_eq] at hcounts
  have hover := (h.over_of_opens hbefore hstart hx hcounts.1.1 hcounts.2).1
  omega

/-- A decision keeps the accounts of its operation and key. -/
theorem Accounts.own (h : Accounts r.opened operation key log before)
    (hd : AuthRateLimiter.Decides r full before d.allowed after)
    (hof : d.isOf operation key = true) (hwindow : d.window = after.map (·.startedAt)) :
    Accounts r.restarted operation key (log ++ [d]) after := by
  have hlimit : 1 ≤ authRateLimit := by decide
  have hopened := r.opened_le
  have hchecked := r.checked_le
  generalize hallowed : d.allowed = allowed at hd
  have hone := @allowedIn_singleton operation key d hof
  rw [hallowed, hwindow] at hone
  cases hd with
  | refused hnone hfull =>
    -- Refused at capacity: the key has no window, and the windows before are over.
    refine ⟨fun x hx hxof s hs => .inl ?_, nofun, nofun, nofun⟩
    rcases List.mem_append.mp hx with hx | hx
    · rcases h.past x hx hxof s hs with hpast | ⟨w, hw, -⟩
      · rw [hnone] at hpast
        dsimp only [Option.elim] at hpast ⊢
        omega
      · rw [hnone] at hw
        cases hw
    · rw [List.mem_singleton.mp hx, hwindow] at hs
      cases hs
  | @opens start hbefore hstart hend hopen =>
    refine ⟨fun x hx hxof s hs => ?_, ?_, ?_, ?_⟩
    · rcases List.mem_append.mp hx with hx | hx
      · -- A new window: the ones before are over by then.
        exact .inl (h.over_of_opens hbefore hstart hx hxof hs).1
      · rw [List.mem_singleton.mp hx, hwindow, Option.map_some, Option.some.injEq] at hs
        exact .inr ⟨_, rfl, hs⟩
    · rintro _ ⟨⟩
      exact hend
    · rintro _ ⟨⟩
      rw [allowedIn_append, h.allowedIn_of_opens hbefore hstart, hone]
      simp
    · rintro _ ⟨⟩
      exact hlimit
  | @counts w hw hopen hcount =>
    -- The window that is open counts one request more.
    have hstarted := h.started_le w hw
    refine ⟨fun x hx hxof s hs => ?_, ?_, ?_, ?_⟩
    · rcases List.mem_append.mp hx with hx | hx
      · rw [hw] at h
        exact (h.past x hx hxof s hs).imp_right fun ⟨w', hw', hsame⟩ =>
          ⟨_, rfl, by rw [Option.some.injEq] at hw'; rw [hw', hsame]⟩
      · rw [List.mem_singleton.mp hx, hwindow, Option.map_some, Option.some.injEq] at hs
        exact .inr ⟨_, rfl, hs⟩
    · rintro _ ⟨⟩
      dsimp only
      omega
    · rintro _ ⟨⟩
      rw [allowedIn_append, List.length_append, ← h.requests_eq w hw, hone]
      simp
    · rintro _ ⟨⟩
      exact hcount
  | @denies w hw hopen hcount =>
    have hstarted := h.started_le w hw
    subst hw
    refine ⟨fun x hx hxof s hs => ?_, ?_, ?_, h.requests_le⟩
    · rcases List.mem_append.mp hx with hx | hx
      · exact h.past x hx hxof s hs
      · rw [List.mem_singleton.mp hx, hwindow, Option.map_some, Option.some.injEq] at hs
        exact .inr ⟨_, rfl, hs⟩
    · exact fun w' hw' => le_trans (h.started_le w' hw') (by omega)
    · intro w' hw'
      rw [allowedIn_append, hone]
      simpa using h.requests_eq w' hw'

/-- A window that a decision was counted in is open then, and starts a whole window after the
earlier ones of its operation and key. -/
theorem Accounts.apart_of_decides (h : Accounts r.opened operation key log before)
    (hd : AuthRateLimiter.Decides r full before d.allowed after)
    (hwindow : d.window = after.map (·.startedAt)) (hread : d.readings = r)
    (hlog : Windows.Apart (·.readings.checked) (·.start) authRatePeriod
      (countedOf operation key log)) :
    Windows.Apart (·.readings.checked) (·.start) authRatePeriod
      (countedOf operation key (log ++ [d])) := by
  rw [countedOf_append]
  by_cases hcounted : (d.isOf operation key && d.window.isSome) = true
  · have hsingle : countedOf operation key [d] = [d] := List.filter_cons_of_pos hcounted
    obtain ⟨hof, hsome⟩ := Bool.and_eq_true_iff.mp hcounted
    have hopened := r.opened_le
    rw [hsingle]
    -- The new decision against its own window, and against those of the earlier ones.
    have hkey : r.checked < d.start + authRatePeriod ∧ ∀ x ∈ countedOf operation key log,
        d.start = x.start ∨ x.start + authRatePeriod ≤ d.start ∧
          x.start + authRatePeriod ≤ r.checked := by
      have hmem (x : AllowDecision) (hx : x ∈ countedOf operation key log) :
          x ∈ log ∧ x.isOf operation key = true ∧ x.window = some x.start := by
        obtain ⟨hx, hcounts⟩ := List.mem_filter.mp hx
        obtain ⟨hxof, hxsome⟩ := Bool.and_eq_true_iff.mp hcounts
        obtain ⟨s, hs⟩ := Option.isSome_iff_exists.mp hxsome
        exact ⟨hx, hxof, by rw [AllowDecision.start, hs, Option.getD_some]⟩
      have hheld (w : RateWindow) (hw : before = some w) (x : AllowDecision)
          (hx : x ∈ countedOf operation key log) : w.startedAt = x.start ∨
            x.start + authRatePeriod ≤ w.startedAt ∧ x.start + authRatePeriod ≤ r.checked := by
        obtain ⟨hxlog, hxof, hs⟩ := hmem x hx
        have hstarted := h.started_le w hw
        rcases h.past x hxlog hxof _ hs with hpast | ⟨w', hw', hsame⟩
        · rw [hw] at hpast
          dsimp only [Option.elim] at hpast
          exact .inr ⟨hpast, by omega⟩
        · rw [hw, Option.some.injEq] at hw'
          exact .inl (by rw [hw', hsame])
      generalize d.allowed = allowed at hd
      cases hd with
      | refused hnone hfull =>
        rw [hwindow] at hsome
        cases hsome
      | @opens start hbefore hstart hend hopen =>
        have hdstart : d.start = start := by rw [AllowDecision.start, hwindow]; rfl
        rw [hdstart]
        refine ⟨hopen, fun x hx => .inr ?_⟩
        obtain ⟨hxlog, hxof, hs⟩ := hmem x hx
        exact h.over_of_opens hbefore hstart hxlog hxof hs
      | @counts w hw hopen hcount =>
        have hdstart : d.start = w.startedAt := by rw [AllowDecision.start, hwindow]; rfl
        rw [hdstart]
        exact ⟨hopen, hheld w hw⟩
      | @denies w hw hopen hcount =>
        have hdstart : d.start = w.startedAt := by rw [AllowDecision.start, hwindow]; rfl
        rw [hdstart]
        exact ⟨hopen, hheld w hw⟩
    refine ⟨fun x hx => ?_, List.pairwise_append.mpr
      ⟨hlog.apart, List.pairwise_singleton _ _, fun x hx y hy => ?_⟩⟩
    · rcases List.mem_append.mp hx with hx | hx
      · exact hlog.before_end x hx
      · rw [List.mem_singleton.mp hx, hread]
        exact hkey.1
    · rw [List.mem_singleton.mp hy, hread]
      exact hkey.2 x hx
  · have hnone : countedOf operation key [d] = [] := List.filter_cons_of_neg hcounted
    rw [hnone, List.append_nil]
    exact hlog

/-- No window gets more allowed requests than the limit. -/
theorem Accounts.within_of_decides (h : Accounts r.opened operation key log before)
    (hd : AuthRateLimiter.Decides r full before d.allowed after)
    (hof : d.isOf operation key = true) (hwindow : d.window = after.map (·.startedAt)) {s : ℕ}
    (hlog : (allowedIn operation key s log).length ≤ authRateLimit) :
    (allowedIn operation key s (log ++ [d])).length ≤ authRateLimit := by
  have hlimit : 1 ≤ authRateLimit := by decide
  have hone := @allowedIn_singleton operation key d hof s
  rw [allowedIn_append, List.length_append, hone]
  split
  · next hcounts =>
    obtain ⟨hallowed, hs⟩ := hcounts
    rw [hwindow] at hs
    rw [hallowed] at hd
    cases hd with
    | @opens start hbefore hstart hend hopen =>
      have hsame : start = s := by simpa using hs
      subst hsame
      rw [h.allowedIn_of_opens hbefore hstart]
      exact hlimit
    | @counts w hw hopen hcount =>
      have hsame : w.startedAt = s := by simpa using hs
      subst hsame
      rw [← h.requests_eq w hw]
      exact hcount
  · simpa using hlog

/-- A denied request finds the limiter full and without its window, or its open window used up. -/
theorem Accounts.denied_of_decides (h : Accounts r.opened operation key log before)
    (hd : AuthRateLimiter.Decides r full before false after)
    (hwindow : d.window = after.map (·.startedAt)) :
    before = none ∧ full = true ∨ ∃ start, d.window = some start ∧
      r.checked < start + authRatePeriod ∧
        (allowedIn operation key start log).length = authRateLimit := by
  rw [hwindow]
  cases hd with
  | refused hnone hfull => exact .inl ⟨hnone, hfull⟩
  | @denies w hw hopen hcount =>
    refine .inr ⟨w.startedAt, rfl, hopen, ?_⟩
    rw [← h.requests_eq w hw]
    exact le_antisymm (h.requests_le w hw) hcount

/-- A call keeps all accounts. -/
theorem Kept.step (h : Kept now log l) (c : AllowCall) (hnow : now ≤ c.readings.cleanup) :
    Kept c.readings.restarted (log ++ [l.decision c]) (l.apply c) := by
  have hdecides := l.decides_allow c
  have hwindow : (l.decision c).window =
      ((l.apply c).get (rateKey c.operation c.key)).map (·.startedAt) := rfl
  have hof : (l.decision c).isOf c.operation c.key = true :=
    AllowDecision.isOf_iff.mpr ⟨rfl, rfl⟩
  -- Two operations or two keys have windows of their own.
  have hother {operation : AuthOperation} {key : String}
      (hof : ¬(l.decision c).isOf operation key = true) :
      rateKey operation key ≠ rateKey c.operation c.key := fun heq => by
    obtain ⟨hop, hkey⟩ := rateKey_inj.mp heq
    exact hof (AllowDecision.isOf_iff.mpr ⟨hop.symm, hkey.symm⟩)
  have hown {operation : AuthOperation} {key : String}
      (hof : (l.decision c).isOf operation key = true) :
      c.operation = operation ∧ c.key = key := AllowDecision.isOf_iff.mp hof
  refine ⟨fun operation key => ?_, fun operation key start => ?_, fun operation key => ?_,
    fun d hd hallowed => ?_⟩
  · have hswept := (h.accounts operation key).sweep hnow
    by_cases hof : (l.decision c).isOf operation key = true
    · obtain ⟨rfl, rfl⟩ := hown hof
      exact hswept.own hdecides hof hwindow
    · rw [AuthRateLimiter.get_apply_of_ne (hother hof)]
      have hlater := le_trans c.readings.opened_le c.readings.checked_le
      exact (hswept.other (Bool.eq_false_iff.mpr hof)).mono hlater
  · have hswept := (h.accounts operation key).sweep hnow
    by_cases hof : (l.decision c).isOf operation key = true
    · obtain ⟨rfl, rfl⟩ := hown hof
      exact hswept.within_of_decides hdecides hof hwindow (h.within _ _ start)
    · rw [allowedIn_append]
      simpa [allowedIn, hof] using h.within operation key start
  · have hswept := (h.accounts operation key).sweep hnow
    by_cases hof : (l.decision c).isOf operation key = true
    · obtain ⟨rfl, rfl⟩ := hown hof
      exact hswept.apart_of_decides hdecides hwindow rfl (h.apart _ _)
    · rw [countedOf_append]
      simpa [countedOf, hof] using h.apart operation key
  · rcases List.mem_append.mp hd with hd | hd
    · exact h.counted d hd hallowed
    · rw [List.mem_singleton.mp hd] at hallowed ⊢
      rw [hallowed] at hdecides
      rw [hwindow]
      generalize (l.apply c).get (rateKey c.operation c.key) = after at hdecides
      cases hdecides <;> rfl

/-- A run of calls keeps all accounts. -/
theorem Kept.run (h : Kept now log l) {calls : List AllowCall} (hcalls : Timely now calls) :
    ∃ later, Kept later (log ++ l.decisions calls) (l.final calls) := by
  induction calls generalizing now log l with
  | nil => exact ⟨now, by simpa [AuthRateLimiter.decisions, AuthRateLimiter.final] using h⟩
  | cons c calls ih =>
    obtain ⟨later, hlater⟩ := ih (h.step c hcalls.1) hcalls.2
    refine ⟨later, ?_⟩
    rw [List.append_assoc, List.singleton_append] at hlater
    exact hlater

/-- A decision of a run is that of its call, on the limiter that the calls before it left. -/
theorem exists_of_getElem?_decisions {calls : List AllowCall} {n : ℕ}
    (hd : (l.decisions calls)[n]? = some d) : ∃ c, calls[n]? = some c ∧
      d = (l.final (calls.take n)).decision c ∧
        (l.decisions calls).take n = l.decisions (calls.take n) := by
  induction calls generalizing l n with
  | nil => cases hd
  | cons c calls ih =>
    cases n with
    | zero => exact ⟨c, rfl, (Option.some.inj hd).symm, rfl⟩
    | succ n =>
      obtain ⟨c', hc', heq, htake⟩ := ih hd
      exact ⟨c', hc', heq, congrArg (l.decision c :: ·) htake⟩

/-- The accounts that a call of a run finds were kept up to a time before its cleanup. -/
theorem Kept.found (h : Kept now log l) {calls : List AllowCall} (hcalls : Timely now calls) {n : ℕ}
    {c : AllowCall} (hc : calls[n]? = some c) : ∃ before ≤ c.readings.cleanup,
      Kept before (log ++ l.decisions (calls.take n)) (l.final (calls.take n)) := by
  induction calls generalizing now log l n with
  | nil => cases hc
  | cons c' calls ih =>
    cases n with
    | zero =>
      obtain rfl : c' = c := Option.some.inj hc
      exact ⟨now, hcalls.1, by simpa [AuthRateLimiter.decisions, AuthRateLimiter.final] using h⟩
    | succ n =>
      obtain ⟨before, hle, hkept⟩ := ih (h.step c' hcalls.1) hcalls.2 hc
      rw [List.append_assoc, List.singleton_append] at hkept
      exact ⟨before, hle, hkept⟩

/-- An interval that is not longer than the period allows at most twice the limit. -/
theorem Kept.allowedBetween_le (h : Kept now log l) {first last : ℕ}
    (hinterval : last ≤ first + authRatePeriod) :
    (allowedBetween operation key first last log).length ≤ 2 * authRateLimit := by
  have hsub : (allowedBetween operation key first last log).Sublist
      (countedOf operation key log) := by
    have hfilter : allowedBetween operation key first last log =
        (countedOf operation key log).filter fun d => d.allowed &&
          decide (first ≤ d.readings.checked ∧ d.readings.checked ≤ last) := by
      rw [countedOf, List.filter_filter, allowedBetween]
      refine List.filter_congr fun d hd => ?_
      cases hallowed : d.allowed with
      | false => simp
      | true => simp [h.counted d hd hallowed, Bool.and_comm]
    rw [hfilter]
    exact List.filter_sublist
  have hwithin (w : ℕ) : ((allowedBetween operation key first last log).filter
      (·.start == w)).length ≤ authRateLimit := by
    refine le_trans ?_ (h.within operation key w)
    rw [allowedBetween, List.filter_filter, ← List.countP_eq_length_filter, allowedIn,
      ← List.countP_eq_length_filter]
    refine List.countP_mono_left fun d hd hcounts => ?_
    simp only [Bool.and_eq_true, beq_iff_eq] at hcounts ⊢
    obtain ⟨hstart, ⟨hof, hallowed⟩, -⟩ := hcounts
    obtain ⟨s, hs⟩ := Option.isSome_iff_exists.mp (h.counted d hd hallowed)
    rw [AllowDecision.start, hs, Option.getD_some] at hstart
    exact ⟨⟨hof, hallowed⟩, by rw [hs, hstart]⟩
  have hbetween : ∀ d ∈ allowedBetween operation key first last log,
      first ≤ d.readings.checked ∧ d.readings.checked ≤ first + authRatePeriod := by
    intro d hd
    have hcounts := (List.mem_filter.mp hd).2
    simp only [Bool.and_eq_true, decide_eq_true_eq] at hcounts
    omega
  exact ((h.apart operation key).sublist hsub).length_le hwithin hbetween

/-- A later window of an operation and a key starts a whole period after an earlier one. -/
theorem Kept.pairwise_apart (h : Kept now log l) : log.Pairwise fun d d' =>
    d'.operation = d.operation → d'.key = d.key → ∀ window window', d.window = some window →
      d'.window = some window' → window' = window ∨ window + authRatePeriod ≤ window' := by
  refine List.pairwise_iff_forall_sublist.mpr fun {d d'} hsub hop hkey w w' hw hw' => ?_
  have hd : (d.isOf d.operation d.key && d.window.isSome) = true := by
    simp [AllowDecision.isOf, hw]
  have hd' : (d'.isOf d.operation d.key && d'.window.isSome) = true := by
    simp [AllowDecision.isOf, hw', hop, hkey]
  have hpair : [d, d'].Sublist (countedOf d.operation d.key log) := by
    have hboth : countedOf d.operation d.key [d, d'] = [d, d'] := by
      simp only [countedOf, List.filter_cons, hd, hd', if_true, List.filter_nil]
    rw [← hboth]
    exact hsub.filter _
  have hapart := List.pairwise_iff_forall_sublist.mp (h.apart d.operation d.key).apart hpair
  rw [AllowDecision.start, AllowDecision.start, hw, hw'] at hapart
  exact hapart.imp_right And.left

end

/-- A new limiter keeps nothing of an empty log. -/
theorem kept_new (now : ℕ) : Kept now [] (.new now) where
  accounts _ _ := ⟨nofun, nofun, nofun, nofun⟩
  within _ _ _ := Nat.zero_le _
  apart _ _ := ⟨nofun, .nil⟩
  counted := nofun

/-- A denied request of a run finds the limiter full and without its window, or its open window used
up by the requests before it. -/
theorem denied_of_timely {start : ℕ} {calls : List AllowCall} {n : ℕ} {d : AllowDecision}
    (hcalls : Timely start calls) (hd : ((AuthRateLimiter.new start).decisions calls)[n]? = some d)
    (hdenied : d.allowed = false) :
    (((AuthRateLimiter.new start).final (calls.take n)).sweep d.readings).IsFullFor
      (rateKey d.operation d.key) ∨
    ∃ window, d.window = some window ∧ d.readings.checked < window + authRatePeriod ∧
      (allowedIn d.operation d.key window
        (((AuthRateLimiter.new start).decisions calls).take n)).length = authRateLimit := by
  obtain ⟨c, hc, rfl, htake⟩ := exists_of_getElem?_decisions hd
  obtain ⟨now, hle, hkept⟩ := (kept_new start).found hcalls hc
  rw [List.nil_append] at hkept
  have hdecides := ((AuthRateLimiter.new start).final (calls.take n)).decides_allow c
  rw [hdenied] at hdecides
  rw [htake]
  exact (((hkept.accounts c.operation c.key).sweep hle).denied_of_decides hdecides rfl).imp_left
    fun ⟨hnone, hfull⟩ => ⟨hnone, of_decide_eq_true hfull⟩

/-- What a limiter guarantees of the decisions of its calls. -/
structure BoundedAndFair (start : ℕ) (calls : List AllowCall) : Prop where
  /-- The limiter never holds more windows than it may. -/
  bounded : ∀ n, ((AuthRateLimiter.new start).final (calls.take n)).windows.length ≤ authRateMaxKeys
  /-- A window allows at most the limit. -/
  within : ∀ operation key window,
    (allowedIn operation key window ((AuthRateLimiter.new start).decisions calls)).length ≤
      authRateLimit
  /-- An interval that is not longer than the period allows at most twice the limit. -/
  twice : ∀ operation key first last, last ≤ first + authRatePeriod →
    (allowedBetween operation key first last
      ((AuthRateLimiter.new start).decisions calls)).length ≤ 2 * authRateLimit
  /-- A later window of an operation and a key starts a whole period after an earlier one. -/
  apart : ((AuthRateLimiter.new start).decisions calls).Pairwise fun d d' =>
    d'.operation = d.operation → d'.key = d.key → ∀ window window', d.window = some window →
      d'.window = some window' → window' = window ∨ window + authRatePeriod ≤ window'
  /-- The window of an operation and a key counts the allowed requests of just these. -/
  budget : ∀ operation key w,
    ((AuthRateLimiter.new start).final calls).get (rateKey operation key) = some w →
      w.requests = (allowedIn operation key w.startedAt
        ((AuthRateLimiter.new start).decisions calls)).length
  /-- A request is denied only when, after the cleanup of its call, the limiter has no window of its
  operation and key and holds as many windows as it may, or when the open window of just these has
  allowed as many requests as it may. -/
  denied : ∀ n d, ((AuthRateLimiter.new start).decisions calls)[n]? = some d → d.allowed = false →
    (((AuthRateLimiter.new start).final (calls.take n)).sweep d.readings).IsFullFor
      (rateKey d.operation d.key) ∨
    ∃ window, d.window = some window ∧ d.readings.checked < window + authRatePeriod ∧
      (allowedIn d.operation d.key window
        (((AuthRateLimiter.new start).decisions calls).take n)).length = authRateLimit

/-- The limiter of authentication requests is bounded and fair, over every run of calls. -/
theorem auth_rate_limiter_bounded_and_fair {start : ℕ} {calls : List AllowCall}
    (hcalls : Timely start calls) : BoundedAndFair start calls := by
  obtain ⟨later, hkept⟩ := (kept_new start).run hcalls
  rw [List.nil_append] at hkept
  constructor
  · exact fun n => AuthRateLimiter.length_final_le (Nat.zero_le _) _
  · exact hkept.within
  · exact fun operation key first last hinterval => hkept.allowedBetween_le hinterval
  · exact hkept.pairwise_apart
  · exact fun operation key w hw => (hkept.accounts operation key).requests_eq w hw
  · exact fun n d hd => denied_of_timely hcalls hd

/-- The readings of a clock that stands still during a call. -/
def ClockReadings.at (now : ℕ) : ClockReadings where
  cleanup := now
  swept _ := now
  cleaned := now
  opened := now
  checked := now
  restarted := now
  cleanup_le _ := le_rfl
  swept_le _ := le_rfl
  cleaned_le := le_rfl
  opened_le := le_rfl
  checked_le := le_rfl

/-- A login, a refresh with the same key, and a login after the period. -/
theorem auth_rate_limiter_sample : BoundedAndFair 0
    [⟨.login, "client:user", .at 5⟩, ⟨.refresh, "client:user", .at 7⟩,
      ⟨.login, "client:user", .at (5 + authRatePeriod)⟩] :=
  auth_rate_limiter_bounded_and_fair ⟨by decide, by decide, by decide, trivial⟩

end TaskTipsCloud
