import TaskTipsCloud.Encoders
import TaskTipsCloud.Library.DateTimeText
import TaskTipsCloud.Service

/-!
# Stored responses of earlier versions

`migrate_stored_push_response` of `crates/persistence/src/lib.rs`. Earlier versions stored the
results of a push under other names and with other texts of instants. Such a response is brought to
what is written now, up to zeros at the end of a fraction; any other value is left as it is, and so
is what was migrated before.
-/

namespace TaskTipsCloud

open Calendar DateTimeText

/-! ## Instants in UTC -/

/-- The days from the start of the year 0 to the Unix epoch. -/
def epochDay : ℕ := 719528

/-- The instant of a date and a time in UTC. -/
def utcInstant (d : Date) (c : Clock) : OffsetDateTime :=
  ⟨((d.number : ℤ) - epochDay) * (86400 * 10 ^ 9) + c.nanos, 0⟩

/-- An instant in UTC with a year from 0 to 9999. -/
structure OffsetDateTime.IsUtc (t : OffsetDateTime) : Prop where
  offset : t.offsetSeconds = 0
  start : yearZero * 1000 ≤ t.unixNanos
  stop : t.unixNanos < maxUtcNanos

namespace OffsetDateTime

/-- The nanoseconds from the start of the year 0. -/
def nanosFromYearZero (t : OffsetDateTime) : ℕ := (t.unixNanos - yearZero * 1000).toNat

/-- The date in UTC. -/
def utcDate (t : OffsetDateTime) : Date := .ofNumber (t.nanosFromYearZero / (86400 * 10 ^ 9))

/-- The time in UTC. -/
def utcClock (t : OffsetDateTime) : Clock := .ofNanos (t.nanosFromYearZero % (86400 * 10 ^ 9))

variable {t : OffsetDateTime}

/-- An instant in UTC is that of its date and time. -/
theorem IsUtc.utcInstant_eq (h : t.IsUtc) : utcInstant t.utcDate t.utcClock = t := by
  obtain ⟨nanos, offset⟩ := t
  obtain ⟨hoffset, hstart, -⟩ := h
  dsimp only at hoffset hstart
  subst hoffset
  have hclock : (utcClock ⟨nanos, 0⟩).nanos = nanosFromYearZero ⟨nanos, 0⟩ % (86400 * 10 ^ 9) :=
    Clock.nanos_ofNanos (Nat.mod_lt _ (by decide))
  have hdate : (utcDate ⟨nanos, 0⟩).number = nanosFromYearZero ⟨nanos, 0⟩ / (86400 * 10 ^ 9) :=
    Date.number_ofNumber _
  have hnanos : (nanosFromYearZero ⟨nanos, 0⟩ : ℤ) = nanos - yearZero * 1000 :=
    Int.toNat_of_nonneg (by simpa using hstart)
  have hzero : yearZero * 1000 = -(719528 * (86400 * 10 ^ 9)) := by decide
  rw [hzero] at hnanos
  rw [utcInstant, hclock, hdate, epochDay]
  generalize nanosFromYearZero ⟨nanos, 0⟩ = n at hnanos
  congr 1
  omega

/-- Its year has four digits. -/
theorem IsUtc.year_lt (h : t.IsUtc) : t.utcDate.year < 10 ^ 4 := by
  refine yearOf_lt ?_
  have hstop := h.stop
  have hstart := h.start
  have hzero : yearZero * 1000 = -(719528 * (86400 * 10 ^ 9)) := by decide
  have hmax : maxUtcNanos = (3652425 - 719528) * (86400 * 10 ^ 9) := by decide
  have hdays : daysBeforeYear (10 ^ 4) = 3652425 := by decide
  rw [hdays, nanosFromYearZero]
  rw [hzero] at hstart ⊢
  rw [hmax] at hstop
  omega

end OffsetDateTime

/-! ## Texts of instants -/

/-- What the library does with texts in UTC: it reads those of RFC 3339 with up to nine digits of a
fraction, it does not read an offset with seconds, and it writes no zeros at the end of a
fraction. -/
structure UtcTexts (host : Host) where
  /-- The instant of an RFC 3339 text. -/
  parse : String → Option OffsetDateTime
  isRfc3339_eq : ∀ s, host.isRfc3339 s = (parse s).isSome
  parse_utcText : ∀ (d : Date) (c : Clock) (digits : List Char), d.year < 10 ^ 4 →
    (∀ x ∈ digits, x.isDigit = true) → digits.length ≤ 9 → nanosOf digits = c.nanosecond →
      parse (String.ofList (utcText d c digits)) = some (utcInstant d c)
  parse_seconds : ∀ cs, parse (String.ofList (cs ++ " +00:00:00".toList)) = none
  rfc3339_utc : ∀ t : OffsetDateTime, t.IsUtc → host.rfc3339 t =
    some (String.ofList
      (utcText t.utcDate t.utcClock (dropZeros (decimal 9 t.utcClock.nanosecond))))

/-- How many digits of the nanoseconds an earlier version wrote: at least one, and all but zeros. -/
structure LegacyFraction where
  width : ℕ → ℕ
  width_pos : ∀ n, 1 ≤ width n
  zeros : ∀ n < 10 ^ 9, ∀ c ∈ (decimal 9 n).drop (width n), c = '0'

/-- The digits of a fraction that an earlier version wrote. -/
def LegacyFraction.digits (f : LegacyFraction) (n : ℕ) : List Char := (decimal 9 n).take (f.width n)

/-- The text of an instant in UTC as earlier versions wrote it. -/
def legacyText (f : LegacyFraction) (t : OffsetDateTime) : String :=
  String.ofList (dateText t.utcDate ++ ' ' :: (clockText t.utcClock ++
    (fraction (f.digits t.utcClock.nanosecond) ++ " +00:00:00".toList)))

/-! ## Responses -/

/-- The JSON of an item's result as earlier versions wrote it. -/
def PushItemResult.legacyJson (f : LegacyFraction) : PushItemResult → Json
  | .applied kind id revision changeSequence changedAt =>
    .obj [("status", .str "applied"),
      ("kind", .str kind.asStr),
      ("id", .str id),
      ("revision", .num revision),
      ("change_sequence", .num changeSequence),
      ("changed_at", .str (legacyText f changedAt))]
  | .conflict kind id expectedRevision actualRevision =>
    .obj [("status", .str "conflict"),
      ("kind", .str kind.asStr),
      ("id", .str id),
      ("expected_revision", .ofOption .num expectedRevision),
      ("actual_revision", .ofOption .num actualRevision)]
  | .rejected kind id code message details =>
    .obj ([("status", .str "rejected"),
      ("kind", .str kind.asStr),
      ("id", .str id),
      ("code", .str code),
      ("message", .str message)] ++ details.toList.map (("details", ·)))

/-- The response of an executed push as earlier versions wrote it. -/
def legacyResponseJson (f : LegacyFraction) (generation : ℤ) (results : List PushItemResult) :
    Json :=
  .obj [("generation", .num generation), ("results", .arr (results.map (·.legacyJson f)))]

/-- The instants of a result are in UTC. -/
def PushItemResult.IsUtc : PushItemResult → Prop
  | .applied _ _ _ _ changedAt => changedAt.IsUtc
  | _ => True

/-- An item without the zeros at the end of the fraction of its instant. -/
def trimResult (item : Json) : Json :=
  match (item.get? "changedAt").bind (·.str?) with
  | some text => item.set "changedAt" (.str (String.ofList (trimFraction text.toList)))
  | none => item

/-- A response without the zeros at the end of the fractions of its instants. -/
def trimResponse (response : Json) : Json :=
  match (response.get? "results").bind (·.arr?) with
  | some results => response.set "results" (.arr (results.map trimResult))
  | none => response

/-- The items of a response. -/
def resultItems (response : Json) : List Json :=
  ((response.get? "results").bind (·.arr?)).getD []

/-- An item of the response has a name of an earlier version. -/
def HasLegacyName (response : Json) : Prop :=
  ∃ members, .obj members ∈ resultItems response ∧ ∃ m ∈ members, m.1 ∈ legacyNames

/-! ## One instant -/

section

variable {host : Host} {f : LegacyFraction} {t : OffsetDateTime}

/-- An old fraction is written in digits. -/
theorem LegacyFraction.isDigit_of_mem {n : ℕ} {c : Char} (h : c ∈ f.digits n) : c.isDigit = true :=
  isDigit_of_mem_decimal (List.mem_of_mem_take h)

/-- It has at most nine digits. -/
theorem LegacyFraction.length_digits_le (f : LegacyFraction) (n : ℕ) : (f.digits n).length ≤ 9 :=
  (List.length_take_le' _ _).trans (length_decimal 9 n).le

/-- The current text of an instant with the fraction of the earlier one. -/
def migratedText (f : LegacyFraction) (t : OffsetDateTime) : String :=
  String.ofList (utcText t.utcDate t.utcClock (f.digits t.utcClock.nanosecond))

/-- The migrated text is that of the same instant. -/
theorem parse_migratedText (texts : UtcTexts host) (h : t.IsUtc) :
    texts.parse (migratedText f t) = some t := by
  have hnanos := nanosOf_take t.utcClock.nanosecond_lt (f.zeros _ t.utcClock.nanosecond_lt)
  rw [migratedText, texts.parse_utcText t.utcDate t.utcClock _ h.year_lt
    (fun _ => LegacyFraction.isDigit_of_mem) (f.length_digits_le _) hnanos, h.utcInstant_eq]

/-- Without the zeros, the migrated text is the one that is written now. -/
theorem rfc3339_eq_trimFraction (texts : UtcTexts host) (h : t.IsUtc) :
    host.rfc3339 t = some (String.ofList (trimFraction (migratedText f t).toList)) := by
  rw [texts.rfc3339_utc t h, migratedText, String.toList_ofList,
    trimFraction_utcText fun _ => LegacyFraction.isDigit_of_mem, LegacyFraction.digits,
    dropZeros_take (f.zeros _ t.utcClock.nanosecond_lt)]

/-- The text of an earlier version is migrated. -/
theorem migrateLegacyTimestamp_legacyText (texts : UtcTexts host) (h : t.IsUtc) :
    migrateLegacyTimestamp host (.str (legacyText f t)) = .str (migratedText f t) := by
  have hold : host.isRfc3339 (legacyText f t) = false := by
    have hsplit : legacyText f t = String.ofList ((dateText t.utcDate ++ ' ' ::
        (clockText t.utcClock ++ fraction (f.digits t.utcClock.nanosecond))) ++
          " +00:00:00".toList) := by simp [legacyText]
    rw [texts.isRfc3339_eq, hsplit, texts.parse_seconds]
    rfl
  have hnew : host.isRfc3339 (migratedText f t) = true := by
    rw [texts.isRfc3339_eq, parse_migratedText texts h]
    rfl
  have hdate : ' ' ∉ dateText t.utcDate := notMem_dateText (by decide) (by decide)
  generalize hstem : clockText t.utcClock ++ fraction (f.digits t.utcClock.nanosecond) = stem
  have hlegacy : (legacyText f t).toList =
      (dateText t.utcDate ++ ' ' :: stem) ++ ' ' :: "+00:00:00".toList := by
    rw [legacyText, String.toList_ofList, ← hstem]
    simp
  have hoffset : (((legacyText f t).toList.reverse.takeWhile (· ≠ ' ')).reverse) =
      "+00:00:00".toList := by
    have hreverse : (legacyText f t).toList.reverse =
        "+00:00:00".toList.reverse ++ ' ' :: (dateText t.utcDate ++ ' ' :: stem).reverse := by
      rw [hlegacy]
      simp
    rw [hreverse, List.takeWhile_append_of_pos (List.all_eq_true.mp (by decide)),
      List.takeWhile_cons_of_neg (by decide), List.append_nil, List.reverse_reverse]
  have hstamp : (legacyText f t).toList.take ((legacyText f t).toList.length -
      "+00:00:00".toList.length - 1) = dateText t.utcDate ++ ' ' :: stem := by
    rw [hlegacy]
    exact List.take_left' (by simp; omega)
  have hday : (dateText t.utcDate ++ ' ' :: stem).takeWhile (· ≠ ' ') = dateText t.utcDate := by
    have hall : ∀ c ∈ dateText t.utcDate, decide (c ≠ ' ') = true := fun c hc =>
      decide_eq_true fun heq => hdate (heq ▸ hc)
    rw [List.takeWhile_append_of_pos hall, List.takeWhile_cons_of_neg (by decide), List.append_nil]
  have hcandidate : String.ofList (dateText t.utcDate ++ 'T' :: stem ++ ['Z']) =
      migratedText f t := by
    rw [migratedText, utcText, ← hstem]
    simp
  unfold migrateLegacyTimestamp
  simp only [Json.str?_str, hold, Bool.false_eq_true, if_false, hoffset, hstamp, hday,
    List.drop_left, List.drop_one, List.tail_cons, reduceCtorEq, hcandidate, hnew, if_true]
  rw [if_neg]
  rw [hlegacy]
  simp

/-! ## One item -/

/-- The instant of an item is migrated. -/
theorem migrateResult_applied (texts : UtcTexts host) (h : t.IsUtc) (kind : ObjectKind)
    (id : String)
    (revision changeSequence : ℤ) :
    migrateResult host ((PushItemResult.applied kind id revision changeSequence t).legacyJson f) =
      .obj [("status", .str "applied"),
        ("kind", .str kind.asStr),
        ("id", .str id),
        ("revision", .num revision),
        ("changeSequence", .num changeSequence),
        ("changedAt", .str (migratedText f t))] := by
  simp [PushItemResult.legacyJson, migrateResult, migrateResultObject, migrateMember,
    migrateLegacyTimestamp_legacyText texts h]

/-- An item is migrated to what is written now, up to the zeros. -/
theorem toJson_eq_trimResult (texts : UtcTexts host) {result : PushItemResult} (h : result.IsUtc) :
    result.toJson host = some (trimResult (migrateResult host (result.legacyJson f))) := by
  cases result with
  | applied kind id revision changeSequence changedAt =>
    rw [migrateResult_applied texts h, PushItemResult.toJson,
      rfc3339_eq_trimFraction (f := f) texts h]
    simp [trimResult, Json.set, Json.setMember]
  | conflict kind id expectedRevision actualRevision =>
    simp [PushItemResult.toJson, PushItemResult.legacyJson, migrateResult, migrateResultObject,
      migrateMember, trimResult]
  | rejected kind id code message details =>
    rw [PushItemResult.legacyJson, migrateResult,
      migrateResultObject_of_current (by cases details <;> simp [legacyNames])]
    cases details <;> simp [PushItemResult.toJson, trimResult]

/-! ## Responses -/

/-- The results of a migrated response are those that are written now. -/
theorem mapM_toJson (texts : UtcTexts host) {results : List PushItemResult}
    (h : ∀ r ∈ results, r.IsUtc) : results.mapM (PushItemResult.toJson host) =
      some ((results.map (·.legacyJson f)).map fun item =>
        trimResult (migrateResult host item)) := by
  induction results with
  | nil => rfl
  | cons r results ih =>
    rw [List.mapM_cons, toJson_eq_trimResult (f := f) texts (h r List.mem_cons_self),
      ih fun r hr => h r (List.mem_cons_of_mem _ hr)]
    rfl

/-- What a migration makes of the items of a response. -/
theorem resultItems_migrate (response : Json) :
    resultItems (migrateStoredPushResponse host response) =
      (resultItems response).map (migrateResult host) := by
  unfold migrateStoredPushResponse resultItems
  cases hresults : (response.get? "results").bind (·.arr?) with
  | none =>
    dsimp only
    rw [hresults]
    rfl
  | some results =>
    obtain ⟨v, hv, -⟩ := Option.bind_eq_some_iff.mp hresults
    dsimp only
    rw [Json.get?_set, if_pos rfl, hv]
    rfl

/-- A stored response of an earlier version is migrated to what is written now, up to the zeros. -/
theorem pushResponseJson_eq_trimResponse (texts : UtcTexts host) (generation : ℤ)
    {results : List PushItemResult} (h : ∀ r ∈ results, r.IsUtc) :
    pushResponseJson host generation results = some (trimResponse
      (migrateStoredPushResponse host (legacyResponseJson f generation results))) := by
  have hmigrated : migrateStoredPushResponse host (legacyResponseJson f generation results) =
      .obj [("generation", .num generation),
        ("results", .arr ((results.map (·.legacyJson f)).map (migrateResult host)))] := by
    simp [migrateStoredPushResponse, legacyResponseJson, Json.set, Json.setMember]
  rw [hmigrated, pushResponseJson, mapM_toJson (f := f) texts h]
  simp [trimResponse, Json.set, Json.setMember]

/-- A migrated item has no name of an earlier version. -/
theorem migrateMember_notMem (m : String × Json) : (migrateMember host m).1 ∉ legacyNames := by
  obtain ⟨name, value⟩ := m
  unfold migrateMember
  split <;> simp_all [legacyNames]

/-- A response without a name of an earlier version stays as it is. -/
theorem migrateStoredPushResponse_of_current {response : Json} (h : ¬HasLegacyName response) :
    migrateStoredPushResponse host response = response := by
  unfold migrateStoredPushResponse
  cases hresults : (response.get? "results").bind (·.arr?) with
  | none => rfl
  | some results =>
    have hitems : results.map (migrateResult host) = results.map id :=
      List.map_congr_left fun item hitem => by
        cases item with
        | obj members =>
          have hcurrent : ∀ m ∈ members, m.1 ∉ legacyNames := fun m hm hname =>
            h ⟨members, by rw [resultItems, hresults]; exact hitem, m, hm, hname⟩
          rw [migrateResult, migrateResultObject_of_current hcurrent]
          rfl
        | _ => rfl
    obtain ⟨v, hv, harr⟩ := Option.bind_eq_some_iff.mp hresults
    have hsome : response.get? "results" = some (.arr results) := by
      cases v <;> cases harr
      exact hv
    dsimp only
    rw [hitems, List.map_id]
    exact Json.set_of_get? hsome

/-- A response is migrated once. -/
theorem migrateStoredPushResponse_idempotent (response : Json) :
    migrateStoredPushResponse host (migrateStoredPushResponse host response) =
      migrateStoredPushResponse host response := by
  refine migrateStoredPushResponse_of_current ?_
  rintro ⟨members, hmem, m, hm, hname⟩
  rw [resultItems_migrate] at hmem
  obtain ⟨item, -, hitem⟩ := List.mem_map.mp hmem
  cases item with
  | obj olds =>
    cases hitem
    obtain ⟨old, -, rfl⟩ := List.mem_map.mp hm
    exact migrateMember_notMem old hname
  | _ => cases hitem

/-- The migrated item of a result that was applied has a text of its instant. -/
theorem exists_migratedText (texts : UtcTexts host) (generation : ℤ) {results : List PushItemResult}
    {i : ℕ} {kind : ObjectKind} {id : String} {revision changeSequence : ℤ}
    (hi : results[i]? = some (.applied kind id revision changeSequence t)) (h : t.IsUtc) :
    ∃ item text, (resultItems (migrateStoredPushResponse host
      (legacyResponseJson f generation results)))[i]? = some item ∧
        item.get? "changedAt" = some (.str text) ∧ host.isRfc3339 text = true ∧
          texts.parse text = some t := by
  have hitems : resultItems (legacyResponseJson f generation results) =
      results.map (·.legacyJson f) := by simp [resultItems, legacyResponseJson]
  have hparse := parse_migratedText (f := f) texts h
  have hmigrated : (resultItems (migrateStoredPushResponse host
      (legacyResponseJson f generation results)))[i]? = some (migrateResult host
        ((PushItemResult.applied kind id revision changeSequence t).legacyJson f)) := by
    rw [resultItems_migrate, hitems, List.getElem?_map, List.getElem?_map, hi, Option.map_some,
      Option.map_some]
  refine ⟨_, migratedText f t, hmigrated, ?_, by rw [texts.isRfc3339_eq, hparse]; rfl, hparse⟩
  rw [migrateResult_applied texts h]
  simp

end

/-- What the migration of stored responses guarantees. -/
structure MigratesFaithfully {host : Host} (texts : UtcTexts host) : Prop where
  /-- A response of an earlier version becomes what is written now, up to zeros at the end of a
  fraction. -/
  legacy : ∀ (f : LegacyFraction) (generation : ℤ) (results : List PushItemResult),
    (∀ r ∈ results, r.IsUtc) → pushResponseJson host generation results =
      some (trimResponse
        (migrateStoredPushResponse host (legacyResponseJson f generation results)))
  /-- Its instants have RFC 3339 texts of the same instants. -/
  instants : ∀ (f : LegacyFraction) (generation : ℤ) (results : List PushItemResult) (i : ℕ)
    (kind : ObjectKind) (id : String) (revision changeSequence : ℤ) (t : OffsetDateTime),
    results[i]? = some (.applied kind id revision changeSequence t) → t.IsUtc →
      ∃ item text, (resultItems (migrateStoredPushResponse host
        (legacyResponseJson f generation results)))[i]? = some item ∧
          item.get? "changedAt" = some (.str text) ∧ host.isRfc3339 text = true ∧
            texts.parse text = some t
  /-- A second migration changes nothing. -/
  idempotent : ∀ j : Json, migrateStoredPushResponse host (migrateStoredPushResponse host j) =
    migrateStoredPushResponse host j
  /-- A value without a name of an earlier version stays as it is. -/
  identity : ∀ j : Json, ¬HasLegacyName j → migrateStoredPushResponse host j = j

/-- Stored responses are migrated faithfully. -/
theorem stored_responses_migrate {host : Host} (texts : UtcTexts host) :
    MigratesFaithfully texts where
  legacy _ generation _ h := pushResponseJson_eq_trimResponse texts generation h
  instants _ generation _ _ _ _ _ _ _ hi h := exists_migratedText texts generation hi h
  idempotent := migrateStoredPushResponse_idempotent
  identity _ h := migrateStoredPushResponse_of_current h

/-! ## A library -/

/-- The instant of a text: that of its date and time, less the offset. It does not read the leap
second that the library reads as the last nanosecond of its month. -/
def parseInstant (s : String) : Option OffsetDateTime :=
  (readText s.toList).map fun r =>
    ⟨(utcInstant r.1 r.2.1).unixNanos - r.2.2 * 10 ^ 9, r.2.2⟩

/-- The text of an offset in minutes. -/
def offsetText (seconds : ℤ) : List Char :=
  let minutes := seconds.natAbs / 60
  if seconds = 0 then ['Z']
  else (if seconds < 0 then '-' else '+') ::
    (decimal 2 (minutes / 60) ++ ':' :: decimal 2 (minutes % 60))

/-- The RFC 3339 text of an instant at its offset, with the shortest fraction. -/
def instantText (t : OffsetDateTime) : Option String :=
  let here : OffsetDateTime := ⟨t.unixNanos + t.offsetSeconds * 10 ^ 9, 0⟩
  if yearZero * 1000 ≤ here.unixNanos ∧ here.unixNanos < maxUtcNanos ∧ t.offsetSeconds % 60 = 0 then
    some (String.ofList (dateText here.utcDate ++ 'T' :: (clockText here.utcClock ++
      (fraction (dropZeros (decimal 9 here.utcClock.nanosecond)) ++ offsetText t.offsetSeconds))))
  else none

/-- The shortest fraction with a digit. -/
def shortestFraction : LegacyFraction where
  width n := max 1 (dropZeros (decimal 9 n)).length
  width_pos _ := Nat.le_max_left _ _
  zeros n _ c hc := by
    have hsplit : (decimal 9 n).drop (dropZeros (decimal 9 n)).length =
        (decimal 9 n).rtakeWhile (· = '0') := by
      conv_lhs => rw [← List.rdropWhile_append_rtakeWhile (p := (· = '0')) (l := decimal 9 n)]
      exact List.drop_left' (by rw [List.rdropWhile_append_rtakeWhile]; rfl)
    have hmem : c ∈ (decimal 9 n).drop (dropZeros (decimal 9 n)).length :=
      (List.drop_sublist_drop_left _ (Nat.le_max_right _ _)).subset hc
    rw [hsplit] at hmem
    simpa using List.mem_rtakeWhile_imp hmem

/-- The text of an instant in UTC that `Display` writes: the hour has no leading zero. -/
def displayInstant (t : OffsetDateTime) : String :=
  let text := (legacyText shortestFraction t).toList
  String.ofList (if text[11]? = some '0' then text.eraseIdx 11 else text)

/-- A host with these texts. -/
def textHost : Host where
  sha256Hex _ := sampleDigest
  rfc3339 := instantText
  isRfc3339 s := (parseInstant s).isSome
  serdeText := legacyText shortestFraction
  displayText := displayInstant

/-- The texts of the host. -/
def textHostTexts : UtcTexts textHost where
  parse := parseInstant
  isRfc3339_eq _ := rfl
  parse_utcText d c digits hyear hdigits _ hnanos := by
    rw [parseInstant, String.toList_ofList, readText_utcText hyear hdigits hnanos, Option.map_some]
    simp [utcInstant]
  parse_seconds cs := by
    rw [parseInstant, String.toList_ofList, readText_seconds, Option.map_none]
  rfc3339_utc t h := by
    obtain ⟨nanos, offset⟩ := t
    have hoffset : offset = 0 := h.offset
    subst hoffset
    have hstart := h.start
    have hstop := h.stop
    show instantText _ = _
    simp only [instantText, Int.zero_mul, Int.add_zero]
    rw [if_pos ⟨hstart, hstop, by decide⟩]
    rfl

example : (migrateLegacyTimestamp textHost (.str "2026-09-18 09:16:47.108554 +00:00:00")).str? =
    some "2026-09-18T09:16:47.108554Z" := by decide +kernel

/-- The migration is faithful with the sample texts. -/
theorem stored_responses_sample : MigratesFaithfully textHostTexts :=
  stored_responses_migrate textHostTexts

end TaskTipsCloud
