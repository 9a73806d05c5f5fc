import TaskTipsCloud.Library.Reservations
import TaskTipsCloud.PayloadStreams

/-!
# The budget of the temporary files

`TempUploadBudget` of `crates/api/src/lib.rs` together with the uploads that reserve from it:
any number of `put_payload` run at the same time, each at any operation, and each may be dropped at
any operation with its reservation. The temporary files of the uploads in progress never take more
room than the budget.
-/

namespace TaskTipsCloud

open Program

/-! ## The budget -/

/-- The value of some decimal digits. -/
def parseDigits (digits : List Char) : Option ℕ :=
  if digits ≠ [] ∧ digits.all Char.isDigit then
    some (digits.foldl (fun n c => 10 * n + (c.toNat - 48)) 0)
  else none

/-- The value of an unsigned integer of 64 bits in decimal. -/
def parseU64 (text : String) : Option ℕ :=
  (parseDigits (if text.toList.head? = some '+' then text.toList.tail else text.toList)).filter
    (· < 2 ^ 64)

/-- The budget when none is configured. -/
def defaultUploadTempMaxBytes : ℕ := 512 * 1024 * 1024

/-- The room for temporary files, by `TASKTIPS_UPLOAD_TEMP_MAX_BYTES`. -/
def uploadTempMaxBytes (value : Option String) : ℕ :=
  ((value.bind parseU64).filter (1024 * 1024 ≤ ·)).getD defaultUploadTempMaxBytes

/-- A number that is read has 64 bits. -/
theorem parseU64_lt {text : String} {n : ℕ} (h : parseU64 text = some n) : n < 2 ^ 64 :=
  of_decide_eq_true (Option.filter_eq_some_iff.mp h).2

/-- The budget has 64 bits. -/
theorem uploadTempMaxBytes_lt (value : Option String) : uploadTempMaxBytes value < 2 ^ 64 := by
  unfold uploadTempMaxBytes
  cases h : (value.bind parseU64).filter (1024 * 1024 ≤ ·) with
  | none => norm_num [defaultUploadTempMaxBytes]
  | some n =>
    obtain ⟨text, -, hparse⟩ := Option.bind_eq_some_iff.mp (Option.filter_eq_some_iff.mp h).1
    exact parseU64_lt hparse

/-! ## Uploads in progress -/

/-- The call of a reservation that was granted. -/
def granted (bytes : ℕ) : StreamCall := ⟨.reserve bytes, .ok true⟩

/-- An upload in progress: what it has called, what is left of it, and its temporary file. -/
structure UploadTask where
  upload : StreamedUpload
  calls : List StreamCall
  rest : StreamProgram Unit
  file : Option (List UInt8)

/-- An upload that begins. -/
def UploadTask.start (h : Hasher) (u : StreamedUpload) : UploadTask :=
  ⟨u, [], putPayloadStream h u, none⟩

/-- An upload after a call. -/
def UploadTask.after (t : UploadTask) (c : StreamCall) (rest : StreamProgram Unit)
    (file : Option (List UInt8)) : UploadTask := ⟨t.upload, t.calls ++ [c], rest, file⟩

/-- The size of the temporary file. -/
def UploadTask.fileSize (t : UploadTask) : ℕ := (t.file.getD []).length

/-- The calls on the budget. -/
def StreamOp.isReserve : StreamOp → Bool
  | .reserve _ => true
  | _ => false

/-- What an operation does to the temporary file of its upload. Any of them may fail; a write that
fails may have written a part. -/
inductive FileStep : (op : StreamOp) → Option (List UInt8) → Except StreamError op.Reply →
    Option (List UInt8) → Prop
  | created (file : Option (List UInt8)) : FileStep .createFile file (.ok ()) (some [])
  | notCreated (file : Option (List UInt8)) (e : StreamError) :
    FileStep .createFile file (.error e) file
  | wrote (bytes content : List UInt8) :
    FileStep (.writeAll bytes) (some content) (.ok ()) (some (content ++ bytes))
  | wrotePart {bytes part : List UInt8} (content : List UInt8) (h : part <+: bytes)
    (e : StreamError) :
    FileStep (.writeAll bytes) (some content) (.error e) (some (content ++ part))
  | removed (file : Option (List UInt8)) : FileStep .removeFile file (.ok ()) none
  | notRemoved (file : Option (List UInt8)) (e : StreamError) :
    FileStep .removeFile file (.error e) file
  /-- Streaming the file to the object store, and what is not about the file. -/
  | other {op : StreamOp} (h : op.isElsewhere = true ∨ op.stores = true)
    (file : Option (List UInt8)) (reply : Except StreamError op.Reply) : FileStep op file reply file

/-- The budget and the uploads in progress. -/
structure BudgetWorld (ι : Type) where
  budget : Counter ι
  task : ι → Option UploadTask

section

variable {ι : Type} [DecidableEq ι] {h : Hasher} {capacity : ℕ} {w w' : BudgetWorld ι} {i : ι}

/-- The world after an upload has moved on. -/
def BudgetWorld.put (w : BudgetWorld ι) (i : ι) (t : Option UploadTask) (budget : Counter ι) :
    BudgetWorld ι := ⟨budget, Function.update w.task i t⟩

/-- One step of an upload. Inside `reserve` each atomic operation is a step. -/
inductive BudgetStep (h : Hasher) (capacity : ℕ) (w : BudgetWorld ι) (i : ι) : BudgetWorld ι → Prop
  | arrives (hnone : w.task i = none) (u : StreamedUpload) :
    BudgetStep h capacity w i (w.put i (some (.start h u)) w.budget)
  | calls {t : UploadTask} {op : StreamOp} {next : Except StreamError op.Reply → StreamProgram Unit}
    (ht : w.task i = some t) (hrest : t.rest = .call op next) (hop : op.isReserve = false)
    {reply : Except StreamError op.Reply} {file : Option (List UInt8)}
    (hfile : FileStep op t.file reply file) :
    BudgetStep h capacity w i (w.put i (some (t.after ⟨op, reply⟩ (next reply) file)) w.budget)
  | reserves {t : UploadTask} {n : ℕ}
    {next : Except StreamError (StreamOp.reserve n).Reply → StreamProgram Unit}
    (ht : w.task i = some t) (hrest : t.rest = .call (.reserve n) next) {budget : Counter ι}
    (hstep : CounterStep (2 ^ 64) capacity w.budget i (.asked n) budget) :
    BudgetStep h capacity w i (w.put i (some t) budget)
  | looks {t : UploadTask} (ht : w.task i = some t) {budget : Counter ι}
    (hstep : CounterStep (2 ^ 64) capacity w.budget i .looked budget) :
    BudgetStep h capacity w i (w.put i (some t) budget)
  | answered {t : UploadTask} {n : ℕ} {grant : Bool}
    {next : Except StreamError (StreamOp.reserve n).Reply → StreamProgram Unit}
    (ht : w.task i = some t) (hrest : t.rest = .call (.reserve n) next) {budget : Counter ι}
    (hstep : CounterStep (2 ^ 64) capacity w.budget i (.answered n grant) budget) :
    BudgetStep h capacity w i
      (w.put i (some (t.after ⟨.reserve n, .ok grant⟩ (next (.ok grant)) t.file)) budget)
  /-- The upload has ended or is dropped; its reservation is dropped with it. -/
  | ends {t : UploadTask} (ht : w.task i = some t) {budget : Counter ι}
    (hstep : CounterStep (2 ^ 64) capacity w.budget i .gaveBack budget) :
    BudgetStep h capacity w i (w.put i none budget)
  | endsWithout {t : UploadTask} (ht : w.task i = some t) (hidle : w.budget.phase i = .idle) :
    BudgetStep h capacity w i (w.put i none w.budget)

/-- Some upload makes a step. -/
def BudgetMove (h : Hasher) (capacity : ℕ) (w w' : BudgetWorld ι) : Prop :=
  ∃ i, BudgetStep h capacity w i w'

/-- The uploads run, in any order of their steps. -/
abbrev BudgetRun (h : Hasher) (capacity : ℕ) : BudgetWorld ι → BudgetWorld ι → Prop :=
  Relation.ReflTransGen (BudgetMove h capacity)

/-- What an upload compares with, it has seen in the counter since it asked. -/
theorem BudgetStep.comparing (hstep : BudgetStep h capacity w i w') {j : ι} {n v : ℕ}
    (hj : w'.budget.phase j = .comparing n v) :
    w.budget.phase j = .comparing n v ∨ w'.budget.used = v := by
  cases hstep with
  | arrives hnone u => exact .inl hj
  | calls ht hrest hop hfile => exact .inl hj
  | reserves ht hrest hcounter => exact hcounter.comparing hj
  | looks ht hcounter => exact hcounter.comparing hj
  | answered ht hrest hcounter => exact hcounter.comparing hj
  | ends ht hcounter => exact hcounter.comparing hj
  | endsWithout ht hidle => exact .inl hj

/-- The service has started, and no upload has come. -/
def BudgetWorld.empty {ι : Type} : BudgetWorld ι := ⟨⟨0, fun _ => .idle⟩, fun _ => none⟩

/-- The size of the temporary file of an upload in progress. -/
def BudgetWorld.fileSize (w : BudgetWorld ι) (i : ι) : ℕ :=
  (w.task i).elim 0 UploadTask.fileSize

end

/-! ## What one upload writes -/

/-- How many bytes the calls write at most. -/
def writtenLength (calls : List StreamCall) : ℕ :=
  (calls.map fun c => match c.op with
    | .writeAll chunk => chunk.length
    | _ => 0).sum

/-- A chunk is written only into a reservation that holds all that is written. -/
def StreamOp.Fits (before : List StreamCall) : StreamOp → Prop
  | .writeAll chunk => ∃ n, granted n ∈ before ∧ writtenLength before + chunk.length ≤ n
  | _ => True

section

variable {h : Hasher} {u : StreamedUpload} {before calls : List StreamCall} {α : Type}

/-- A granted reservation is one of its size. -/
theorem granted_eq_iff {m n : ℕ} {grant : Bool} :
    granted m = ⟨.reserve n, .ok grant⟩ ↔ m = n ∧ grant = true := by
  constructor
  · intro heq
    cases heq
    exact ⟨rfl, rfl⟩
  · rintro ⟨rfl, rfl⟩
    rfl

/-- No calls write nothing. -/
@[simp] theorem writtenLength_nil : writtenLength [] = 0 := rfl

/-- What calls in two parts write. -/
@[simp] theorem writtenLength_append (calls calls' : List StreamCall) :
    writtenLength (calls ++ calls') = writtenLength calls + writtenLength calls' := by
  simp [writtenLength]

/-- A call that writes no chunk fits. -/
theorem StreamOp.fits_of_isChunk {op : StreamOp} (hop : op.isChunk = false) : op.Fits before := by
  cases op with
  | writeAll bytes => cases hop
  | _ => trivial

/-- It writes nothing. -/
theorem writtenLength_singleton_of_isChunk {op : StreamOp} (hop : op.isChunk = false)
    (reply : Except StreamError op.Reply) : writtenLength [⟨op, reply⟩] = 0 := by
  cases op <;> first | rfl | cases hop

/-- Neither do several of them. -/
theorem writtenLength_eq_zero (hcalls : ∀ c ∈ calls, c.op.isChunk = false) :
    writtenLength calls = 0 := by
  induction calls with
  | nil => rfl
  | cons c calls ih =>
    rw [← List.singleton_append, writtenLength_append,
      writtenLength_singleton_of_isChunk (hcalls c List.mem_cons_self),
      ih fun d hd => hcalls d (List.mem_cons_of_mem _ hd)]

/-- What never writes a chunk fits. -/
theorem fits_of_noChunk {x : StreamProgram α}
    (hx : Respects (fun _ op => op.isChunk = false) before x) : Respects StreamOp.Fits before x :=
  hx.mono fun _ _ hop => StreamOp.fits_of_isChunk hop

/-- A rejection fits. -/
theorem fits_reject (e : StreamError) :
    Respects StreamOp.Fits before (reject e : StreamProgram α) := by
  have hperform : Respects StreamOp.Fits before (perform StreamOp.removeFile) :=
    respects_perform trivial
  have hremove : Respects StreamOp.Fits before removeTemporaryFile :=
    hperform.handle fun _ _ _ => trivial
  exact hremove.andThen fun _ _ _ => trivial

/-- The loop writes no more than was declared. -/
theorem fits_receiveChunks {contentLength : ℕ} (hgranted : granted contentLength ∈ before)
    (body : List (Except Unit (List UInt8))) {received : ℕ} (hasher : h.State)
    (hreceived : writtenLength before = received) :
    Respects StreamOp.Fits before (receiveChunks h contentLength body received hasher) := by
  induction body generalizing before received hasher with
  | nil => trivial
  | cons item body ih =>
    cases item with
    | error _ => exact fits_reject _
    | ok chunk =>
      unfold receiveChunks
      dsimp only
      split
      · exact fits_reject _
      · next hsize =>
        have hnext : min (received + chunk.length) (2 ^ 64 - 1) = received + chunk.length := by
          have hmax : maxPayloadUpload = 10485760 := rfl
          omega
        have hroom : writtenLength before + chunk.length ≤ contentLength := by omega
        have hwrite : Respects StreamOp.Fits before (perform (StreamOp.writeAll chunk)) :=
          respects_perform ⟨contentLength, hgranted, hroom⟩
        refine hwrite.handle fun calls r hends => ?_
        obtain rfl := ends_perform_iff.mp hends
        cases r with
        | error e => exact fits_reject _
        | ok _ =>
          rw [hnext]
          refine ih (List.mem_append_left _ hgranted) _ ?_
          rw [writtenLength_append, hreceived]
          rfl

/-- The body fits what was granted for it. -/
theorem fits_receivePayload {contentLength : ℕ} (hgranted : granted contentLength ∈ before)
    (hwritten : writtenLength before = 0) :
    Respects StreamOp.Fits before (receivePayload h u contentLength) := by
  refine (fits_receiveChunks hgranted u.body h.new hwritten).andThen fun calls total _ => ?_
  have hflush : Respects StreamOp.Fits (before ++ calls) (perform StreamOp.flush) :=
    respects_perform trivial
  refine hflush.handle fun calls r _ => ?_
  cases r with
  | error e => exact fits_reject _
  | ok _ =>
    dsimp only
    split
    · exact fits_reject _
    · split
      · exact fits_reject _
      · trivial

/-- A program of the storage fits. -/
theorem fits_onStorage (x : StorageProgram α) : Respects StreamOp.Fits before (onStorage x) :=
  fits_of_noChunk (respects_onStorage (fun _ => rfl) x)

/-- The storing of the payload fits. -/
theorem fits_storePayload {projectId : Uuid} {contentHash : String} (a : Admission) :
    Respects StreamOp.Fits before (storePayload projectId contentHash a) := by
  have hremove {before : List StreamCall} : Respects StreamOp.Fits before removeTemporaryFile := by
    have hperform : Respects StreamOp.Fits before (perform StreamOp.removeFile) :=
      respects_perform trivial
    exact hperform.handle fun _ _ _ => trivial
  refine (fits_onStorage _).handle fun calls r _ => ?_
  cases r with
  | error e => exact fits_reject e
  | ok _ =>
    refine Respects.handle ?_ fun calls r _ =>
      (fits_onStorage _).handle fun _ _ _ => respects_ofExcept _
    refine (respects_perform trivial).handle fun calls r _ => ?_
    cases r with
    | error e =>
      exact hremove.andThen fun _ _ _ => (fits_onStorage _).andThen fun _ _ _ => trivial
    | ok payload =>
      refine hremove.andThen fun _ _ _ => ?_
      split
      · exact fits_onStorage _
      · trivial

/-- A check that succeeds makes no call. -/
theorem ends_checkThat_ok {condition : Bool} {e : StreamError} {a : Unit}
    (hends : Ends (checkThat condition e) calls (.ok a)) : calls = [] ∧ condition = true := by
  unfold checkThat at hends
  split at hends
  · next hcondition => exact ⟨(ends_done_iff.mp hends).1, hcondition⟩
  · cases (ends_fail_iff.mp hends).2

/-- The checks end well only with a reservation for the declared length. -/
theorem granted_of_checkService {contentLength : ℕ} {claims : Uuid × String}
    (hends : Ends (checkService u contentLength) calls (.ok claims)) :
    granted contentLength ∈ calls := by
  obtain ⟨_, _, _, -, h₁, rfl⟩ := ends_andThen_ok_iff.mp hends
  obtain ⟨_, _, _, -, h₂, rfl⟩ := ends_andThen_ok_iff.mp h₁
  obtain ⟨_, _, _, -, h₃, rfl⟩ := ends_andThen_ok_iff.mp h₂
  obtain ⟨_, _, _, -, h₄, rfl⟩ := ends_andThen_ok_iff.mp h₃
  obtain ⟨_, _, _, -, h₅, rfl⟩ := ends_andThen_ok_iff.mp h₄
  obtain ⟨_, _, _, -, h₆, rfl⟩ := ends_andThen_ok_iff.mp h₅
  obtain ⟨_, grant, _, hreserve, h₇, rfl⟩ := ends_andThen_ok_iff.mp h₆
  obtain ⟨_, _, _, hcheck, -, rfl⟩ := ends_andThen_ok_iff.mp h₇
  obtain rfl := ends_perform_iff.mp hreserve
  obtain ⟨rfl, rfl⟩ := ends_checkThat_ok hcheck
  simp [granted]

/-- A request that is admitted was granted its length. -/
theorem granted_of_checkRequest {a : Admission} (hends : Ends (checkRequest u) calls (.ok a)) :
    granted a.contentLength ∈ calls := by
  obtain ⟨_, _, _, -, h₁, rfl⟩ := ends_andThen_ok_iff.mp hends
  obtain ⟨_, length, _, -, h₂, rfl⟩ := ends_andThen_ok_iff.mp h₁
  obtain ⟨_, _, _, -, h₃, rfl⟩ := ends_andThen_ok_iff.mp h₂
  obtain ⟨_, claims, _, hservice, h₄, rfl⟩ := ends_andThen_ok_iff.mp h₃
  obtain ⟨-, ha⟩ := ends_done_iff.mp h₄
  cases ha
  have hgranted := granted_of_checkService hservice
  simp [hgranted]

/-- A check writes no chunk. -/
theorem isCheck_isChunk {op : StreamOp} (hop : IsCheck op) : op.isChunk = false := by
  cases op <;> first | rfl | cases hop.1

/-- An upload never writes more than it has reserved. -/
theorem fits_putPayloadStream : Respects StreamOp.Fits [] (putPayloadStream h u) := by
  have hchecks : Respects (fun _ op => op.isChunk = false) [] (checkRequest u) :=
    respects_checkRequest.mono fun _ _ hop => isCheck_isChunk hop
  refine (fits_of_noChunk hchecks).andThen fun calls a hends => ?_
  have hcreate : Respects (fun _ op => op.isChunk = false) ([] ++ calls)
      (orError .unavailable (perform StreamOp.createFile)) :=
    respects_orError (respects_perform rfl)
  refine (fits_of_noChunk hcreate).andThen fun calls' _ hcreated => ?_
  have hgranted : granted a.contentLength ∈ [] ++ calls ++ calls' := by
    simp [granted_of_checkRequest hends]
  have hwritten : writtenLength ([] ++ calls ++ calls') = 0 := by
    rw [List.nil_append, writtenLength_append, writtenLength_eq_zero (hchecks.forall_mem hends),
      writtenLength_eq_zero (hcreate.forall_mem hcreated)]
  exact (fits_receivePayload hgranted hwritten).andThen fun _ _ _ => fits_storePayload a

/-- Whatever an upload has called so far, all that it wrote fits into its reservation. -/
theorem exists_granted_of_after {rest : StreamProgram Unit}
    (hafter : After (putPayloadStream h u) calls rest) :
    writtenLength calls = 0 ∨ ∃ n, granted n ∈ calls ∧ writtenLength calls ≤ n := by
  induction calls using List.reverseRecOn generalizing rest with
  | nil => exact .inl rfl
  | append_singleton calls c ih =>
    obtain ⟨mid, hmid, -⟩ := after_append_iff.mp hafter
    have hfits : c.op.Fits calls := by
      simpa using (fits_putPayloadStream (h := h) (u := u)).of_after hafter
    obtain ⟨op, reply⟩ := c
    by_cases hop : op.isChunk = true
    · -- The last call writes a chunk: it fits beside what was written before.
      cases op with
      | writeAll bytes =>
        obtain ⟨n, hgranted, hroom⟩ := hfits
        refine .inr ⟨n, List.mem_append_left _ hgranted, ?_⟩
        rwa [writtenLength_append]
      | _ => cases hop
    · have hsame : writtenLength (calls ++ [⟨op, reply⟩]) = writtenLength calls := by
        rw [writtenLength_append, writtenLength_singleton_of_isChunk (by simpa using hop),
          Nat.add_zero]
      rw [hsame]
      rcases ih hmid with hzero | ⟨n, hgranted, hle⟩
      · exact .inl hzero
      · exact .inr ⟨n, List.mem_append_left _ hgranted, hle⟩

end

/-! ## Every upload -/

/-- An upload in progress has made the calls of `put_payload`, its file has what they wrote, and it
holds what it was granted. -/
structure UploadTask.Sound (h : Hasher) (t : UploadTask) (p : Phase) : Prop where
  after : After (putPayloadStream h t.upload) t.calls t.rest
  fileSize_le : t.fileSize ≤ writtenLength t.calls
  holds : ∀ n, granted n ∈ t.calls ↔ p = .holding n

/-- The file of an upload is not larger than its reservation. -/
theorem UploadTask.Sound.fileSize_le_held {h : Hasher} {t : UploadTask} {p : Phase}
    (ht : t.Sound h p) : t.fileSize ≤ p.held := by
  have hfile := ht.fileSize_le
  rcases exists_granted_of_after ht.after with hzero | ⟨n, hgranted, hle⟩
  · omega
  · rw [(ht.holds n).mp hgranted]
    exact le_trans hfile hle

/-- What an operation leaves in the file was there or is written by it. -/
theorem FileStep.length_le {op : StreamOp} {file file' : Option (List UInt8)}
    {reply : Except StreamError op.Reply} (h : FileStep op file reply file') :
    (file'.getD []).length ≤ (file.getD []).length + writtenLength [⟨op, reply⟩] := by
  cases h with
  | created file => exact Nat.zero_le _
  | notCreated file e => exact Nat.le_add_right ..
  | wrote bytes content => simp [writtenLength]
  | wrotePart content hpart e =>
    have hlength := hpart.length_le
    simpa [writtenLength] using hlength
  | removed file => exact Nat.zero_le _
  | notRemoved file e => exact Nat.le_add_right ..
  | other hop file reply => exact Nat.le_add_right ..

section

variable {ι : Type} [DecidableEq ι] [Fintype ι] {h : Hasher} {capacity : ℕ} {w w' : BudgetWorld ι}
  {i : ι}

/-- The budget is sound, and every upload in progress is. -/
structure BudgetWorld.Sound (h : Hasher) (capacity : ℕ) (w : BudgetWorld ι) : Prop where
  budget : w.budget.Sound capacity
  task : ∀ i t, w.task i = some t → t.Sound h (w.budget.phase i)
  absent : ∀ i, w.task i = none → w.budget.phase i = .idle

omit [DecidableEq ι] in
/-- Without uploads the budget is free. -/
theorem BudgetWorld.sound_empty : (BudgetWorld.empty : BudgetWorld ι).Sound h capacity where
  budget := ⟨by simp [BudgetWorld.empty, Counter.held, Phase.held], Nat.zero_le _⟩
  task := fun i t ht => by cases ht
  absent := fun _ _ => rfl

/-- One upload moves on, and the others stay. -/
theorem BudgetWorld.Sound.put (hw : w.Sound h capacity) {budget : Counter ι}
    (hbudget : budget.Sound capacity) (hothers : ∀ j, j ≠ i → budget.phase j = w.budget.phase j)
    {t : Option UploadTask}
    (ht : t.elim (budget.phase i = .idle) fun t => t.Sound h (budget.phase i)) :
    (w.put i t budget).Sound h capacity where
  budget := hbudget
  task := fun j t' ht' => by
    by_cases hj : j = i
    · subst hj
      obtain rfl : t = some t' := by simpa [BudgetWorld.put] using ht'
      exact ht
    · have hold : w.task j = some t' := by simpa [BudgetWorld.put, hj] using ht'
      show t'.Sound h (budget.phase j)
      rw [hothers j hj]
      exact hw.task j t' hold
  absent := fun j hj' => by
    by_cases hj : j = i
    · subst hj
      obtain rfl : t = none := by simpa [BudgetWorld.put] using hj'
      exact ht
    · have hold : w.task j = none := by simpa [BudgetWorld.put, hj] using hj'
      exact (hothers j hj).trans (hw.absent j hold)

/-- A call takes an upload on. -/
theorem UploadTask.Sound.after_call {t : UploadTask} {p p' : Phase} (ht : t.Sound h p)
    {op : StreamOp} {next : Except StreamError op.Reply → StreamProgram Unit}
    (hrest : t.rest = .call op next) (reply : Except StreamError op.Reply)
    {file : Option (List UInt8)}
    (hfile : (file.getD []).length ≤ t.fileSize + writtenLength [⟨op, reply⟩])
    (hholds : ∀ n, granted n ∈ t.calls ++ [⟨op, reply⟩] ↔ p' = .holding n) :
    (t.after ⟨op, reply⟩ (next reply) file).Sound h p' where
  after := by
    refine after_append_iff.mpr ⟨t.rest, ht.after, ?_⟩
    rw [hrest]
    exact .call .start
  fileSize_le := by
    refine le_trans hfile ?_
    show t.fileSize + _ ≤ writtenLength (t.calls ++ _)
    rw [writtenLength_append]
    exact Nat.add_le_add_right ht.fileSize_le _
  holds := hholds

/-- An upload that looks at the budget has not been granted anything. -/
theorem UploadTask.Sound.move {t : UploadTask} {p p' : Phase} (ht : t.Sound h p)
    (hp : ∀ n, p ≠ .holding n) (hp' : ∀ n, p' ≠ .holding n) : t.Sound h p' where
  after := ht.after
  fileSize_le := ht.fileSize_le
  holds := fun n => (ht.holds n).trans (iff_of_false (hp n) (hp' n))

/-- Each step keeps all uploads sound, and takes a part of the budget that fits, gives one back, or
changes no part. -/
theorem BudgetStep.refines (hcapacity : capacity < 2 ^ 64) (hw : w.Sound h capacity)
    (hstep : BudgetStep h capacity w i w') :
    w'.Sound h capacity ∧ PoolStep capacity w.budget.held w'.budget.held := by
  cases hstep with
  | arrives hnone u =>
    have hstart : (UploadTask.start h u).Sound h (w.budget.phase i) := by
      refine ⟨.start, Nat.zero_le _, fun n => ?_⟩
      simp [UploadTask.start, hw.absent i hnone]
    exact ⟨hw.put hw.budget (fun _ _ => rfl) hstart, .stay _⟩
  | @calls t op next ht hrest hop reply file hfile =>
    have hsound := hw.task i t ht
    refine ⟨hw.put hw.budget (fun _ _ => rfl) ?_, .stay _⟩
    refine hsound.after_call hrest reply hfile.length_le fun n => ?_
    rw [List.mem_append, List.mem_singleton, ← hsound.holds n]
    refine or_iff_left fun heq => ?_
    cases heq
    cases hop
  | @reserves t n next ht hrest budget hcounter =>
    obtain ⟨hbudget, hpool⟩ := hcounter.refines hcapacity hw.budget
    refine ⟨hw.put hbudget (fun j hj => hcounter.phase_of_ne hj) ?_, hpool⟩
    cases hcounter with
    | asks hidle n => exact (hw.task i t ht).move (by simp [hidle]) (by simp)
  | @looks t ht budget hcounter =>
    obtain ⟨hbudget, hpool⟩ := hcounter.refines hcapacity hw.budget
    refine ⟨hw.put hbudget (fun j hj => hcounter.phase_of_ne hj) ?_, hpool⟩
    cases hcounter with
    | loads hload => exact (hw.task i t ht).move (by simp [hload]) (by simp)
    | fails hcompare hnext => exact (hw.task i t ht).move (by simp [hcompare]) (by simp)
  | @answered t n grant next ht hrest budget hcounter =>
    have hsound := hw.task i t ht
    obtain ⟨hbudget, hpool⟩ := hcounter.refines hcapacity hw.budget
    refine ⟨hw.put hbudget (fun j hj => hcounter.phase_of_ne hj) ?_, hpool⟩
    refine hsound.after_call hrest (.ok grant) (Nat.le_add_right ..) fun m => ?_
    rw [List.mem_append, List.mem_singleton, hsound.holds m]
    cases hcounter with
    | exchanges hcompare hnext => simp [hcompare, granted_eq_iff, eq_comm]
    | refuses hcompare hnext => simp [hcompare, granted_eq_iff]
  | @ends t ht budget hcounter =>
    obtain ⟨hbudget, hpool⟩ := hcounter.refines hcapacity hw.budget
    refine ⟨hw.put hbudget (fun j hj => hcounter.phase_of_ne hj) ?_, hpool⟩
    cases hcounter with
    | givesBack hhold => exact Counter.phase_moveTo_self ..
  | @endsWithout t ht hidle => exact ⟨hw.put hw.budget (fun _ _ => rfl) hidle, .stay _⟩

/-- So does every run. -/
theorem BudgetRun.sound (hcapacity : capacity < 2 ^ 64) (hw : w.Sound h capacity)
    (hrun : BudgetRun h capacity w w') : w'.Sound h capacity := by
  induction hrun with
  | refl => exact hw
  | tail _ hmove ih =>
    obtain ⟨i, hstep⟩ := hmove
    exact (hstep.refines hcapacity ih).1

omit [Fintype ι] in
/-- What an upload compares with was in the counter at a moment since it asked. -/
theorem BudgetRun.exists_seen (hrun : BudgetRun h capacity BudgetWorld.empty w) {n v : ℕ}
    (hi : w.budget.phase i = .comparing n v) :
    ∃ w₁, BudgetRun h capacity BudgetWorld.empty w₁ ∧ BudgetRun h capacity w₁ w ∧
      w₁.budget.phase i = .comparing n v ∧ w₁.budget.used = v := by
  induction hrun with
  | refl => cases hi
  | @tail w₁ w₂ hrun hmove ih =>
    obtain ⟨j, hstep⟩ := hmove
    rcases hstep.comparing hi with hbefore | hseen
    · obtain ⟨w₀, hto, hfrom, hphase, hused⟩ := ih hbefore
      exact ⟨w₀, hto, hfrom.tail ⟨j, hstep⟩, hphase, hused⟩
    · exact ⟨w₂, hrun.tail ⟨j, hstep⟩, .refl, hi, hseen⟩

/-- The bytes that the uploads in progress have reserved. -/
def BudgetWorld.reserved (w : BudgetWorld ι) : ℕ := ∑ i, w.budget.held i

/-- The uploads in progress keep to the budget. -/
structure KeepsBudget (h : Hasher) (capacity : ℕ) (w : BudgetWorld ι) : Prop where
  /-- The counter has never left its word, and has what is reserved. -/
  used_eq : w.budget.used = w.reserved
  reserved_le : w.reserved ≤ capacity
  /-- An upload holds exactly the bytes that were granted to it. -/
  held_iff : ∀ i t n, w.task i = some t → (granted n ∈ t.calls ↔ w.budget.phase i = .holding n)
  /-- The temporary files fit into what is reserved, also when a write was cut off. -/
  files_le : ∑ i, w.fileSize i ≤ w.reserved
  /-- An upload is refused only when it did not fit at a moment since it asked. -/
  refused : ∀ i n budget, CounterStep (2 ^ 64) capacity w.budget i (.answered n false) budget →
    ∃ w₁ v, BudgetRun h capacity BudgetWorld.empty w₁ ∧ BudgetRun h capacity w₁ w ∧
      w₁.budget.phase i = .comparing n v ∧ capacity < w₁.reserved + n
  /-- When no upload is in progress, nothing is reserved. -/
  free : (∀ i, w.task i = none) → w.budget.used = 0

/-- In every run of uploads, at the granularity of the atomic operations on the budget and of the
operations of the uploads, the temporary files of the uploads in progress fit into the budget. -/
theorem uploads_keep_budget (value : Option String)
    (hrun : BudgetRun h (uploadTempMaxBytes value) BudgetWorld.empty w) :
    KeepsBudget h (uploadTempMaxBytes value) w := by
  have hcapacity := uploadTempMaxBytes_lt value
  have hsound := BudgetRun.sound hcapacity BudgetWorld.sound_empty hrun
  have hused : w.budget.used = w.reserved := hsound.budget.used_eq
  have hheld (i : ι) (t : UploadTask) (n : ℕ) (ht : w.task i = some t) :
      granted n ∈ t.calls ↔ w.budget.phase i = .holding n := (hsound.task i t ht).holds n
  refine ⟨hused, hused ▸ hsound.budget.used_le, hheld, ?_, ?_, ?_⟩
  · refine Finset.sum_le_sum fun i _ => ?_
    unfold BudgetWorld.fileSize
    cases ht : w.task i with
    | none => exact Nat.zero_le _
    | some t => exact (hsound.task i t ht).fileSize_le_held
  · intro i n budget hstep
    cases hstep with
    | @refuses _ v hcompare hnext =>
      obtain ⟨w₁, hto, hfrom, hphase, hseen⟩ := BudgetRun.exists_seen hrun hcompare
      have hfull := (nextUse_eq_none_iff hcapacity).mp hnext
      have hsum := (BudgetRun.sound hcapacity BudgetWorld.sound_empty hto).budget.used_eq
      refine ⟨w₁, v, hto, hfrom, hphase, ?_⟩
      calc uploadTempMaxBytes value < v + n := hfull
        _ = w₁.reserved + n := by rw [← hseen, hsum, BudgetWorld.reserved]
  · intro hnone
    rw [hused]
    refine Finset.sum_eq_zero fun i _ => ?_
    rw [Counter.held, hsound.absent i (hnone i)]
    rfl

end

/-! ## A sample -/

section

variable {h : Hasher} {capacity : ℕ} {w₀ w : BudgetWorld Bool} {i : Bool} {t : UploadTask}

/-- An upload makes a call that is not about its file. -/
theorem BudgetRun.call (hrun : BudgetRun h capacity w₀ w) (ht : w.task i = some t) {op : StreamOp}
    {next : Except StreamError op.Reply → StreamProgram Unit} (hrest : t.rest = .call op next)
    (hop : op.isElsewhere = true) (hreserve : op.isReserve = false)
    (reply : Except StreamError op.Reply) :
    ∃ w' t', BudgetRun h capacity w₀ w' ∧ w'.budget = w.budget ∧ w'.task i = some t' ∧
      t'.rest = next reply :=
  ⟨_, _, hrun.tail ⟨i, .calls ht hrest hreserve (.other (.inl hop) t.file reply)⟩, rfl,
    Function.update_self .., rfl⟩

/-- An upload that is not disturbed gets what fits. -/
theorem BudgetRun.reserve (hrun : BudgetRun h capacity w₀ w) (ht : w.task i = some t) {n : ℕ}
    {next : Except StreamError (StreamOp.reserve n).Reply → StreamProgram Unit}
    (hrest : t.rest = .call (.reserve n) next) (hidle : w.budget.phase i = .idle)
    (hcapacity : capacity < 2 ^ 64) (hfits : w.budget.used + n ≤ capacity) :
    ∃ w', BudgetRun h capacity w₀ w' ∧ w'.budget.used = w.budget.used + n := by
  have hnext : nextUse (2 ^ 64) capacity w.budget.used n = some (w.budget.used + n) :=
    nextUse_eq_some_iff.mpr ⟨by omega, hfits, rfl⟩
  have hself (w : BudgetWorld Bool) (b : Counter Bool) : (w.put i (some t) b).task i = some t :=
    Function.update_self ..
  have hasked := hrun.tail ⟨i, .reserves ht hrest (.asks hidle n)⟩
  have hlooked := hasked.tail ⟨i, .looks (hself ..) (.loads (Counter.phase_moveTo_self ..))⟩
  exact ⟨_, hlooked.tail ⟨i, .answered (hself ..) hrest
    (.exchanges (Counter.phase_moveTo_self ..) hnext)⟩, rfl⟩

end

/-- The checks of an upload whose headers are valid. -/
theorem checkRequest_eq {u : StreamedUpload} {length : {n : ℕ // n ≤ maxPayloadUpload}}
    {mediaType : String} (hhash : validContentHash u.contentHash = true)
    (hlength : u.declaredLength = some length) (hmedia : u.mediaType = some mediaType) :
    checkRequest u = (checkService u length.1).andThen fun claims =>
      .done ⟨claims.1, claims.2, length.1, mediaType, length.2⟩ := by
  simp [checkRequest, checkThat, valueOr, hhash, hlength, hmedia]

/-- The sample upload reserves its three bytes, and keeps to the budget. -/
theorem sampleStream_keepsBudget : ∃ w : BudgetWorld Bool, w.reserved = 3 ∧
    KeepsBudget sha256Hasher (uploadTempMaxBytes (some "1048576")) w := by
  have hcapacity : uploadTempMaxBytes (some "1048576") = 1048576 := by decide +kernel
  have hchecks := @checkRequest_eq sampleStream ⟨3, by decide⟩ "text/markdown" (by decide +kernel)
    rfl (by decide +kernel)
  have hstart : (UploadTask.start sha256Hasher sampleStream).rest =
      (checkRequest sampleStream).andThen fun a => _ := rfl
  rw [hchecks] at hstart
  have harrived : BudgetRun sha256Hasher (uploadTempMaxBytes (some "1048576"))
      (BudgetWorld.empty : BudgetWorld Bool) _ := .single ⟨true, .arrives rfl sampleStream⟩
  obtain ⟨w₁, t₁, hrun₁, hbudget₁, ht₁, hrest₁⟩ :=
    harrived.call (Function.update_self ..) hstart rfl rfl (.ok ((1 : Uuid), "user"))
  obtain ⟨w₂, t₂, hrun₂, hbudget₂, ht₂, hrest₂⟩ := hrun₁.call ht₁ hrest₁ rfl rfl (.ok true)
  obtain ⟨w₃, t₃, hrun₃, hbudget₃, ht₃, hrest₃⟩ := hrun₂.call ht₂ hrest₂ rfl rfl (.ok ())
  obtain ⟨w₄, t₄, hrun₄, hbudget₄, ht₄, hrest₄⟩ := hrun₃.call ht₃ hrest₃ rfl rfl (.ok ())
  obtain ⟨w₅, t₅, hrun₅, hbudget₅, ht₅, hrest₅⟩ := hrun₄.call ht₄ hrest₄ rfl rfl (.ok ())
  have hbudget : w₅.budget = ⟨0, fun _ => .idle⟩ := by
    rw [hbudget₅, hbudget₄, hbudget₃, hbudget₂, hbudget₁]
    rfl
  obtain ⟨w₆, hrun₆, hused⟩ := hrun₅.reserve ht₅ hrest₅ (by rw [hbudget])
    (by rw [hcapacity]; norm_num) (by rw [hbudget, hcapacity]; norm_num)
  have hkeeps := uploads_keep_budget (some "1048576") hrun₆
  rw [hbudget] at hused
  exact ⟨w₆, hkeeps.used_eq ▸ hused, hkeeps⟩

end TaskTipsCloud
