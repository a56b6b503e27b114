import CamelidEnterprise.Foundation.AppendLog
import CamelidEnterprise.Server.Served

/-!
# Camelid Enterprise — serving receipts

The end of `attribute` in `crates/server/src/attribution.rs`: with the response in hand, a task
is spawned that writes the receipt of the request, with its line feed, under a lock of the whole
process. The tasks run beside each other and beside the requests; a task that finds the lock
poisoned takes it all the same; one that cannot open the file, or whose write fails, leaves it
at that; and the process may end at any time.

Key result: `receipts_kept`.
-/

namespace CamelidEnterprise.Server

open Foundation Foundation.Json Foundation.Http Foundation.Utf8

/-- What attribution makes of one response, whatever gave it. -/
def attributedTo (library : Library) (ctx : Attribution) (ts : Nat) (req : Request)
    (inner : Response) : Response × Option Value :=
  (attributeLayer library ctx ts (fun _ state => (inner, state)) req ()).1

/-- A record as it is written: the receipt and a line feed. -/
def receiptBytes (library : Library) (receipt : Value) : List UInt8 := encode (library.record receipt)

/-- The receipts of a replica: the file, the lock, and the tasks. -/
abbrev ReceiptLog := AppendLog.Log Value UInt8

inductive ReceiptAction
  | answer (req : Request) (inner : Response) (ts : Nat)
  | task (action : AppendLog.Action Value)

inductive ReceiptEvent
  | answered (resp : Response)
  | task (event : AppendLog.Event Value)

/-- `spawn_blocking`, where there is a receipt. -/
def spawned (receipt : Option Value) (s : ReceiptLog) : ReceiptLog :=
  { s with writers := s.writers ++ (receipt.map AppendLog.Writer.waiting).toList }

/-- The steps of the tasks, and the requests that come between them. -/
inductive ReceiptStep (library : Library) (ctx : Attribution) :
    ReceiptLog → ReceiptAction → ReceiptEvent → ReceiptLog → Prop
  | answer {s : ReceiptLog} {req : Request} {inner : Response} {ts : Nat}
      (hclock : Format.double.isFinite ts = true) :
      ReceiptStep library ctx s (.answer req inner ts)
        (.answered (attributedTo library ctx ts req inner).1)
        (spawned (attributedTo library ctx ts req inner).2 s)
  | task {s s' : ReceiptLog} {action : AppendLog.Action Value} {event : AppendLog.Event Value}
      (hspawned : ∀ receipt, action ≠ .submit receipt)
      (hstep : AppendLog.Step (receiptBytes library) s action event s') :
      ReceiptStep library ctx s (.task action) (.task event) s'

/-- The receipts of a process, with what was in the file before. -/
def receiptLog (library : Library) (ctx : Attribution) (before : List UInt8) :
    Machine ReceiptLog ReceiptAction ReceiptEvent where
  start s := s = ⟨before, false, false, []⟩
  step := ReceiptStep library ctx

/-- What happened. -/
abbrev ReceiptHistory := List (Entry ReceiptLog ReceiptAction ReceiptEvent)

/-- What a step is for the file. -/
def fileEntry (library : Library) (ctx : Attribution) (e : Entry ReceiptLog ReceiptAction ReceiptEvent) :
    Option (Entry ReceiptLog (AppendLog.Action Value) (AppendLog.Event Value)) :=
  match e.action, e.result with
  | .answer req inner ts, _ =>
    (attributedTo library ctx ts req inner).2.map fun receipt =>
      ⟨e.before, .submit receipt, .silent, e.after⟩
  | .task action, .task event => some ⟨e.before, action, event, e.after⟩
  | .task _, .answered _ => none

/-- The receipts of the requests that were answered. -/
def receipts (library : Library) (ctx : Attribution) (h : ReceiptHistory) : List Value :=
  h.filterMap fun e =>
    match e.action with
    | .answer req inner ts => (attributedTo library ctx ts req inner).2
    | .task _ => none

/-- The receipts that are dealt with, in the order they were, and how much was written of each. -/
def written (library : Library) (ctx : Attribution) (h : ReceiptHistory) : List (Value × Nat) :=
  AppendLog.ended (h.filterMap (fileEntry library ctx))

/-- What a step finishes with: the receipt of its task, and how much of it is in the file. -/
def endedBy (e : Entry ReceiptLog ReceiptAction ReceiptEvent) : Option (Value × Nat) :=
  match e.result with
  | .task (.ended receipt count) => some (receipt, count)
  | _ => none

/-- A task fails. -/
def Fails (e : Entry ReceiptLog ReceiptAction ReceiptEvent) : Prop :=
  ∃ writer died, e.action = .task (.fail writer died)

/-- No task failed. -/
def Unfailing (h : ReceiptHistory) : Prop :=
  ∀ e ∈ h, ∀ writer died, e.action ≠ .task (.fail writer died)

section Run

variable {library : Library} {ctx : Attribution} {before : List UInt8} {h : ReceiptHistory}
  {s : ReceiptLog}

theorem clock_of_answer {s' : ReceiptLog} {req : Request} {inner : Response} {ts : Nat}
    {event : ReceiptEvent} (hstep : ReceiptStep library ctx s (.answer req inner ts) event s') :
    Format.double.isFinite ts = true := by
  cases hstep with
  | answer hclock => exact hclock

/-- The run of the file in a run of the replica. -/
theorem run_file (run : (receiptLog library ctx before).Run h s) :
    (AppendLog.appendLog (receiptBytes library) before).Run
      (h.filterMap (fileEntry library ctx)) s := by
  induction run with
  | nil hstart => exact .nil hstart
  | @snoc h s s' a r run hstep ih =>
    rw [List.filterMap_append, List.filterMap_cons, List.filterMap_nil]
    cases hstep with
    | @answer req inner ts =>
      rcases hreceipt : (attributedTo library ctx ts req inner).2 with _ | receipt
      · have hsame : spawned none s = s := by simp [spawned]
        simpa only [fileEntry, hreceipt, Option.map_none, List.append_nil, hsame] using ih
      · simp only [fileEntry, hreceipt, Option.map_some]
        exact ih.snoc .submit
    | task hspawned hstep => exact ih.snoc hstep

/-- The receipts are what is handed in. -/
theorem submitted_receipts (run : (receiptLog library ctx before).Run h s) :
    AppendLog.submitted (h.filterMap (fileEntry library ctx)) = receipts library ctx h := by
  have hstep : ∀ e ∈ h, (∀ receipt, e.action ≠ .task (.submit receipt)) ∧
      ∀ action, e.action = .task action → ∃ event, e.result = .task event := by
    rintro ⟨s, a, r, s'⟩ he
    have hstep : ReceiptStep library ctx s a r s' := run.step_of_mem he
    cases hstep with
    | answer => exact ⟨fun _ h => (by cases h), fun _ h => (by cases h)⟩
    | task hspawned _ =>
      exact ⟨fun receipt h => hspawned receipt (ReceiptAction.task.inj h), fun _ _ => ⟨_, rfl⟩⟩
  unfold AppendLog.submitted receipts
  rw [List.filterMap_filterMap]
  refine List.filterMap_congr fun e he => ?_
  obtain ⟨hspawned, hresult⟩ := hstep e he
  obtain ⟨s, a, r, s'⟩ := e
  cases a with
  | answer req inner ts =>
    unfold fileEntry
    dsimp only
    rcases (attributedTo library ctx ts req inner).2 with _ | receipt
    · rfl
    · rfl
  | task action =>
    obtain ⟨event, rfl⟩ := hresult action rfl
    cases action with
    | submit receipt => exact absurd rfl (hspawned receipt)
    | _ => rfl

/-- A step of a task. -/
def taskEntry (e : Entry ReceiptLog (AppendLog.Action Value) (AppendLog.Event Value)) :
    Entry ReceiptLog ReceiptAction ReceiptEvent :=
  ⟨e.before, .task e.action, .task e.result, e.after⟩

/-- The tasks go on. -/
theorem run_path (run : (receiptLog library ctx before).Run h s) {s' : ReceiptLog}
    {more : List (Entry ReceiptLog (AppendLog.Action Value) (AppendLog.Event Value))}
    (hpath : AppendLog.Path (receiptBytes library) s more s')
    (hforward : ∀ e ∈ more, e.action.Forward) :
    (receiptLog library ctx before).Run (h ++ more.map taskEntry) s' := by
  induction hpath generalizing h with
  | nil => rwa [List.map_nil, List.append_nil]
  | @cons s s' s'' action event more hstep hpath ih =>
    have hfirst := hforward _ List.mem_cons_self
    have hspawned : ∀ receipt, action ≠ .submit receipt := by
      rintro receipt rfl
      exact hfirst
    have hrun := ih (run.snoc (.task hspawned hstep)) fun e he =>
      hforward e (List.mem_cons_of_mem _ he)
    rwa [List.append_assoc, List.singleton_append] at hrun

theorem written_task (h : ReceiptHistory)
    (more : List (Entry ReceiptLog (AppendLog.Action Value) (AppendLog.Event Value))) :
    written library ctx (h ++ more.map taskEntry) =
      written library ctx h ++ AppendLog.ended more := by
  have htasks : (more.map taskEntry).filterMap (fileEntry library ctx) = more := by
    rw [List.filterMap_map]
    exact List.filterMap_some
  unfold written
  rw [List.filterMap_append, AppendLog.ended_append, htasks]

theorem receipts_task (h : ReceiptHistory)
    (more : List (Entry ReceiptLog (AppendLog.Action Value) (AppendLog.Event Value))) :
    receipts library ctx (h ++ more.map taskEntry) = receipts library ctx h := by
  unfold receipts
  rw [List.filterMap_append, List.filterMap_map, List.append_right_eq_self, List.filterMap_eq_nil_iff]
  exact fun e _ => rfl

/-- A receipt is that of a request that was answered, and of the status it was answered with. -/
theorem mem_receipts {receipt : Value} (hreceipt : receipt ∈ receipts library ctx h) :
    ctx.receipts = true ∧ ∃ e ∈ h, ∃ req inner ts, e.action = .answer req inner ts ∧
      receipt = ctx.receipt ⟨req.method, req.path,
        (attributedTo library ctx ts req inner).1.status, ts,
        (req.headers.get "x-camelid-request-id").bind toStr⟩ := by
  obtain ⟨e, he, hsome⟩ := List.mem_filterMap.mp hreceipt
  rcases haction : e.action with ⟨req, inner, ts⟩ | action
  · rw [haction] at hsome
    have hlayer := (attributeLayer_answered library ctx ts (fun _ (u : Unit) => (inner, u)) req ()).2.2.2
    have hvalue : (attributedTo library ctx ts req inner).2 = _ := hlayer
    dsimp only at hsome
    rw [hvalue] at hsome
    split at hsome
    · rename_i hon
      exact ⟨hon, e, he, req, inner, ts, haction, (Option.some.inj hsome).symm⟩
    · exact absurd hsome (by simp)
  · rw [haction] at hsome
    exact absurd hsome (by simp)

/-- What is dealt with is what the steps finish with. -/
theorem written_eq (run : (receiptLog library ctx before).Run h s) :
    written library ctx h = h.filterMap endedBy := by
  unfold written AppendLog.ended
  rw [List.filterMap_filterMap]
  refine List.filterMap_congr fun e he => ?_
  obtain ⟨s, a, r, s'⟩ := e
  have hstep : ReceiptStep library ctx s a r s' := run.step_of_mem he
  cases hstep with
  | @answer req inner ts =>
    unfold fileEntry endedBy
    dsimp only
    rcases (attributedTo library ctx ts req inner).2 with _ | receipt
    · rfl
    · rfl
  | @task _ action event hspawned hstep =>
    cases event with
    | silent => rfl
    | ended receipt count => rfl

/-- A receipt is in the file as a whole, unless the step that finished with it failed. -/
theorem whole_or_fails (run : (receiptLog library ctx before).Run h s)
    {e : Entry ReceiptLog ReceiptAction ReceiptEvent} (he : e ∈ h) {entry : Value × Nat}
    (hended : endedBy e = some entry) :
    entry.2 = (receiptBytes library entry.1).length ∨ Fails e := by
  obtain ⟨s, a, r, s'⟩ := e
  have hstep : ReceiptStep library ctx s a r s' := run.step_of_mem he
  cases hstep with
  | answer => cases hended
  | @task _ action event hspawned hstep =>
    cases event with
    | silent => cases hended
    | ended receipt count =>
      obtain rfl := Option.some.inj hended
      refine (AppendLog.step_ended hstep).imp id ?_
      rintro ⟨writer, died, rfl⟩
      exact ⟨writer, died, rfl⟩

/-- Where no task failed, what is dealt with is there as a whole. -/
theorem run_whole (run : (receiptLog library ctx before).Run h s) (hwhole : Unfailing h) :
    ∀ entry ∈ written library ctx h, entry.2 = (receiptBytes library entry.1).length := by
  intro entry hentry
  rw [written_eq run] at hentry
  obtain ⟨e, he, hended⟩ := List.mem_filterMap.mp hentry
  refine (whole_or_fails run he hended).resolve_right ?_
  rintro ⟨writer, died, hfail⟩
  exact hwhole e he writer died hfail

/-- **Receipts.** In every run of the requests and the tasks they spawn, the file is what was in
it, the parts of the receipts that are dealt with, one behind the other in the order of the lock,
and a front of the one that is being written; a receipt is that of an answered request, and each
of them is dealt with once or still to be dealt with; it is whole unless the step that finished
with it is the failure of its task. And from wherever the run has come to, whatever died with the
lock in its hand, every receipt that is left can still be written, and whole. -/
theorem receipts_kept (run : (receiptLog library ctx before).Run h s) :
    s.file = before ++ (written library ctx h).flatMap (AppendLog.part (receiptBytes library)) ++
        s.writers.flatMap (AppendLog.Writer.put (receiptBytes library)) ∧
      (receipts library ctx h).Perm ((written library ctx h).map Prod.fst ++
        s.writers.filterMap AppendLog.Writer.pending) ∧
      (∀ receipt ∈ receipts library ctx h, ctx.receipts = true ∧ ∃ e ∈ h, ∃ req inner ts,
        e.action = .answer req inner ts ∧ receipt = ctx.receipt ⟨req.method, req.path,
          (attributedTo library ctx ts req inner).1.status, ts,
          (req.headers.get "x-camelid-request-id").bind toStr⟩) ∧
      written library ctx h = h.filterMap endedBy ∧
      (∀ e ∈ h, ∀ entry, endedBy e = some entry →
        entry.2 = (receiptBytes library entry.1).length ∨ Fails e) ∧
      ∃ more s', (receiptLog library ctx before).Run (h ++ more) s' ∧
        (∀ e ∈ more, ∃ action : AppendLog.Action Value, e.action = .task action ∧ action.Forward) ∧
        (receipts library ctx h).Perm ((written library ctx (h ++ more)).map Prod.fst) ∧
        ∃ late, written library ctx (h ++ more) = written library ctx h ++ late ∧
          ∀ entry ∈ late, entry.2 = (receiptBytes library entry.1).length := by
  have hfile := run_file run
  have haccounted := AppendLog.run_accounted hfile
  unfold AppendLog.Accounted at haccounted
  rw [submitted_receipts run] at haccounted
  refine ⟨AppendLog.run_file hfile, haccounted, fun receipt => mem_receipts, written_eq run,
    fun e he entry => whole_or_fails run he, ?_⟩
  obtain ⟨more, s', hpath, hwork, hforward⟩ :=
    AppendLog.path_live (AppendLog.run_exclusive hfile) (AppendLog.run_within hfile)
  have hrun := run_path run hpath hforward
  have hdone := AppendLog.run_accounted (run_file hrun)
  unfold AppendLog.Accounted at hdone
  rw [submitted_receipts hrun, receipts_task, AppendLog.pending_of_work hwork,
    List.append_nil] at hdone
  refine ⟨more.map taskEntry, s', hrun, fun e he => ?_, hdone, AppendLog.ended more,
    written_task h more, AppendLog.path_whole hpath hforward⟩
  obtain ⟨entry, hentry, rfl⟩ := List.mem_map.mp he
  exact ⟨entry.action, rfl, hforward entry hentry⟩

end Run

-- ---------------------------------------------------------------------------
-- A replica that keeps receipts
-- ---------------------------------------------------------------------------

/-- A scalar as it is printed, where nothing is escaped. -/
def printScalar : Value → Text
  | .Null => "null".toList
  | .Bool b => (toString b).toList
  | .Number (.PosInt n) => Nat.toDigits 10 n
  | .Number (.NegInt n) => (toString n).toList
  | .Number (.Float _) => "0.0".toList
  | .String s => '"' :: (s ++ ['"'])
  | _ => []

/-- An object of such scalars as it is printed. -/
def printObject : Value → Text
  | .Object map =>
    '\x7b' :: [','].intercalate (map.map fun member =>
      '"' :: (member.1 ++ '"' :: ':' :: printScalar member.2)) ++ ['\x7d']
  | value => printScalar value

def sampleLibrary : Library := { Surface.sampleParser with print := printObject }

def zeroDigest : Digest where
  text := List.replicate 64 '0'
  length_eq := by decide
  hex c hc := by
    rw [List.eq_of_mem_replicate hc]
    decide +kernel

def sampleContext : Attribution where
  lane := "deterministic"
  configSha256 := zeroDigest
  admissionSha256 := zeroDigest
  engineSha256 := zeroDigest
  modelSha256 := zeroDigest
  host := "linux/x86_64 cores=8 simd=avx2+fma".toList
  workerThreads := 6
  receipts := true
  lane_static := by decide +kernel

def healthRequest : Request :=
  ⟨"GET", "/v1/health", [("x-camelid-request-id", [114])], .whole []⟩

def healthy : Response := ⟨200, [], .whole []⟩

/-- A task dies in the middle of its record, and another one has its own before it. -/
theorem receipts_kept_poisoned : ∃ h s, (receiptLog sampleLibrary sampleContext []).Run h s ∧
    s.poisoned = true ∧ s.file.length = 5 ∧
    ∃ more s', (receiptLog sampleLibrary sampleContext []).Run (h ++ more) s' ∧
      (receipts sampleLibrary sampleContext h).Perm
        ((written sampleLibrary sampleContext (h ++ more)).map Prod.fst) := by
  have hlong : 5 < (receiptBytes sampleLibrary (sampleContext.receipt
      ⟨"GET", "/v1/health", 200, 0, some ['r']⟩)).length := by decide +kernel
  have hreceipt : (attributedTo sampleLibrary sampleContext 0 healthRequest healthy).2 =
      some (sampleContext.receipt ⟨"GET", "/v1/health", 200, 0, some ['r']⟩) := by
    have hstatus : (attributedTo sampleLibrary sampleContext 0 healthRequest
        healthy).1.status = 200 := by decide +kernel
    have hid : (healthRequest.headers.get "x-camelid-request-id").bind toStr = some ['r'] := by
      decide +kernel
    have hlayer := (attributeLayer_answered sampleLibrary sampleContext 0
      (fun _ (u : Unit) => (healthy, u)) healthRequest ()).2.2.2
    refine hlayer.trans ?_
    rw [if_pos (show sampleContext.receipts = true from rfl), hid]
    exact congrArg (fun status => some (sampleContext.receipt
      ⟨"GET", "/v1/health", status, 0, some ['r']⟩)) hstatus
  have hstart : (receiptLog sampleLibrary sampleContext []).Run [] ⟨[], false, false, []⟩ := .nil rfl
  have hanswered := hstart.snoc (@ReceiptStep.answer _ _ _ healthRequest healthy 0 (by decide))
  rw [hreceipt] at hanswered
  have htaken := hanswered.snoc (.task (by simp) (.acquire (i := 0) rfl rfl))
  have hopened := htaken.snoc (.task (by simp) (.openFile (i := 0) rfl))
  have hpiece := hopened.snoc (.task (by simp)
    (@AppendLog.Step.write _ _ _ _ 0 0 5 _ rfl (by decide) (by omega)))
  have hfailed := hpiece.snoc (.task (by simp)
    (@AppendLog.Step.failWrite _ _ _ _ 0 5 true _ rfl (by omega)))
  obtain ⟨-, -, -, -, -, more, s', hrun, -, hperm, -⟩ := receipts_kept hfailed
  refine ⟨_, _, hfailed, rfl, ?_, more, s', hrun, hperm⟩
  show ((receiptBytes sampleLibrary _).drop 0 |>.take 5).length = 5
  rw [List.length_take, List.drop_zero]
  omega

end CamelidEnterprise.Server
