import CamelidEnterprise.Foundation.Bodies
import CamelidEnterprise.Gateway.Proxy

/-!
# Camelid Enterprise — the bodies the gateway puts around others

`CountingBody`, `UsageBody` and `PermitBody` of `crates/gateway/src/lib.rs`. The body of
a forwarded request is counted; the body of its response holds the admission permit, and
around that the usage record that is written when the response is over.

Each is a body around any other, in a world that has what it accounts for beside the
world of the other: the counters it shares, the permits it has given back, the books of
its request. `usage_life`, `counting_life` and `permit_life` say what each has accounted
for after any life, `bodies_account` what it has in the end. `stack_life` says that the
two bodies of a response show what the upstream's does, `stack_poll` and `stack_drop`
relate them to the `ResponseBody` of `Gateway/Proxy.lean`.
-/

namespace CamelidEnterprise.Gateway

open Foundation.Bodies

variable {ω β δ τ ε : Type}

-- ---------------------------------------------------------------------------
-- The request body
-- ---------------------------------------------------------------------------

/-- `fetch_add` on the bytes; the counter wraps around. -/
def RequestBodyMetrics.add (metrics : RequestBodyMetrics) (bytes : Nat) : RequestBodyMetrics :=
  { metrics with bytes := (metrics.bytes + bytes) % 2 ^ 64 }

/-- `complete` -/
def RequestBodyMetrics.complete (metrics : RequestBodyMetrics) : RequestBodyMetrics :=
  { metrics with completed := true }

/-- `CountingBody`, whose metrics are shared. -/
structure CountingBody (β : Type) where
  inner : β

/-- `new` -/
def CountingBody.new (inner : HttpBody ω β δ τ ε) (body : β) (w : RequestBodyMetrics × ω) :
    CountingBody β × RequestBodyMetrics × ω :=
  (⟨body⟩, if inner.isEndStream body w.2 then w.1.complete else w.1, w.2)

/-- What `poll_frame` makes of a poll of the inner body. -/
def RequestBodyMetrics.observe [Buf δ] (metrics : RequestBodyMetrics) (poll : Polled δ τ ε)
    (ended : Bool) : RequestBodyMetrics :=
  let metrics :=
    match poll with
    | .Ready (some (.ok frame)) =>
      match frame.dataRef with
      | some data => metrics.add (Buf.remaining data)
      | none => metrics
    | _ => metrics
  match poll with
  | .Ready none => metrics.complete
  | _ => if ended then metrics.complete else metrics

/-- `impl HttpBody for CountingBody` -/
def countingBody [Buf δ] (inner : HttpBody ω β δ τ ε) :
    HttpBody (RequestBodyMetrics × ω) (CountingBody β) δ τ ε where
  pollFrame body w :=
    let (poll, body', w') := inner.pollFrame body.inner w.2
    (poll, ⟨body'⟩, w.1.observe poll (inner.isEndStream body' w'), w')
  isEndStream body w := inner.isEndStream body.inner w.2
  sizeHint body w := inner.sizeHint body.inner w.2
  drop body w := (w.1, inner.drop body.inner w.2)

-- ---------------------------------------------------------------------------
-- The usage record
-- ---------------------------------------------------------------------------

/-- What a usage record shares: the books it is written into, the counter of the
request body, and the marker of its connection. -/
structure Ledger where
  books : Books
  metrics : RequestBodyMetrics
  termination : Option ConnectionTermination
deriving DecidableEq, Repr

/-- `write_usage_record` -/
def Ledger.writeUsage (ledger : Ledger) (record : UsageRecord) (outcome : String) : Ledger :=
  { ledger with books := ledger.books.writeUsage ledger.metrics record outcome }

/-- `UsageTracker` -/
structure UsageTracker where
  record : Option UsageRecord
deriving DecidableEq, Repr

/-- `finish` -/
def UsageTracker.finish (tracker : UsageTracker) (ledger : Ledger) (outcome : String) :
    UsageTracker × Ledger :=
  match tracker.record with
  | none => (tracker, ledger)
  | some record => (⟨none⟩, ledger.writeUsage record outcome)

/-- `saturating_add` on the response bytes -/
def UsageRecord.add (record : UsageRecord) (bytes : Nat) : UsageRecord :=
  { record with responseBytes := min (record.responseBytes + bytes) (2 ^ 64 - 1) }

/-- `add_response_bytes` -/
def UsageTracker.addResponseBytes (tracker : UsageTracker) (bytes : Nat) : UsageTracker :=
  ⟨tracker.record.map fun record => record.add bytes⟩

/-- `UsageBody` -/
structure UsageBody (β : Type) where
  inner : β
  tracker : UsageTracker

/-- `new` -/
def UsageBody.new (inner : HttpBody ω β δ τ ε) (body : β) (tracker : UsageTracker)
    (w : Ledger × ω) : UsageBody β × Ledger × ω :=
  if inner.isEndStream body w.2 then
    let (tracker, ledger) := tracker.finish w.1 "completed"
    (⟨body, tracker⟩, ledger, w.2)
  else (⟨body, tracker⟩, w)

/-- What `poll_frame` makes of a poll of the inner body. -/
def UsageTracker.observe [Buf δ] (tracker : UsageTracker) (ledger : Ledger) (poll : Polled δ τ ε)
    (ended : Bool) : UsageTracker × Ledger :=
  let polled :=
    match poll with
    | .Ready (some (.ok frame)) =>
      match frame.dataRef with
      | some data => (tracker.addResponseBytes (Buf.remaining data), ledger)
      | none => (tracker, ledger)
    | .Ready (some (.error _)) => tracker.finish ledger "body_error"
    | .Ready none => tracker.finish ledger "completed"
    | .Pending => (tracker, ledger)
  if ended then polled.1.finish polled.2 "completed" else polled

/-- `impl HttpBody for UsageBody`; the inner body is dropped before the tracker. -/
def usageBody [Buf δ] (inner : HttpBody ω β δ τ ε) : HttpBody (Ledger × ω) (UsageBody β) δ τ ε where
  pollFrame body w :=
    let (poll, body', w') := inner.pollFrame body.inner w.2
    let (tracker, ledger) := body.tracker.observe w.1 poll (inner.isEndStream body' w')
    (poll, ⟨body', tracker⟩, ledger, w')
  isEndStream body w := inner.isEndStream body.inner w.2
  sizeHint body w := inner.sizeHint body.inner w.2
  drop body w :=
    ((body.tracker.finish w.1 (incompleteOutcome w.1.termination)).2, inner.drop body.inner w.2)

-- ---------------------------------------------------------------------------
-- The permit
-- ---------------------------------------------------------------------------

/-- `PermitBody`, with its permit or without. -/
structure PermitBody (β : Type) where
  inner : β
  permit : Bool

/-- The permits that have gone back, after one that was held is dropped. -/
def dropPermit (returned : Nat) (permit : Bool) : Nat := if permit then returned + 1 else returned

/-- `new` -/
def PermitBody.new (inner : HttpBody ω β δ τ ε) (body : β) (w : Nat × ω) : PermitBody β × Nat × ω :=
  if inner.isEndStream body w.2 then (⟨body, false⟩, dropPermit w.1 true, w.2) else (⟨body, true⟩, w)

/-- When `poll_frame` takes the permit. -/
def takesPermit (poll : Polled δ τ ε) (ended : Bool) : Bool :=
  match poll with
  | .Ready none => true
  | .Ready (some (.error _)) => true
  | _ => ended

/-- What `poll_frame` makes of a poll of the inner body: the permit it is left with, and
the permits that have gone back. -/
def observePermit (permit : Bool) (returned : Nat) (poll : Polled δ τ ε) (ended : Bool) : Bool × Nat :=
  if takesPermit poll ended then (false, dropPermit returned permit) else (permit, returned)

/-- `impl HttpBody for PermitBody` -/
def permitBody (inner : HttpBody ω β δ τ ε) : HttpBody (Nat × ω) (PermitBody β) δ τ ε where
  pollFrame body w :=
    let (poll, body', w') := inner.pollFrame body.inner w.2
    let (permit, returned) := observePermit body.permit w.1 poll (inner.isEndStream body' w')
    (poll, ⟨body', permit⟩, returned, w')
  isEndStream body w := inner.isEndStream body.inner w.2
  sizeHint body w := inner.sizeHint body.inner w.2
  drop body w := (dropPermit w.1 body.permit, inner.drop body.inner w.2)

-- ---------------------------------------------------------------------------
-- They let everything through
-- ---------------------------------------------------------------------------

theorem countingBody_transparent [Buf δ] (inner : HttpBody ω β δ τ ε) :
    Transparent (countingBody inner) inner CountingBody.inner :=
  ⟨fun _ _ => rfl, fun _ _ => rfl, fun _ _ => rfl, fun _ _ => rfl, fun _ _ => rfl, fun _ _ => rfl⟩

theorem usageBody_transparent [Buf δ] (inner : HttpBody ω β δ τ ε) :
    Transparent (usageBody inner) inner UsageBody.inner :=
  ⟨fun _ _ => rfl, fun _ _ => rfl, fun _ _ => rfl, fun _ _ => rfl, fun _ _ => rfl, fun _ _ => rfl⟩

theorem permitBody_transparent (inner : HttpBody ω β δ τ ε) :
    Transparent (permitBody inner) inner PermitBody.inner :=
  ⟨fun _ _ => rfl, fun _ _ => rfl, fun _ _ => rfl, fun _ _ => rfl, fun _ _ => rfl, fun _ _ => rfl⟩

-- ---------------------------------------------------------------------------
-- What is accounted for
-- ---------------------------------------------------------------------------

/-- How a record calls an end. -/
def outcomeOf : Ending → String
  | .finished => "completed"
  | .failed => "body_error"

/-- A record with this many bytes; the counter stops at its largest value. -/
def UsageRecord.withBytes (record : UsageRecord) (bytes : Nat) : UsageRecord :=
  { record with responseBytes := min bytes (2 ^ 64 - 1) }

/-- The books with one more line. -/
def Books.enter (books : Books) (line : UsageLine) : Books :=
  { books with usages := books.usages ++ [line] }

theorem withBytes_add (record : UsageRecord) (n m : Nat) :
    (record.withBytes n).add m = record.withBytes (n + m) := by
  unfold UsageRecord.withBytes UsageRecord.add
  simp only [UsageRecord.mk.injEq, true_and]
  omega

/-- One poll of a counted body. -/
theorem observe_counts [Buf δ] {metrics : RequestBodyMetrics} (hbytes : metrics.bytes < 2 ^ 64)
    (observed : Observed δ τ ε) : metrics.observe observed.poll observed.ended =
      ⟨(metrics.bytes + observed.bytes) % 2 ^ 64, metrics.completed || observed.atEnd⟩ := by
  obtain ⟨counted, completed⟩ := metrics
  have hsame : counted % 18446744073709551616 = counted := Nat.mod_eq_of_lt hbytes
  obtain ⟨poll, ended⟩ := observed
  rcases poll with _ | (_ | (error | (data | trailers))) <;> cases ended <;>
    simp [RequestBodyMetrics.observe, RequestBodyMetrics.complete, RequestBodyMetrics.add,
      Observed.bytes, Observed.atEnd, Frame.dataRef, hsame]

/-- After any life the metrics hold what was observed. -/
theorem counting_life [Buf δ] {inner : HttpBody ω β δ τ ε} {body : β} {w₀ : ω}
    {seen : List (Observed δ τ ε)} {b : CountingBody β} {w : RequestBodyMetrics × ω}
    (h : Life (countingBody inner) (fun w w' => w'.1 = w.1)
      (CountingBody.new inner body (⟨0, false⟩, w₀)).1 (CountingBody.new inner body (⟨0, false⟩, w₀)).2
      seen b w) :
    w.1 = ⟨totalBytes seen % 2 ^ 64, seen.any Observed.atEnd⟩ := by
  induction h with
  | start =>
    show (if inner.isEndStream body w₀ then _ else _) = _
    cases hended : inner.isEndStream body w₀ with
    | true => simp [CountingBody.new, countingBody, totalBytes, Observed.bytes, Observed.atEnd,
        RequestBodyMetrics.complete, hended]
    | false => simp [CountingBody.new, countingBody, totalBytes, Observed.bytes, Observed.atEnd, hended]
  | @poll seen b w poll b' w' _ hpoll ih =>
    have hbytes : w.1.bytes < 2 ^ 64 := by
      rw [ih]
      exact Nat.mod_lt _ (by decide)
    obtain ⟨rfl, rfl, rfl⟩ : (inner.pollFrame b.inner w.2).1 = poll ∧
        (⟨(inner.pollFrame b.inner w.2).2.1⟩ : CountingBody β) = b' ∧ (_, _) = w' := by
      simpa only [countingBody, Prod.mk.injEq] using hpoll
    refine (observe_counts hbytes ⟨_, _⟩).trans ?_
    rw [ih, totalBytes_concat, List.any_append, List.any_cons, List.any_nil, Bool.or_false]
    simp [countingBody]
  | others _ hothers ih => exact hothers.trans ih

/-- What a tracker and its ledger are after a history. -/
def UsageTracker.Accounts [Buf δ] (record : UsageRecord) (books : Books)
    (seen : List (Observed δ τ ε)) (tracker : UsageTracker) (ledger : Ledger) : Prop :=
  match ending seen with
  | none => tracker.record = some (record.withBytes (totalBytes seen)) ∧ ledger.books = books
  | some how => tracker.record = none ∧ ∃ requestBytes, ledger.books =
      books.enter ⟨record.withBytes (totalBytes (untilEnd seen)), requestBytes, outcomeOf how⟩

/-- A tracker that has written its record does nothing. -/
theorem observe_written [Buf δ] (ledger : Ledger) (poll : Polled δ τ ε) (ended : Bool) :
    (⟨none⟩ : UsageTracker).observe ledger poll ended = (⟨none⟩, ledger) := by
  rcases poll with _ | (_ | (error | (data | trailers))) <;> cases ended <;> rfl

/-- A tracker with a record adds to it, or writes it. -/
theorem observe_open [Buf δ] (record : UsageRecord) (n : Nat) (ledger : Ledger)
    (observed : Observed δ τ ε) :
    (⟨some (record.withBytes n)⟩ : UsageTracker).observe ledger observed.poll observed.ended =
      match observed.settles with
      | none => (⟨some (record.withBytes (n + observed.bytes))⟩, ledger)
      | some how =>
        (⟨none⟩, ledger.writeUsage (record.withBytes (n + observed.bytes)) (outcomeOf how)) := by
  obtain ⟨poll, ended⟩ := observed
  rcases poll with _ | (_ | (error | (data | trailers))) <;> cases ended <;>
    simp [UsageTracker.observe, UsageTracker.finish, UsageTracker.addResponseBytes,
      Observed.settles, Observed.bytes, Frame.dataRef, withBytes_add, outcomeOf]

theorem accounts_observe [Buf δ] {record : UsageRecord} {books : Books}
    {seen : List (Observed δ τ ε)} {tracker : UsageTracker} {ledger : Ledger}
    (h : tracker.Accounts record books seen ledger) (observed : Observed δ τ ε) :
    (tracker.observe ledger observed.poll observed.ended).1.Accounts record books
      (seen ++ [observed]) (tracker.observe ledger observed.poll observed.ended).2 := by
  obtain ⟨held⟩ := tracker
  unfold UsageTracker.Accounts at h ⊢
  rw [ending_concat]
  rcases hending : ending seen with _ | how
  · rw [hending] at h
    obtain ⟨rfl, hbooks⟩ := h
    rw [observe_open]
    rcases hsettles : observed.settles with _ | how
    · exact ⟨by rw [totalBytes_concat], hbooks⟩
    · refine ⟨rfl, if record.requestMetrics then ledger.metrics.completedBytes else none, ?_⟩
      rw [untilEnd_last hending hsettles, totalBytes_concat, ← hbooks]
      rfl
  · rw [hending] at h
    obtain ⟨rfl, requestBytes, hbooks⟩ := h
    rw [observe_written, untilEnd_concat hending]
    exact ⟨rfl, requestBytes, hbooks⟩

/-- After any life a usage body has its record, with what it has seen, or it has written
it. -/
theorem usage_life [Buf δ] {inner : HttpBody ω β δ τ ε} {record : UsageRecord} {body : β}
    {ledger : Ledger} {w₀ : ω} {seen : List (Observed δ τ ε)} {b : UsageBody β} {w : Ledger × ω}
    (h : Life (usageBody inner) (fun w w' => w'.1.books = w.1.books)
      (UsageBody.new inner body ⟨some (record.withBytes 0)⟩ (ledger, w₀)).1
      (UsageBody.new inner body ⟨some (record.withBytes 0)⟩ (ledger, w₀)).2 seen b w) :
    b.tracker.Accounts record ledger.books seen w.1 := by
  induction h with
  | start =>
    unfold UsageBody.new UsageTracker.Accounts
    cases hended : inner.isEndStream body w₀ with
    | true => simp [usageBody, hended, ending, Observed.settles, untilEnd, totalBytes, Observed.bytes,
        UsageTracker.finish, Ledger.writeUsage, Books.writeUsage, Books.enter, outcomeOf]
    | false => simp [usageBody, hended, ending, Observed.settles, totalBytes, Observed.bytes]
  | @poll seen b w poll b' w' _ hpoll ih =>
    have hobserved := accounts_observe ih ⟨poll, (usageBody inner).isEndStream b' w'⟩
    obtain ⟨rfl, rfl, rfl⟩ : (inner.pollFrame b.inner w.2).1 = poll ∧ (⟨_, _⟩ : UsageBody β) = b' ∧
        (_, _) = w' := by
      simpa only [usageBody, Prod.mk.injEq] using hpoll
    exact hobserved
  | others _ hothers ih =>
    unfold UsageTracker.Accounts at ih ⊢
    rw [hothers]
    exact ih

/-- The permit is taken by what settles a history. -/
theorem takesPermit_eq (observed : Observed δ τ ε) :
    takesPermit observed.poll observed.ended = observed.settles.isSome := by
  obtain ⟨poll, ended⟩ := observed
  rcases poll with _ | (_ | (error | frame)) <;> cases ended <;> rfl

/-- A permit that is held until a history is settled, and goes back then. -/
def PermitAccounts (returned : Nat) (seen : List (Observed δ τ ε)) (permit : Bool) (now : Nat) : Prop :=
  permit = (ending seen).isNone ∧ now = dropPermit returned (ending seen).isSome

theorem accounts_observePermit {returned now : Nat} {seen : List (Observed δ τ ε)} {permit : Bool}
    (h : PermitAccounts returned seen permit now) (observed : Observed δ τ ε) :
    PermitAccounts returned (seen ++ [observed])
      (observePermit permit now observed.poll observed.ended).1
      (observePermit permit now observed.poll observed.ended).2 := by
  obtain ⟨rfl, rfl⟩ := h
  unfold PermitAccounts observePermit
  rw [takesPermit_eq, ending_concat]
  rcases ending seen with _ | how
  · rcases observed.settles with _ | how
    · exact ⟨rfl, rfl⟩
    · exact ⟨rfl, rfl⟩
  · rcases observed.settles with _ | how'
    · exact ⟨rfl, rfl⟩
    · exact ⟨rfl, rfl⟩

/-- After any life the permit is held, or has gone back once. -/
theorem permit_life {inner : HttpBody ω β δ τ ε} {body : β} {returned : Nat} {w₀ : ω}
    {seen : List (Observed δ τ ε)} {b : PermitBody β} {w : Nat × ω}
    (h : Life (permitBody inner) (fun w w' => w'.1 = w.1)
      (PermitBody.new inner body (returned, w₀)).1 (PermitBody.new inner body (returned, w₀)).2
      seen b w) :
    PermitAccounts returned seen b.permit w.1 := by
  induction h with
  | start =>
    unfold PermitBody.new PermitAccounts
    cases hended : inner.isEndStream body w₀ with
    | true => simp [permitBody, hended, ending, Observed.settles]
    | false => simp [permitBody, hended, ending, Observed.settles, dropPermit]
  | @poll seen b w poll b' w' _ hpoll ih =>
    have hobserved := accounts_observePermit ih ⟨poll, (permitBody inner).isEndStream b' w'⟩
    obtain ⟨rfl, rfl, rfl⟩ : (inner.pollFrame b.inner w.2).1 = poll ∧ (⟨_, _⟩ : PermitBody β) = b' ∧
        (_, _) = w' := by
      simpa only [permitBody, Prod.mk.injEq] using hpoll
    exact hobserved
  | others _ hothers ih =>
    unfold PermitAccounts at ih ⊢
    rw [hothers]
    exact ih

-- ---------------------------------------------------------------------------
-- What is accounted for in the end
-- ---------------------------------------------------------------------------

/-- The line of a response that was observed so far when its body was dropped: `recorded`
is what becomes of the bytes that were handed out before the history was settled. -/
structure Records [Buf δ] (recorded : Nat → Nat) (record : UsageRecord)
    (seen : List (Observed δ τ ε)) (termination : Option ConnectionTermination) (line : UsageLine) :
    Prop where
  record_eq : line.record =
    { record with responseBytes := recorded (totalBytes (untilEnd seen)) }
  finished : ending seen = some .finished → line.streamOutcome = "completed"
  failed : ending seen = some .failed → line.streamOutcome = "body_error"
  incomplete : ending seen = none → line.streamOutcome = incompleteOutcome termination

/-- What the three bodies account for, around this one, in any life and when they are
dropped after it. Others may act in between on what a body shares, but for the books of
its request, the counter it counts in, and the permits it has given back. -/
structure BodiesAccount [Buf δ] (recorded counted : Nat → Nat) (inner : HttpBody ω β δ τ ε) :
    Prop where
  usage : ∀ record body ledger w₀ seen b w,
    let start := UsageBody.new inner body ⟨some { record with responseBytes := 0 }⟩ (ledger, w₀)
    Life (usageBody inner) (fun w w' => w'.1.books = w.1.books) start.1 start.2 seen b w →
      ∃ line, ((usageBody inner).drop b w).1.books = ledger.books.enter line ∧
        Records recorded record seen w.1.termination line
  /-- a length is reported when the end was observed -/
  counting : ∀ body w₀ seen b w,
    let start := CountingBody.new inner body (⟨0, false⟩, w₀)
    Life (countingBody inner) (fun w w' => w'.1 = w.1) start.1 start.2 seen b w →
      w.1.completedBytes =
        if seen.any Observed.atEnd then some (counted (totalBytes seen)) else none
  /-- the permit is gone as soon as the history is settled, and in the end in any case -/
  permit : ∀ body returned w₀ seen b w,
    let start := PermitBody.new inner body (returned, w₀)
    Life (permitBody inner) (fun w w' => w'.1 = w.1) start.1 start.2 seen b w →
      w.1 = (if (ending seen).isSome then returned + 1 else returned) ∧
        ((permitBody inner).drop b w).1 = returned + 1
  usage_transparent : Transparent (usageBody inner) inner UsageBody.inner
  counting_transparent : Transparent (countingBody inner) inner CountingBody.inner
  permit_transparent : Transparent (permitBody inner) inner PermitBody.inner

/-- **Bodies**: whatever the body inside does and whenever they are dropped, one usage
record is written with what came before the end, a length is reported once the end was
seen, the permit goes back once, and nothing else is changed. A record stops counting at
the largest 64-bit number, and the counter wraps around. -/
theorem bodies_account [Buf δ] (inner : HttpBody ω β δ τ ε) :
    BodiesAccount (fun bytes => min bytes (2 ^ 64 - 1)) (fun bytes => bytes % 2 ^ 64) inner where
  usage := by
    intro record body ledger w₀ seen b w start hlife
    have haccounts : b.tracker.Accounts record ledger.books seen w.1 := usage_life hlife
    unfold UsageTracker.Accounts at haccounts
    show ∃ line, (b.tracker.finish w.1 _).2.books = _ ∧ _
    unfold UsageTracker.finish
    rcases hending : ending seen with _ | how
    · -- dropped before its end: the drop writes the record
      rw [hending] at haccounts
      obtain ⟨hrecord, hbooks⟩ := haccounts
      rw [hrecord]
      refine ⟨⟨record.withBytes (totalBytes seen),
        if record.requestMetrics then w.1.metrics.completedBytes else none,
        incompleteOutcome w.1.termination⟩, ?_, ?_, ?_, ?_, fun _ => rfl⟩
      · rw [← hbooks]
        rfl
      · rw [untilEnd_of_none hending]
        rfl
      · rw [hending]
        exact fun h => absurd h (by simp)
      · rw [hending]
        exact fun h => absurd h (by simp)
    · -- the poll that ended it has, and the drop finds nothing to write
      rw [hending] at haccounts
      obtain ⟨hrecord, requestBytes, hbooks⟩ := haccounts
      rw [hrecord]
      refine ⟨_, hbooks, rfl, ?_, ?_, ?_⟩
      · rw [hending]
        exact fun h => by rw [Option.some.inj h]; rfl
      · rw [hending]
        exact fun h => by rw [Option.some.inj h]; rfl
      · rw [hending]
        exact fun h => absurd h (by simp)
  counting := by
    intro body w₀ seen b w start hlife
    rw [counting_life hlife]
    rfl
  permit := by
    intro body returned w₀ seen b w start hlife
    obtain ⟨hpermit, hreturned⟩ := permit_life hlife
    refine ⟨hreturned, ?_⟩
    show dropPermit w.1 b.permit = _
    rw [hpermit, hreturned]
    cases ending seen with
    | none => rfl
    | some how => rfl
  usage_transparent := usageBody_transparent inner
  counting_transparent := countingBody_transparent inner
  permit_transparent := permitBody_transparent inner

/-- A buffer of so many bytes. -/
structure Chunk where
  bytes : Nat

instance : Buf Chunk := ⟨Chunk.bytes⟩

/-- A body that does what is written down for it, and then ends. -/
def scripted : HttpBody Unit (List (Polled Chunk Unit Unit)) Chunk Unit Unit where
  pollFrame script _ :=
    match script with
    | [] => (.Ready none, [], ())
    | poll :: rest => (poll, rest, ())
  isEndStream _ _ := false
  sizeHint _ _ := ⟨0, none⟩
  drop _ _ := ()

def hugeFrame : Polled Chunk Unit Unit := .Ready (some (.ok (.Data ⟨2 ^ 62⟩)))

def sampleRecord : UsageRecord := ⟨[], [], [], "POST", "/v1/completions", none, 200, true, 0⟩

/-- The numbers are not exact: of four frames of `2 ^ 62` bytes the record has one byte
less than they had. -/
theorem bodies_not_exact : ¬∀ inner : HttpBody Unit (List (Polled Chunk Unit Unit)) Chunk Unit Unit,
    BodiesAccount id id inner := by
  intro hall
  obtain ⟨line, hbooks, hrecord, -⟩ := (hall scripted).usage sampleRecord
    [hugeFrame, hugeFrame, hugeFrame, hugeFrame] ⟨⟨0, [], []⟩, ⟨0, false⟩, none⟩ () _ _ _
    ((((Life.start.poll rfl).poll rfl).poll rfl).poll rfl)
  have hlines := congrArg (fun books => books.usages.map fun line => line.record.responseBytes) hbooks
  have hwritten := (List.cons.inj hlines).1
  dsimp only at hwritten
  rw [hrecord] at hwritten
  exact absurd hwritten (by decide +kernel)

-- ---------------------------------------------------------------------------
-- The two bodies of a response
-- ---------------------------------------------------------------------------

/-- What a poll of the upstream's body is to a request; one that is not ready is nothing. -/
def bodyFrame [Buf δ] (observed : Observed δ τ ε) : Option BodyFrame :=
  match observed.poll with
  | .Pending => none
  | .Ready none => some .finished
  | .Ready (some (.error _)) => some .failed
  | .Ready (some (.ok _)) => some (.frame observed.bytes observed.ended)

/-- What a handler shares with its response body. -/
def Handler.ledger (handler : Handler) : Ledger :=
  ⟨handler.books, handler.metrics, handler.connectionTermination⟩

/-- A handler whose response body has become this. -/
def Handler.responding (handler : Handler) (permit : Bool) (tracked : UsageTracker × Ledger) : Handler :=
  { handler with phase := .responding ⟨permit, tracked.1.record⟩, books := tracked.2.books }

theorem finish_refines (handler : Handler) (permit : Bool) (tracker : Option UsageRecord)
    (outcome : String) : handler.finish ⟨permit, tracker⟩ outcome =
      handler.responding permit ((⟨tracker⟩ : UsageTracker).finish handler.ledger outcome) := by
  cases tracker with
  | none => rfl
  | some record => rfl

theorem releases_refines [Buf δ] {observed : Observed δ τ ε} {frame : BodyFrame}
    (h : bodyFrame observed = some frame) :
    releases frame = takesPermit observed.poll observed.ended := by
  obtain ⟨poll, ended⟩ := observed
  rcases poll with _ | (_ | (error | data))
  · exact absurd h (by simp [bodyFrame])
  all_goals
    obtain rfl := Option.some.inj h
    rfl

theorem poll_refines [Buf δ] {observed : Observed δ τ ε} {frame : BodyFrame}
    (h : bodyFrame observed = some frame) (handler : Handler) (permit : Bool)
    {tracker : Option UsageRecord} (hword : ∀ record ∈ tracker, record.responseBytes < 2 ^ 64) :
    handler.poll ⟨permit, tracker⟩ frame = handler.responding permit
      ((⟨tracker⟩ : UsageTracker).observe handler.ledger observed.poll observed.ended) := by
  obtain ⟨poll, ended⟩ := observed
  rcases poll with _ | (_ | (error | (data | trailers)))
  · exact absurd h (by simp [bodyFrame])
  all_goals obtain rfl := Option.some.inj h
  · cases tracker <;> cases ended <;> rfl
  · cases tracker <;> cases ended <;> rfl
  · cases tracker <;> cases ended <;> rfl
  · -- trailers have no bytes
    have hsame : tracker.map (fun record => { record with
        responseBytes := min (record.responseBytes + 0) (2 ^ 64 - 1) }) = tracker := by
      cases tracker with
      | none => rfl
      | some record =>
        have hrecord := hword record rfl
        rw [Option.map_some, Nat.add_zero, Nat.min_eq_left (by omega)]
    show (let body : ResponseBody := ⟨permit, tracker.map _⟩
      if ended then handler.finish body "completed" else { handler with phase := .responding body }) = _
    rw [show (Observed.bytes _ : Nat) = 0 from rfl, hsame]
    cases tracker <;> cases ended <;> rfl

/-- What goes back when a permit that may be held is dropped. -/
theorem returned_permits (body : ResponseBody) (returned : Nat) :
    dropPermit returned body.permit - returned = body.permits := by
  unfold dropPermit ResponseBody.permits
  split
  · omega
  · omega

/-- What a client sees of the two bodies is what the upstream's gave. -/
theorem stack_life [Buf δ] {inner : HttpBody ω β δ τ ε} {others : Ledger × Nat × ω → _ → Prop}
    {b₀ b : UsageBody (PermitBody β)} {w₀ w : Ledger × Nat × ω} {seen : List (Observed δ τ ε)}
    (h : Life (usageBody (permitBody inner)) others b₀ w₀ seen b w) :
    Life inner (fun _ _ => True) b₀.inner.inner w₀.2.2 seen b.inner.inner w.2.2 :=
  (permitBody_transparent inner).life ((usageBody_transparent _).life h)

/-- **The response body** of a request, polled: the usage body around the permit body
around the upstream's does what its handler says. -/
theorem stack_poll [Buf δ] (inner : HttpBody ω β δ τ ε) (b : β) (w : ω) (body : ResponseBody)
    (available returned : Nat) (handler : Handler) {frame : BodyFrame}
    (hword : ∀ record ∈ body.tracker, record.responseBytes < 2 ^ 64) :
    let stack := usageBody (permitBody inner)
    let polled := stack.pollFrame ⟨⟨b, body.permit⟩, ⟨body.tracker⟩⟩ (handler.ledger, returned, w)
    bodyFrame ⟨polled.1, stack.isEndStream polled.2.1 polled.2.2⟩ = some frame →
      afterResponse available handler body (.polled frame) =
        some (available + (polled.2.2.2.1 - returned),
          handler.responding polled.2.1.inner.permit (polled.2.1.tracker, polled.2.2.1)) := by
  intro stack polled hframe
  have hreleases := releases_refines hframe
  have hpoll : ∀ permit, handler.poll ⟨permit, body.tracker⟩ frame =
      handler.responding permit (polled.2.1.tracker, polled.2.2.1) :=
    fun permit => poll_refines hframe handler permit hword
  have hpermit : (polled.2.1.inner.permit, polled.2.2.2.1) = observePermit body.permit returned
      polled.1 (stack.isEndStream polled.2.1 polled.2.2) := rfl
  unfold observePermit at hpermit
  unfold afterResponse
  dsimp only
  rw [hreleases]
  split
  · rename_i htakes
    rw [if_pos htakes] at hpermit
    obtain ⟨hpermit, hreturned⟩ := Prod.mk.inj hpermit
    rw [hpoll, hpermit, hreturned, returned_permits]
  · rename_i htakes
    rw [if_neg htakes] at hpermit
    obtain ⟨hpermit, hreturned⟩ := Prod.mk.inj hpermit
    rw [hpermit, hreturned, Nat.sub_self, ← hpoll]
    rfl

/-- And dropped. -/
theorem stack_drop [Buf δ] (inner : HttpBody ω β δ τ ε) (b : β) (w : ω) (body : ResponseBody)
    (available returned : Nat) (handler : Handler) :
    let dropped := (usageBody (permitBody inner)).drop ⟨⟨b, body.permit⟩, ⟨body.tracker⟩⟩
      (handler.ledger, returned, w)
    afterResponse available handler body (.dropped false) =
      some (available + (dropped.2.1 - returned),
        { handler with phase := .gone, books := dropped.1.books }) := by
  intro dropped
  have hreturned : dropped.2.1 = dropPermit returned body.permit := rfl
  unfold afterResponse
  dsimp only
  rw [hreturned, returned_permits]
  obtain ⟨permit, tracker⟩ := body
  rw [finish_refines]
  rfl

end CamelidEnterprise.Gateway
