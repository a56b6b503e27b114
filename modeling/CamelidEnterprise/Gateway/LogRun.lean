import CamelidEnterprise.Gateway.Log

/-!
# Camelid Enterprise — what the gateway log keeps

Three invariants of the log alone, whatever the interleaving: `Counts` is about the
calls of `write` and the counters, `Closing` about the two halves of the channel and
who took them, `Draining` about the end of the thread. `Ledger` ties the log to what
happened: the records accepted are those in the file, the one in the thread's hand and
those in the channel, in that order.

* `step_counts`, `step_closing`, `step_draining`, `step_ledger` — one step;
* `run_kept` — every run;
* `gateway_log` — what it means for the file, for a flush and for its caller.
-/

namespace CamelidEnterprise.GatewayLog

open Foundation

-- ---------------------------------------------------------------------------
-- Steps
-- ---------------------------------------------------------------------------

/-- A record is refused, or it was not and there was room. -/
theorem send_cases (s : Log) (call : Nat) (line : Str) :
    (∃ reason, s.send call line =
      (.silent, { s with writes := s.writes.set call (.refused reason) })) ∨
    s.records = true ∧ s.writer.gone = false ∧
      s.send call line = (.accepted line,
        { s with
          locked := true
          queue := s.queue ++ [line]
          writes := s.writes.set call .counting }) := by
  unfold Log.send
  rcases hrefusal : s.refusal with _ | reason
  · unfold Log.refusal at hrefusal
    split at hrefusal
    · cases hrefusal
    split at hrefusal
    · cases hrefusal
    rename_i hrecords hgone
    exact .inr ⟨by simpa using hrecords, by simpa using hgone, rfl⟩
  · exact .inl ⟨reason, rfl⟩

/-- A flush has both halves, or they had gone together. -/
theorem take_cases {s : Log} (hhalves : s.writerStopped = s.records) (call : Nat) :
    (s.records = true ∧ s.take call =
      (.silent,
        { s with records := false, writerStopped := false, flushes := s.flushes.set call .taken })) ∨
    (s.records = false ∧ s.take call =
      (.flushed .AlreadyStopped,
        { s with
          records := false
          writerStopped := false
          flushes := s.flushes.set call (.returned .AlreadyStopped) })) := by
  unfold Log.take
  cases hrecords : s.records with
  | true =>
    rw [if_pos ⟨rfl, hhalves.trans hrecords⟩]
    exact .inl ⟨rfl, rfl⟩
  | false =>
    rw [if_neg (by simp), Bool.or_false]
    exact .inr ⟨rfl, rfl⟩

-- ---------------------------------------------------------------------------
-- The calls of `write`
-- ---------------------------------------------------------------------------

/-- How many calls hold the lock, and how many are not over. -/
def holding (writes : List WriteCall) : Nat := writes.countP fun w => decide (w = .counting)

def pending (writes : List WriteCall) : Nat := writes.countP fun w => !decide (w = .returned)

/-- A call that goes on, in both counts. -/
theorem writes_set {writes : List WriteCall} {call : Nat} {before : WriteCall}
    (hcall : writes[call]? = some before) (after : WriteCall) :
    holding (writes.set call after) + (if before = .counting then 1 else 0) =
        holding writes + (if after = .counting then 1 else 0) ∧
      pending (writes.set call after) + (if before = .returned then 0 else 1) =
        pending writes + (if after = .returned then 0 else 1) ∧
      (writes.set call after).length = writes.length := by
  have hholding := countP_set hcall (fun w => decide (w = .counting)) after
  have hpending := countP_set hcall (fun w => !decide (w = .returned)) after
  simp only [decide_eq_true_eq, Bool.not_eq_true', decide_eq_false_iff_not, ite_not] at hholding hpending
  exact ⟨hholding, hpending, List.length_set⟩

/-- The lock is held by one call, or by none; and a call that is over was counted once. -/
structure Counts (s : Log) : Prop where
  locked_eq : holding s.writes = if s.locked = true then 1 else 0
  counted : s.queuedRecords + s.droppedRecords + pending s.writes = s.writes.length

theorem opened_counts : Counts .opened := ⟨rfl, rfl⟩

theorem step_counts {s s' : Log} {action : Action} {event : Event} (h : Counts s)
    (hstep : Step s action event s') : Counts s' := by
  obtain ⟨hlocked, hcounted⟩ := h
  cases hstep with
  | @write line =>
    have hholding : holding (s.writes ++ [.calling line]) = holding s.writes := by
      simp [holding]
    have hpending : pending (s.writes ++ [.calling line]) = pending s.writes + 1 := by
      simp [pending]
    refine ⟨hholding.trans hlocked, ?_⟩
    show s.queuedRecords + s.droppedRecords + pending (s.writes ++ [.calling line]) =
      (s.writes ++ [WriteCall.calling line]).length
    rw [hpending, List.length_append, List.length_singleton]
    omega
  | @send call line hfree hcall =>
    rw [hfree] at hlocked
    rcases send_cases s call line with ⟨reason, hsend⟩ | ⟨-, -, hsend⟩
    · -- refused: `record_drop` is still to come, so the call stays pending
      obtain ⟨hholding, hpending, hlength⟩ := writes_set hcall (.refused reason)
      simp only [reduceCtorEq, if_false] at hholding hpending hlocked
      rw [hsend]
      constructor
      · show holding (s.writes.set call (.refused reason)) = if s.locked = true then 1 else 0
        rw [hfree]
        simp only [reduceCtorEq, if_false]
        omega
      · show s.queuedRecords + s.droppedRecords + pending (s.writes.set call (.refused reason)) =
          (s.writes.set call (.refused reason)).length
        omega
    · obtain ⟨hholding, hpending, hlength⟩ := writes_set hcall .counting
      simp only [reduceCtorEq, if_false, if_true] at hholding hpending hlocked
      rw [hsend]
      constructor
      · show holding (s.writes.set call .counting) = 1
        omega
      · show s.queuedRecords + s.droppedRecords + pending (s.writes.set call .counting) =
          (s.writes.set call .counting).length
        omega
  | @countQueued call hcall =>
    obtain ⟨hholding, hpending, hlength⟩ := writes_set hcall .returned
    simp only [reduceCtorEq, if_false, if_true] at hholding hpending
    constructor
    · show holding (s.writes.set call .returned) = 0
      split at hlocked
      · omega
      · omega
    · show s.queuedRecords + 1 + s.droppedRecords + pending (s.writes.set call .returned) =
        (s.writes.set call .returned).length
      omega
  | @recordDrop call reason hcall =>
    obtain ⟨hholding, hpending, hlength⟩ := writes_set hcall .returned
    simp only [reduceCtorEq, if_false, if_true] at hholding hpending
    constructor
    · show holding (s.writes.set call .returned) = if s.locked = true then 1 else 0
      omega
    · show s.queuedRecords + (s.droppedRecords + 1) + pending (s.writes.set call .returned) =
        (s.writes.set call .returned).length
      omega
  | receive hwriter hqueue => exact ⟨hlocked, hcounted⟩
  | append hwriter => exact ⟨hlocked, hcounted⟩
  | countWritten hwriter => exact ⟨hlocked, hcounted⟩
  | finish hwriter hqueue hclosed => exact ⟨hlocked, hcounted⟩
  | signal hwriter => exact ⟨hlocked, hcounted⟩
  | flush => exact ⟨hlocked, hcounted⟩
  | @take call hfree hcall =>
    unfold Log.take
    split
    · exact ⟨hlocked, hcounted⟩
    · exact ⟨hlocked, hcounted⟩
  | dropSender hcall => exact ⟨hlocked, hcounted⟩
  | receiveSignal hcall hsignal => exact ⟨hlocked, hcounted⟩
  | passDeadline hcall => exact ⟨hlocked, hcounted⟩
  | readWritten hcall => exact ⟨hlocked, hcounted⟩

-- ---------------------------------------------------------------------------
-- The calls of `flush_and_stop`
-- ---------------------------------------------------------------------------

/-- A flush that took the halves: it is past the lock, and was not told that it came
too late. -/
def owns (f : FlushCall) : Bool := !decide (f = .calling) && !decide (f = .returned .AlreadyStopped)

/-- The two halves go together, while no record is on its way, to the first flush that
comes; from then on the number of accepted records stands. -/
structure Closing (s : Log) : Prop where
  halves : s.writerStopped = s.records
  unlocked : s.records = false → s.locked = false
  sending : s.senderDropped = true → s.records = false
  fresh : s.records = true → ∀ f ∈ s.flushes, f = .calling
  owner : s.flushes.countP owns = if s.records = true then 0 else 1
  reading : ∀ f ∈ s.flushes, ∀ queued, f = .reading queued → queued = s.queuedRecords

theorem opened_closing : Closing .opened where
  halves := rfl
  unlocked := fun h => by cases h
  sending := fun h => by cases h
  fresh := fun _ _ hf => absurd hf List.not_mem_nil
  owner := rfl
  reading := fun _ hf => absurd hf List.not_mem_nil

/-- A flush that is past the lock shows that the halves are gone. -/
theorem Closing.closed {s : Log} (h : Closing s) {f : FlushCall} (hf : f ∈ s.flushes)
    (hpast : f ≠ .calling) : s.records = false := by
  by_contra hrecords
  exact hpast (h.fresh (by simpa using hrecords) f hf)

/-- A flush that took the halves goes on. -/
theorem Closing.goOn {s : Log} (h : Closing s) {call : Nat} {before after : FlushCall}
    (hcall : s.flushes[call]? = some before) (hbefore : owns before = true)
    (hafter : owns after = true)
    (hreading : ∀ queued, after = .reading queued → queued = s.queuedRecords)
    {senderDropped signalled : Bool} (hsender : senderDropped = true → s.records = false) :
    Closing { s with senderDropped, signalled, flushes := s.flushes.set call after } where
  halves := h.halves
  unlocked := h.unlocked
  sending := hsender
  fresh := by
    intro hrecords
    have hcalling := h.fresh hrecords before (List.mem_of_getElem? hcall)
    rw [hcalling] at hbefore
    cases hbefore
  owner := by
    have hcount := countP_set hcall owns after
    rw [if_pos hbefore, if_pos hafter] at hcount
    have howner := h.owner
    show (s.flushes.set call after).countP owns = if s.records = true then 0 else 1
    omega
  reading := forall_mem_set h.reading call hreading

theorem step_closing {s s' : Log} {action : Action} {event : Event} (hcounts : Counts s)
    (h : Closing s) (hstep : Step s action event s') : Closing s' := by
  cases hstep with
  | write => exact ⟨h.halves, h.unlocked, h.sending, h.fresh, h.owner, h.reading⟩
  | @send call line hfree hcall =>
    rcases send_cases s call line with ⟨reason, hsend⟩ | ⟨hrecords, -, hsend⟩
    · rw [hsend]
      exact ⟨h.halves, h.unlocked, h.sending, h.fresh, h.owner, h.reading⟩
    · rw [hsend]
      refine ⟨h.halves, fun hclosed => ?_, h.sending, h.fresh, h.owner, h.reading⟩
      rw [show s.records = false from hclosed] at hrecords
      cases hrecords
  | @countQueued call hcall =>
    refine ⟨h.halves, fun _ => rfl, h.sending, h.fresh, h.owner, fun f hf queued hreading => ?_⟩
    -- while a record is on its way no flush has taken the halves
    have hclosed := h.closed hf (by rw [hreading]; simp)
    have hlocked := hcounts.locked_eq
    rw [h.unlocked hclosed] at hlocked
    have hholds : 0 < holding s.writes :=
      List.countP_pos_iff.mpr ⟨_, List.mem_of_getElem? hcall, by simp⟩
    simp only [reduceCtorEq, if_false] at hlocked
    omega
  | recordDrop hcall => exact ⟨h.halves, h.unlocked, h.sending, h.fresh, h.owner, h.reading⟩
  | receive hwriter hqueue => exact ⟨h.halves, h.unlocked, h.sending, h.fresh, h.owner, h.reading⟩
  | append hwriter => exact ⟨h.halves, h.unlocked, h.sending, h.fresh, h.owner, h.reading⟩
  | countWritten hwriter => exact ⟨h.halves, h.unlocked, h.sending, h.fresh, h.owner, h.reading⟩
  | finish hwriter hqueue hclosed =>
    exact ⟨h.halves, h.unlocked, h.sending, h.fresh, h.owner, h.reading⟩
  | signal hwriter => exact ⟨h.halves, h.unlocked, h.sending, h.fresh, h.owner, h.reading⟩
  | flush =>
    refine ⟨h.halves, h.unlocked, h.sending, fun hrecords f hf => ?_, ?_, fun f hf => ?_⟩
    · rcases List.mem_append.mp hf with hf | hf
      · exact h.fresh hrecords f hf
      · exact List.mem_singleton.mp hf
    · show (s.flushes ++ [FlushCall.calling]).countP owns = _
      rw [List.countP_append]
      exact h.owner
    · rcases List.mem_append.mp hf with hf | hf
      · exact h.reading f hf
      · intro queued hreading
        rw [List.mem_singleton.mp hf] at hreading
        cases hreading
  | @take call hfree hcall =>
    rcases take_cases h.halves call with ⟨hrecords, htake⟩ | ⟨hrecords, htake⟩
    · rw [htake]
      have hcount := countP_set hcall owns .taken
      have howner := h.owner
      rw [if_pos hrecords] at howner
      rw [if_neg (by simp [owns]), if_pos (by simp [owns])] at hcount
      refine ⟨rfl, fun _ => hfree, fun _ => rfl, (fun hnot => by cases hnot), ?_,
        forall_mem_set h.reading call (fun queued hreading => by cases hreading)⟩
      show (s.flushes.set call .taken).countP owns = 1
      omega
    · rw [htake]
      have hcount := countP_set hcall owns (.returned .AlreadyStopped)
      have howner := h.owner
      rw [hrecords, if_neg (by simp)] at howner
      rw [if_neg (by simp [owns]), if_neg (by simp [owns])] at hcount
      refine ⟨rfl, fun _ => hfree, fun _ => rfl, (fun hnot => by cases hnot), ?_,
        forall_mem_set h.reading call (fun queued hreading => by cases hreading)⟩
      show (s.flushes.set call (.returned .AlreadyStopped)).countP owns = 1
      omega
  | @dropSender call hcall =>
    have hclosed := h.closed (List.mem_of_getElem? hcall) (by simp)
    exact h.goOn hcall (by decide) (by decide) (fun queued hreading => by cases hreading)
      fun _ => hclosed
  | @receiveSignal call hcall hsignal =>
    exact h.goOn hcall (by decide) (by decide) (fun queued hreading => by cases hreading) h.sending
  | @passDeadline call hcall =>
    refine h.goOn hcall (by decide) (by simp [owns]) (fun queued hreading => ?_) h.sending
    exact (FlushCall.reading.inj hreading).symm
  | @readWritten call queued hcall =>
    exact h.goOn hcall (by simp [owns]) (by simp [owns]) (fun queued hreading => by cases hreading)
      h.sending

-- ---------------------------------------------------------------------------
-- The end of the thread
-- ---------------------------------------------------------------------------

/-- The thread leaves an empty channel nobody sends to, signals after that, and a flush
that was told so came last. -/
structure Draining (s : Log) : Prop where
  gone : s.writer.gone = true → s.queue = [] ∧ s.senderDropped = true
  signalled : s.signalled = true → s.writer = .exited
  drained : .returned .Drained ∈ s.flushes → s.writer = .exited

theorem opened_draining : Draining .opened where
  gone := fun h => by cases h
  signalled := fun h => by cases h
  drained := fun h => absurd h List.not_mem_nil

/-- A flush goes on, and not to `Drained`. -/
theorem drained_set {s : Log} (h : Draining s) (call : Nat) {after : FlushCall}
    (hafter : after ≠ .returned .Drained) (hmem : .returned .Drained ∈ s.flushes.set call after) :
    s.writer = .exited := by
  rcases List.mem_or_eq_of_mem_set hmem with hmem | heq
  · exact h.drained hmem
  · exact absurd heq.symm hafter

/-- The thread goes on from before its end. -/
theorem Draining.ongoing {s : Log} (h : Draining s) (hwriter : s.writer.gone = false)
    {writer : Writer} {queue file : List Str} {writtenRecords : Nat}
    (hgone : writer.gone = true → queue = [] ∧ s.senderDropped = true) :
    Draining { s with writer, queue, file, writtenRecords } where
  gone := hgone
  signalled := by
    intro hsignalled
    rw [h.signalled hsignalled] at hwriter
    cases hwriter
  drained := by
    intro hdrained
    rw [h.drained hdrained] at hwriter
    cases hwriter

theorem step_draining {s s' : Log} {action : Action} {event : Event} (hclosing : Closing s)
    (h : Draining s) (hstep : Step s action event s') : Draining s' := by
  cases hstep with
  | write => exact ⟨h.gone, h.signalled, h.drained⟩
  | @send call line hfree hcall =>
    rcases send_cases s call line with ⟨reason, hsend⟩ | ⟨-, hgone, hsend⟩
    · rw [hsend]
      exact ⟨h.gone, h.signalled, h.drained⟩
    · rw [hsend]
      refine ⟨fun hnot => ?_, h.signalled, h.drained⟩
      rw [show s.writer.gone = true from hnot] at hgone
      cases hgone
  | countQueued hcall => exact ⟨h.gone, h.signalled, h.drained⟩
  | recordDrop hcall => exact ⟨h.gone, h.signalled, h.drained⟩
  | receive hwriter hqueue => exact h.ongoing (by rw [hwriter]; rfl) fun hnot => by cases hnot
  | append hwriter => exact h.ongoing (by rw [hwriter]; rfl) fun hnot => by cases hnot
  | countWritten hwriter => exact h.ongoing (by rw [hwriter]; rfl) fun hnot => by cases hnot
  | finish hwriter hqueue hclosed =>
    exact h.ongoing (by rw [hwriter]; rfl) fun _ => ⟨hqueue, hclosed⟩
  | signal hwriter =>
    refine ⟨fun _ => h.gone (by rw [hwriter]; rfl), fun _ => rfl, fun _ => rfl⟩
  | flush =>
    refine ⟨h.gone, h.signalled, fun hmem => ?_⟩
    rcases List.mem_append.mp hmem with hmem | hmem
    · exact h.drained hmem
    · cases List.mem_singleton.mp hmem
  | @take call hfree hcall =>
    rcases take_cases hclosing.halves call with ⟨-, htake⟩ | ⟨-, htake⟩
    · rw [htake]
      exact ⟨h.gone, h.signalled, drained_set h call (by simp)⟩
    · rw [htake]
      exact ⟨h.gone, h.signalled, drained_set h call (by simp)⟩
  | @dropSender call hcall =>
    exact ⟨fun hgone => ⟨(h.gone hgone).1, rfl⟩, h.signalled, drained_set h call (by simp)⟩
  | receiveSignal hcall hsignal =>
    exact ⟨h.gone, (fun hnot => by cases hnot), fun _ => h.signalled hsignal⟩
  | @passDeadline call hcall => exact ⟨h.gone, h.signalled, drained_set h call (by simp)⟩
  | @readWritten call queued hcall => exact ⟨h.gone, h.signalled, drained_set h call (by simp)⟩

-- ---------------------------------------------------------------------------
-- The records
-- ---------------------------------------------------------------------------

/-- The record the thread took out and has not written. -/
def Writer.inHand : Writer → List Str
  | .writing line => [line]
  | _ => []

/-- How many records the thread is busy with. -/
def Writer.busy : Writer → Nat
  | .writing _ => 1
  | .counting => 1
  | _ => 0

/-- The records accepted are those in the file, the one in hand and those in the channel;
and each counter is behind by what is under way. -/
structure Ledger (history : List (Entry Log Action Event)) (s : Log) : Prop where
  order : accepted history = s.file ++ s.writer.inHand ++ s.queue
  sent : (accepted history).length = s.queuedRecords + holding s.writes
  written : s.writtenRecords + (if s.writer = .counting then 1 else 0) = s.file.length

theorem accepted_snoc (history : List (Entry Log Action Event)) (s s' : Log) (action : Action)
    (line : Str) :
    accepted (history ++ [⟨s, action, .accepted line, s'⟩]) = accepted history ++ [line] := by
  unfold accepted
  rw [List.filterMap_append]
  rfl

theorem accepted_snoc_other (history : List (Entry Log Action Event)) (s s' : Log) (action : Action)
    {event : Event} (hevent : ∀ line, event ≠ .accepted line) :
    accepted (history ++ [⟨s, action, event, s'⟩]) = accepted history := by
  unfold accepted
  rw [List.filterMap_append]
  cases event with
  | silent => exact List.append_nil _
  | accepted line => exact absurd rfl (hevent line)
  | dropped reason => exact List.append_nil _
  | flushed result => exact List.append_nil _

theorem opened_ledger : Ledger [] .opened := ⟨rfl, rfl, rfl⟩

/-- A step that accepts nothing and leaves the records where they are. -/
theorem Ledger.quiet {history : List (Entry Log Action Event)} {s s' : Log} (h : Ledger history s)
    (action : Action) {event : Event} (hevent : ∀ line, event ≠ .accepted line)
    (horder : s'.file ++ s'.writer.inHand ++ s'.queue = s.file ++ s.writer.inHand ++ s.queue)
    (hsent : s'.queuedRecords + holding s'.writes = s.queuedRecords + holding s.writes)
    (hwritten : s'.writtenRecords + (if s'.writer = .counting then 1 else 0) = s'.file.length) :
    Ledger (history ++ [⟨s, action, event, s'⟩]) s' := by
  have hsame := accepted_snoc_other history s s' action hevent
  refine ⟨?_, ?_, hwritten⟩
  · rw [hsame, horder]
    exact h.order
  · rw [hsame, hsent]
    exact h.sent

theorem step_ledger {history : List (Entry Log Action Event)} {s s' : Log} {action : Action}
    {event : Event} (hclosing : Closing s) (h : Ledger history s)
    (hstep : Step s action event s') : Ledger (history ++ [⟨s, action, event, s'⟩]) s' := by
  have hwritten := h.written
  cases hstep with
  | @write line =>
    refine h.quiet _ (by simp) rfl ?_ hwritten
    show s.queuedRecords + holding (s.writes ++ [.calling line]) = _
    rw [holding, List.countP_append]
    rfl
  | @send call line hfree hcall =>
    rcases send_cases s call line with ⟨reason, hsend⟩ | ⟨-, -, hsend⟩
    · -- refused: the line is in no queue, and the call no longer counts on one
      rw [hsend]
      refine h.quiet _ (by simp) rfl ?_ hwritten
      obtain ⟨hholding, -, -⟩ := writes_set hcall (.refused reason)
      simp only [reduceCtorEq, if_false] at hholding
      show s.queuedRecords + holding (s.writes.set call (.refused reason)) = _
      omega
    · -- the one step that accepts a line: it goes to the end of the queue
      rw [hsend]
      obtain ⟨hholding, -, -⟩ := writes_set hcall .counting
      simp only [reduceCtorEq, if_false, if_true] at hholding
      refine ⟨?_, ?_, hwritten⟩
      · rw [accepted_snoc, h.order]
        show _ = s.file ++ s.writer.inHand ++ (s.queue ++ [line])
        rw [List.append_assoc]
      · rw [accepted_snoc, List.length_append, List.length_singleton, h.sent]
        show _ = s.queuedRecords + holding (s.writes.set call .counting)
        omega
  | @countQueued call hcall =>
    refine h.quiet _ (by simp) rfl ?_ hwritten
    obtain ⟨hholding, -, -⟩ := writes_set hcall .returned
    simp only [reduceCtorEq, if_false, if_true] at hholding
    show s.queuedRecords + 1 + holding (s.writes.set call .returned) = _
    omega
  | @recordDrop call reason hcall =>
    refine h.quiet _ (by simp) rfl ?_ hwritten
    obtain ⟨hholding, -, -⟩ := writes_set hcall .returned
    simp only [reduceCtorEq, if_false] at hholding
    show s.queuedRecords + holding (s.writes.set call .returned) = _
    omega
  | @receive line queue hwriter hqueue =>
    rw [hwriter] at hwritten
    refine h.quiet _ (by simp) ?_ rfl hwritten
    rw [hwriter, hqueue]
    show s.file ++ [line] ++ queue = s.file ++ [] ++ (line :: queue)
    simp
  | @append line hwriter =>
    rw [hwriter] at hwritten
    refine h.quiet _ (by simp) ?_ rfl ?_
    · rw [hwriter]
      show s.file ++ [line] ++ [] ++ s.queue = s.file ++ [line] ++ s.queue
      rw [List.append_nil]
    · show s.writtenRecords + 1 = (s.file ++ [line]).length
      simp only [reduceCtorEq, if_false] at hwritten
      rw [List.length_append, List.length_singleton]
      omega
  | countWritten hwriter =>
    rw [hwriter] at hwritten
    refine h.quiet _ (by simp) ?_ rfl hwritten
    rw [hwriter]
    rfl
  | finish hwriter hqueue hclosed =>
    rw [hwriter] at hwritten
    refine h.quiet _ (by simp) ?_ rfl hwritten
    rw [hwriter]
    rfl
  | signal hwriter =>
    rw [hwriter] at hwritten
    refine h.quiet _ (by simp) ?_ rfl hwritten
    rw [hwriter]
    rfl
  | flush => exact h.quiet _ (by simp) rfl rfl hwritten
  | @take call hfree hcall =>
    rcases take_cases hclosing.halves call with ⟨-, htake⟩ | ⟨-, htake⟩
    · rw [htake]
      exact h.quiet _ (by simp) rfl rfl hwritten
    · rw [htake]
      exact h.quiet _ (by simp) rfl rfl hwritten
  | dropSender hcall => exact h.quiet _ (by simp) rfl rfl hwritten
  | receiveSignal hcall hsignal => exact h.quiet _ (by simp) rfl rfl hwritten
  | passDeadline hcall => exact h.quiet _ (by simp) rfl rfl hwritten
  | readWritten hcall => exact h.quiet _ (by simp) rfl rfl hwritten

-- ---------------------------------------------------------------------------
-- Runs
-- ---------------------------------------------------------------------------

/-- What every run keeps. -/
structure Kept (history : List (Entry Log Action Event)) (s : Log) : Prop where
  counts : Counts s
  closing : Closing s
  draining : Draining s
  ledger : Ledger history s

theorem run_kept {history : List (Entry Log Action Event)} {s : Log}
    (run : gatewayLog.Run history s) : Kept history s := by
  refine run.history_induction (fun s hstart => ?_) fun history s action event s' _ hkept hstep => ?_
  · have heq : s = .opened := hstart
    rw [heq]
    exact ⟨opened_counts, opened_closing, opened_draining, opened_ledger⟩
  · exact ⟨step_counts hkept.counts hstep, step_closing hkept.counts hkept.closing hstep,
      step_draining hkept.closing hkept.draining hstep,
      step_ledger hkept.closing hkept.ledger hstep⟩

/-- The calls whose record has not been accepted, and was not counted as dropped. -/
def undecided (writes : List WriteCall) : Nat :=
  writes.countP fun w => !decide (w = .counting) && !decide (w = .returned)

theorem pending_eq (writes : List WriteCall) : pending writes = holding writes + undecided writes := by
  unfold pending holding undecided
  induction writes with
  | nil => rfl
  | cons w writes ih =>
    rw [List.countP_cons, List.countP_cons, List.countP_cons, ih]
    cases w with
    | calling line => simp; omega
    | counting => simp; omega
    | refused reason => simp; omega
    | returned => simp

/-- Once a flush is past the lock nothing is accepted. -/
theorem step_closed {s s' : Log} {action : Action} {event : Event} (hclosing : Closing s)
    {f : FlushCall} (hf : f ∈ s.flushes) (hpast : f ≠ .calling)
    (hstep : Step s action event s') :
    (∀ line, event ≠ .accepted line) ∧ s'.queue <:+ s.queue := by
  have hclosed := hclosing.closed hf hpast
  cases hstep with
  | write => exact ⟨by simp, List.suffix_refl _⟩
  | @send call line hfree hcall =>
    rcases send_cases s call line with ⟨reason, hsend⟩ | ⟨hrecords, -, -⟩
    · rw [hsend]
      exact ⟨by simp, List.suffix_refl _⟩
    · rw [hclosed] at hrecords
      cases hrecords
  | countQueued hcall => exact ⟨by simp, List.suffix_refl _⟩
  | recordDrop hcall => exact ⟨by simp, List.suffix_refl _⟩
  | @receive line queue hwriter hqueue =>
    refine ⟨by simp, ?_⟩
    rw [hqueue]
    exact List.suffix_cons line queue
  | append hwriter => exact ⟨by simp, List.suffix_refl _⟩
  | countWritten hwriter => exact ⟨by simp, List.suffix_refl _⟩
  | finish hwriter hqueue hsender => exact ⟨by simp, List.suffix_refl _⟩
  | signal hwriter => exact ⟨by simp, List.suffix_refl _⟩
  | flush => exact ⟨by simp, List.suffix_refl _⟩
  | @take call hfree hcall =>
    rcases take_cases hclosing.halves call with ⟨-, htake⟩ | ⟨-, htake⟩
    · rw [htake]
      exact ⟨by simp, List.suffix_refl _⟩
    · rw [htake]
      exact ⟨by simp, List.suffix_refl _⟩
  | dropSender hcall => exact ⟨by simp, List.suffix_refl _⟩
  | receiveSignal hcall hsignal => exact ⟨by simp, List.suffix_refl _⟩
  | passDeadline hcall => exact ⟨by simp, List.suffix_refl _⟩
  | readWritten hcall => exact ⟨by simp, List.suffix_refl _⟩

/-- Only a flush that read the first counter at its deadline reports a time-out. -/
theorem step_timedOut {s s' : Log} {action : Action} {event : Event} (hclosing : Closing s)
    (hstep : Step s action event s') {pendingAtDeadline : Nat}
    (hevent : event = .flushed (.TimedOut pendingAtDeadline)) :
    ∃ queued, .reading queued ∈ s.flushes ∧ pendingAtDeadline = queued - s.writtenRecords := by
  cases hstep with
  | @send call line hfree hcall =>
    rcases send_cases s call line with ⟨reason, hsend⟩ | ⟨-, -, hsend⟩
    · rw [hsend] at hevent
      cases hevent
    · rw [hsend] at hevent
      cases hevent
  | @take call hfree hcall =>
    rcases take_cases hclosing.halves call with ⟨-, htake⟩ | ⟨-, htake⟩
    · rw [htake] at hevent
      cases hevent
    · rw [htake] at hevent
      cases hevent
  | @readWritten call queued hcall =>
    have hreport := LogFlush.TimedOut.inj (Event.flushed.inj hevent)
    exact ⟨queued, List.mem_of_getElem? hcall, hreport.symm⟩
  | write => cases hevent
  | countQueued => cases hevent
  | recordDrop => cases hevent
  | receive => cases hevent
  | append => cases hevent
  | countWritten => cases hevent
  | finish => cases hevent
  | signal => cases hevent
  | flush => cases hevent
  | dropSender => cases hevent
  | receiveSignal => cases hevent
  | passDeadline => cases hevent

/-- What a flush that passed its deadline reports is what the thread has not finished. -/
theorem timedOut_pending {history : List (Entry Log Action Event)} {s s' : Log} {action : Action}
    {pendingAtDeadline : Nat} (hkept : Kept history s)
    (hstep : Step s action (.flushed (.TimedOut pendingAtDeadline)) s') :
    pendingAtDeadline = s.queue.length + s.writer.busy ∧
      (accepted history).length = s.writtenRecords + pendingAtDeadline := by
  obtain ⟨queued, hmem, rfl⟩ := step_timedOut hkept.closing hstep rfl
  -- the flush has the halves: no call of `write` holds the lock
  obtain rfl := hkept.closing.reading _ hmem queued rfl
  have hclosed := hkept.closing.closed hmem (by simp)
  have hlocked := hkept.counts.locked_eq
  rw [hkept.closing.unlocked hclosed, if_neg (by simp)] at hlocked
  have hsent := hkept.ledger.sent
  rw [hlocked, Nat.add_zero] at hsent
  have hlength := congrArg List.length hkept.ledger.order
  rw [List.length_append, List.length_append] at hlength
  have hwritten := hkept.ledger.written
  have hbusy : (if s.writer = .counting then 1 else 0) + s.writer.inHand.length = s.writer.busy := by
    cases s.writer with
    | receiving => rfl
    | writing line => rfl
    | counting => rfl
    | finished => rfl
    | exited => rfl
  omega

/-- **The gateway log.** In every run, the records accepted are those in the file, the
one in the thread's hand and those in the channel, in the order they were accepted. When
a flush is past the lock, exactly one has the halves or returned `Drained` or `TimedOut`,
and nothing is accepted any more. After `Drained` the file is all that was accepted. Every
call of `write` had its record accepted, or counted as dropped, or is still at it. And a
flush that timed out reported the records the thread had not finished then. -/
theorem gateway_log {history : List (Entry Log Action Event)} {s : Log}
    (run : gatewayLog.Run history s) :
    accepted history = s.file ++ s.writer.inHand ++ s.queue ∧
    ((∃ f ∈ s.flushes, f ≠ .calling) →
      s.flushes.countP (fun f => !decide (f = .calling) && !decide (f = .returned .AlreadyStopped)) = 1 ∧
      ∀ action event s', Step s action event s' →
        (∀ line, event ≠ .accepted line) ∧ s'.queue <:+ s.queue) ∧
    (.returned .Drained ∈ s.flushes → s.file = accepted history) ∧
    (accepted history).length + s.droppedRecords + undecided s.writes = s.writes.length ∧
    ∀ front entry back, history = front ++ entry :: back → ∀ pendingAtDeadline,
      entry.result = .flushed (.TimedOut pendingAtDeadline) →
        pendingAtDeadline = entry.before.queue.length + entry.before.writer.busy ∧
          (accepted front).length = entry.before.writtenRecords + pendingAtDeadline := by
  have hkept := run_kept run
  refine ⟨hkept.ledger.order, ?_, ?_, ?_, ?_⟩
  · rintro ⟨f, hf, hpast⟩
    have howner := hkept.closing.owner
    rw [hkept.closing.closed hf hpast, if_neg (by simp)] at howner
    exact ⟨howner, fun action event s' hstep => step_closed hkept.closing hf hpast hstep⟩
  · intro hdrained
    have hexited := hkept.draining.drained hdrained
    have hqueue := (hkept.draining.gone (by rw [hexited]; rfl)).1
    have horder := hkept.ledger.order
    rw [hexited, hqueue] at horder
    simpa [Writer.inHand] using horder.symm
  · have hsent := hkept.ledger.sent
    have hcounted := hkept.counts.counted
    rw [pending_eq] at hcounted
    omega
  · intro front entry back hcut pendingAtDeadline hresult
    obtain ⟨hfront, hstep⟩ := run.split hcut
    rw [hresult] at hstep
    exact timedOut_pending (run_kept hfront) hstep

/-- One record accepted, and a flush past its deadline before the thread took it. -/
theorem gateway_log_timedOut : ∃ history s, gatewayLog.Run history s ∧
    accepted history = [['r']] ∧ .returned (.TimedOut 1) ∈ s.flushes ∧
    s.flushes.countP (fun f => !decide (f = .calling) && !decide (f = .returned .AlreadyStopped)) = 1 := by
  have hrun : ∃ history s, gatewayLog.Run history s ∧ accepted history = [['r']] ∧
      s.flushes = [.returned (.TimedOut 1)] :=
    ⟨_, _, .snoc (.snoc (.snoc (.snoc (.snoc (.snoc (.snoc (.snoc (.nil rfl)
      (@Step.write _ ['r']))
      (@Step.send _ 0 ['r'] rfl rfl))
      (@Step.countQueued _ 0 rfl))
      Step.flush)
      (@Step.take _ 0 rfl rfl))
      (@Step.dropSender _ 0 rfl))
      (@Step.passDeadline _ 0 rfl))
      (@Step.readWritten _ 0 1 rfl), rfl, rfl⟩
  obtain ⟨history, s, run, haccepted, hflushes⟩ := hrun
  have hmem : FlushCall.returned (.TimedOut 1) ∈ s.flushes := by
    rw [hflushes]
    exact List.mem_singleton.mpr rfl
  exact ⟨history, s, run, haccepted, hmem, ((gateway_log run).2.1 ⟨_, hmem, by simp⟩).1⟩

end CamelidEnterprise.GatewayLog
