import CamelidEnterprise.Engine.Error
import CamelidEnterprise.Foundation.Machine

/-!
# Camelid Enterprise — the gateway log

`GatewayLog` of `crates/gateway/src/lib.rs`: calls of `write` put records into a
bounded channel, a thread takes them out and appends them to a file, and calls of
`flush_and_stop` close the channel and wait for the thread, with a deadline.

The parties are the calls and the thread, and any of them may take the next step. A
step is what one of them does at once as far as the others can tell: a call holds the
lock of the channel's two halves from `try_send` until it has counted the record, and
a flush takes both halves in one step. Appending to the file does not fail. A wait may
end at its deadline at any time, also when the signal has just come.
-/

namespace CamelidEnterprise.GatewayLog

open Foundation

/-- `MAX_PENDING_LOG_RECORDS` -/
def maxPendingLogRecords : Nat := 1024

/-- `LogFlush` -/
inductive LogFlush
  | Drained
  | TimedOut (pendingAtDeadline : Nat)
  | AlreadyStopped
deriving DecidableEq, Repr

/-- A call of `write`: before the lock, with the lock and its record in the channel, on
its way to `record_drop`, or over. -/
inductive WriteCall
  | calling (line : Str)
  | counting
  | refused (reason : String)
  | returned
deriving DecidableEq, Repr

/-- A call of `flush_and_stop`: before the lock, with both halves in hand, waiting for the
signal, past the deadline with `queued_records` read, or over. -/
inductive FlushCall
  | calling
  | taken
  | awaiting
  | reading (queued : Nat)
  | returned (result : LogFlush)
deriving DecidableEq, Repr

/-- The thread in `write_jsonl_records`: before `recv`, with a record, with a record it
has written and not counted, out of its loop, or past its signal. -/
inductive Writer
  | receiving
  | writing (line : Str)
  | counting
  | finished
  | exited
deriving DecidableEq, Repr

/-- The log and its parties: whether each half of the channel is there, the lock, whether
the sender was dropped, the records in the channel, the three counters, the thread, what
it has appended, its signal, and the calls. -/
structure Log where
  records : Bool
  writerStopped : Bool
  locked : Bool
  senderDropped : Bool
  queue : List Str
  queuedRecords : Nat
  writtenRecords : Nat
  droppedRecords : Nat
  writer : Writer
  file : List Str
  signalled : Bool
  writes : List WriteCall
  flushes : List FlushCall

/-- `open` -/
def Log.opened : Log where
  records := true
  writerStopped := true
  locked := false
  senderDropped := false
  queue := []
  queuedRecords := 0
  writtenRecords := 0
  droppedRecords := 0
  writer := .receiving
  file := []
  signalled := false
  writes := []
  flushes := []

/-- The thread has dropped its end of the channel. -/
def Writer.gone : Writer → Bool
  | .finished => true
  | .exited => true
  | _ => false

/-- Why a record is not accepted, if it is not. -/
def Log.refusal (s : Log) : Option String :=
  if s.records = false then some "log is shutting down"
  else if s.writer.gone then some "writer thread stopped"
  else if maxPendingLogRecords ≤ s.queue.length then some "writer queue is full"
  else none

/-- What can happen next. -/
inductive Action
  /-- a call of `write` begins, takes the lock, counts what it sent, counts a drop -/
  | write (line : Str)
  | send (call : Nat)
  | countQueued (call : Nat)
  | recordDrop (call : Nat)
  /-- the thread takes a record, appends it, counts it, leaves its loop, signals -/
  | receive
  | append
  | countWritten
  | finish
  | signal
  /-- a call of `flush_and_stop` begins, takes both halves, drops the sender, gets the
  signal or passes its deadline, and then reads the second counter -/
  | flush
  | take (call : Nat)
  | dropSender (call : Nat)
  | receiveSignal (call : Nat)
  | passDeadline (call : Nat)
  | readWritten (call : Nat)

/-- What a step shows. -/
inductive Event
  | silent
  | accepted (line : Str)
  | dropped (reason : String)
  | flushed (result : LogFlush)
deriving DecidableEq, Repr

/-- A call of `write` with the lock: the record goes into the channel, or not. -/
def Log.send (s : Log) (call : Nat) (line : Str) : Event × Log :=
  match s.refusal with
  | some reason => (.silent, { s with writes := s.writes.set call (.refused reason) })
  | none =>
    (.accepted line,
      { s with
        locked := true
        queue := s.queue ++ [line]
        writes := s.writes.set call .counting })

/-- A call of `flush_and_stop` with the lock. A half it finds without the other goes. -/
def Log.take (s : Log) (call : Nat) : Event × Log :=
  if s.records = true ∧ s.writerStopped = true then
    (.silent,
      { s with
        records := false
        writerStopped := false
        flushes := s.flushes.set call .taken })
  else
    (.flushed .AlreadyStopped,
      { s with
        records := false
        writerStopped := false
        senderDropped := s.senderDropped || s.records
        flushes := s.flushes.set call (.returned .AlreadyStopped) })

/-- The steps of the log. -/
inductive Step : Log → Action → Event → Log → Prop
  | write {s : Log} {line : Str} :
      Step s (.write line) .silent { s with writes := s.writes ++ [.calling line] }
  | send {s : Log} {call : Nat} {line : Str} (hfree : s.locked = false)
      (hcall : s.writes[call]? = some (.calling line)) :
      Step s (.send call) (s.send call line).1 (s.send call line).2
  | countQueued {s : Log} {call : Nat} (hcall : s.writes[call]? = some .counting) :
      Step s (.countQueued call) .silent
        { s with
          locked := false
          queuedRecords := s.queuedRecords + 1
          writes := s.writes.set call .returned }
  | recordDrop {s : Log} {call : Nat} {reason : String}
      (hcall : s.writes[call]? = some (.refused reason)) :
      Step s (.recordDrop call) (.dropped reason)
        { s with
          droppedRecords := s.droppedRecords + 1
          writes := s.writes.set call .returned }
  | receive {s : Log} {line : Str} {queue : List Str} (hwriter : s.writer = .receiving)
      (hqueue : s.queue = line :: queue) :
      Step s .receive .silent { s with queue, writer := .writing line }
  | append {s : Log} {line : Str} (hwriter : s.writer = .writing line) :
      Step s .append .silent { s with file := s.file ++ [line], writer := .counting }
  | countWritten {s : Log} (hwriter : s.writer = .counting) :
      Step s .countWritten .silent
        { s with writtenRecords := s.writtenRecords + 1, writer := .receiving }
  | finish {s : Log} (hwriter : s.writer = .receiving) (hqueue : s.queue = [])
      (hclosed : s.senderDropped = true) : Step s .finish .silent { s with writer := .finished }
  | signal {s : Log} (hwriter : s.writer = .finished) :
      -- nobody reads it after a time-out
      Step s .signal .silent { s with writer := .exited, signalled := true }
  | flush {s : Log} : Step s .flush .silent { s with flushes := s.flushes ++ [.calling] }
  | take {s : Log} {call : Nat} (hfree : s.locked = false)
      (hcall : s.flushes[call]? = some .calling) :
      Step s (.take call) (s.take call).1 (s.take call).2
  | dropSender {s : Log} {call : Nat} (hcall : s.flushes[call]? = some .taken) :
      Step s (.dropSender call) .silent
        { s with senderDropped := true, flushes := s.flushes.set call .awaiting }
  | receiveSignal {s : Log} {call : Nat} (hcall : s.flushes[call]? = some .awaiting)
      (hsignal : s.signalled = true) :
      Step s (.receiveSignal call) (.flushed .Drained)
        { s with signalled := false, flushes := s.flushes.set call (.returned .Drained) }
  | passDeadline {s : Log} {call : Nat} (hcall : s.flushes[call]? = some .awaiting) :
      Step s (.passDeadline call) .silent
        { s with flushes := s.flushes.set call (.reading s.queuedRecords) }
  | readWritten {s : Log} {call queued : Nat} (hcall : s.flushes[call]? = some (.reading queued)) :
      Step s (.readWritten call) (.flushed (.TimedOut (queued - s.writtenRecords)))
        { s with
          flushes := s.flushes.set call (.returned (.TimedOut (queued - s.writtenRecords))) }

/-- A log from its opening on. -/
def gatewayLog : Machine Log Action Event where
  start s := s = .opened
  step := Step

/-- The records of a history that were accepted, in the order they were. -/
def accepted (history : List (Entry Log Action Event)) : List Str :=
  history.filterMap fun entry =>
    match entry.result with
    | .accepted line => some line
    | _ => none

end CamelidEnterprise.GatewayLog
