import Mathlib.Algebra.Ring.Nat
import CamelidEnterprise.Foundation.Fairness

/-!
# Camelid Enterprise — the generation worker pool

`crates/server/src/in_tree/worker.rs`: a bounded queue behind a lock, a condition
variable, and `slots` threads that take jobs from the queue and run them. What a
thread does while it holds the lock is one step of the pool, and so is everything
it does that others can see: `notify_one`, the end of a job, the decrement of the
depth counter, each part of dropping a handle. Any thread may take the next step.

A job is numbered when it is offered (`posted`), so that two offers are two jobs
whatever they contain. It ends with the value it computed or with a panic, and
tells the caller of `run` through a channel that belongs to it.

What is assumed, and where the representation is coarser than the source:

* a thread may wake without a notification, and a notification wakes any thread that
  waits;
* a poisoned lock is taken all the same, so that poisoning does not show;
* what a job computes is any value, after any number of steps of the others.
-/

namespace CamelidEnterprise.Worker

open Foundation

/-- `QUEUE_DEPTH` -/
def queueDepth : Nat := 8

/-- `PostError` -/
inductive PostError
  | Full
  | Unavailable
deriving DecidableEq, Repr

/-- A thread of the pool: on its way to the queue's lock, asleep in
`admitted.wait`, inside a job, between the end of a job and `depth.fetch_sub`, or
returned. -/
inductive Thread
  | ready
  | waiting
  | running (job : Nat)
  | finished (job : Nat)
  | exited
deriving DecidableEq, Repr

/-- The channel of a job: nothing yet, the value the job sent, or dropped unsent
by a panic. -/
inductive Channel (T : Type)
  | empty
  | sent (value : T)
  | dropped
deriving DecidableEq, Repr

/-- A public handle: alive, or at a point of its `drop`. -/
inductive Handle
  | alive
  /-- it read a count of one and is to close the queue -/
  | closing
  /-- it closed the queue and is to wake the threads -/
  | notifying
  /-- its `drop` returned and its count is to be released -/
  | releasing
deriving DecidableEq, Repr

/-- The pool: `queue.jobs` and `queue.open`, the depth counter, the threads, the
calls of `post` that have put a job in and are to call `notify_one`, the handles,
the number of jobs offered so far, and the channels of the jobs. -/
structure Pool (T : Type) where
  jobs : List Nat
  isOpen : Bool
  depth : Nat
  threads : List Thread
  notifications : Nat
  handles : List Handle
  posted : Nat
  channels : Nat → Channel T

/-- What can happen next. -/
inductive Action (T : Type)
  /-- a caller offers a job, and wakes a thread when it was accepted -/
  | post
  | notifyOne
  /-- a sleeping thread wakes without having been notified -/
  | wake (thread : Nat)
  /-- a thread gets the lock and looks at the queue -/
  | turn (thread : Nat)
  /-- the job of a thread returns, or panics -/
  | complete (thread : Nat) (value : T)
  | unwind (thread : Nat)
  /-- a thread takes the job it finished off the counter -/
  | decrement (thread : Nat)
  /-- the caller of `run` reads its channel -/
  | receive (job : Nat)
  | cloneHandle
  /-- the four parts of dropping a handle -/
  | readCount (handle : Nat)
  | close (handle : Nat)
  | notifyAll (handle : Nat)
  | release (handle : Nat)
  /-- nothing happens -/
  | idle

/-- What a step shows. -/
inductive Event (T : Type)
  | silent
  | accepted (job : Nat)
  | refused (job : Nat) (error : PostError)
  | started (job : Nat)
  | ended (job : Nat) (value : Option T)
  | received (job : Nat) (result : Except PostError T)

variable {T : Type}

/-- `spawn`, with one handle. -/
def spawn (T : Type) (slots : Nat) : Pool T where
  jobs := []
  isOpen := true
  depth := 0
  threads := List.replicate (max slots 1) .ready
  notifications := 0
  handles := [.alive]
  posted := 0
  channels := fun _ => .empty

/-- `post` up to the release of the lock. -/
def Pool.post (s : Pool T) : Event T × Pool T :=
  if s.isOpen = false then
    (.refused s.posted .Unavailable, { s with posted := s.posted + 1 })
  else if queueDepth ≤ s.jobs.length then
    (.refused s.posted .Full, { s with posted := s.posted + 1 })
  else
    (.accepted s.posted,
      { s with
        jobs := s.jobs ++ [s.posted]
        depth := s.depth + 1
        notifications := s.notifications + 1
        posted := s.posted + 1 })

/-- A thread with the lock: it takes the first job, returns from a closed queue, or
goes to sleep. -/
def Pool.turn (s : Pool T) (thread : Nat) : Event T × Pool T :=
  match s.jobs with
  | job :: rest =>
    (.started job, { s with jobs := rest, threads := s.threads.set thread (.running job) })
  | [] =>
    if s.isOpen = false then (.silent, { s with threads := s.threads.set thread .exited })
    else (.silent, { s with threads := s.threads.set thread .waiting })

/-- The end of a job. `value` is what it sent; a panic drops the channel unsent. -/
def Pool.endJob (s : Pool T) (thread job : Nat) (value : Option T) : Pool T :=
  { s with
    threads := s.threads.set thread (.finished job)
    channels := Function.update s.channels job (match value with
      | some value => .sent value
      | none => .dropped) }

/-- `depth.fetch_sub(1)`, which wraps. -/
def fetchSub (depth : Nat) : Nat := if depth = 0 then 2 ^ 64 - 1 else depth - 1

/-- What the caller of `run` gets from its channel once the job is through. -/
def Channel.receive : Channel T → Option (Except PostError T)
  | .empty => none
  | .sent value => some (.ok value)
  | .dropped => some (.error .Unavailable)

/-- A sleeping thread that was woken goes for the lock again. -/
def Thread.awake : Thread → Thread
  | .waiting => .ready
  | thread => thread

/-- The steps of the pool. -/
inductive Step : Pool T → Action T → Event T → Pool T → Prop
  | post {s : Pool T} (halive : .alive ∈ s.handles) : Step s .post s.post.1 s.post.2
  | notifyOne {s : Pool T} {thread : Nat} (hpending : 0 < s.notifications)
      (hwaiting : s.threads[thread]? = some .waiting) :
      Step s .notifyOne .silent
        { s with notifications := s.notifications - 1, threads := s.threads.set thread .ready }
  | notifyNobody {s : Pool T} (hpending : 0 < s.notifications) (hnobody : .waiting ∉ s.threads) :
      Step s .notifyOne .silent { s with notifications := s.notifications - 1 }
  | wake {s : Pool T} {thread : Nat} (hwaiting : s.threads[thread]? = some .waiting) :
      Step s (.wake thread) .silent { s with threads := s.threads.set thread .ready }
  | turn {s : Pool T} {thread : Nat} (hready : s.threads[thread]? = some .ready) :
      Step s (.turn thread) (s.turn thread).1 (s.turn thread).2
  | complete {s : Pool T} {thread job : Nat} {value : T}
      (hrunning : s.threads[thread]? = some (.running job)) :
      Step s (.complete thread value) (.ended job (some value)) (s.endJob thread job (some value))
  | unwind {s : Pool T} {thread job : Nat} (hrunning : s.threads[thread]? = some (.running job)) :
      Step s (.unwind thread) (.ended job none) (s.endJob thread job none)
  | decrement {s : Pool T} {thread job : Nat}
      (hfinished : s.threads[thread]? = some (.finished job)) :
      Step s (.decrement thread) .silent
        { s with depth := fetchSub s.depth, threads := s.threads.set thread .ready }
  | receive {s : Pool T} {job : Nat} {result : Except PostError T}
      (hthrough : (s.channels job).receive = some result) :
      Step s (.receive job) (.received job result) s
  | cloneHandle {s : Pool T} (halive : .alive ∈ s.handles) :
      Step s .cloneHandle .silent { s with handles := s.handles ++ [.alive] }
  | readShared {s : Pool T} {handle : Nat} (halive : s.handles[handle]? = some .alive)
      (hshared : 1 < s.handles.length) :
      Step s (.readCount handle) .silent { s with handles := s.handles.set handle .releasing }
  | readLast {s : Pool T} {handle : Nat} (halive : s.handles[handle]? = some .alive)
      (hlast : s.handles.length = 1) :
      Step s (.readCount handle) .silent { s with handles := s.handles.set handle .closing }
  | close {s : Pool T} {handle : Nat} (hclosing : s.handles[handle]? = some .closing) :
      Step s (.close handle) .silent
        { s with isOpen := false, handles := s.handles.set handle .notifying }
  | notifyAll {s : Pool T} {handle : Nat} (hnotifying : s.handles[handle]? = some .notifying) :
      Step s (.notifyAll handle) .silent
        { s with
          threads := s.threads.map Thread.awake
          handles := s.handles.set handle .releasing }
  | release {s : Pool T} {handle : Nat} (hreleasing : s.handles[handle]? = some .releasing) :
      Step s (.release handle) .silent { s with handles := s.handles.eraseIdx handle }
  | idle {s : Pool T} : Step s .idle .silent s

/-- A pool of this width and everyone who uses it. -/
def pool (T : Type) (slots : Nat) : Machine (Pool T) (Action T) (Event T) where
  start s := s = spawn T slots
  step := Step

end CamelidEnterprise.Worker
