import CamelidEnterprise.Foundation.Fairness
import CamelidEnterprise.Server.StreamRun

/-!
# Camelid Enterprise — streaming equals blocking

A blocking call that agrees with the incremental one (`Agrees`) fixes what a stream
says: `full_of_agrees` reads the transcript off it. What is left is what the job does
about a client that goes away (`run_told`, `released`), and that neither side waits
for the other for ever (`settles`).

`stream_run` collects what a client can rely on.
-/

namespace CamelidEnterprise.Server

open Foundation Foundation.Machine

-- ---------------------------------------------------------------------------
-- The transcript
-- ---------------------------------------------------------------------------

/-- The incremental call, never told to cancel, ends as the blocking call does, and
its texts make up the completion's. -/
def Agrees (blocking : EngineResult Completion) (call : Generation) : Prop :=
  match call.uncancelled.2 with
  | .ok (.Completed completion) =>
    blocking = .ok completion ∧ call.uncancelled.1.flatten = completion.text
  | .ok .Cancelled => False
  | .err error => blocking = .err error
  | .fault _ => ∃ kind, blocking = .fault kind

/-- The two calls of a backend agree on every input. -/
def CompletionBackend.Agrees (backend : CompletionBackend) : Prop :=
  ∀ input maxNewTokens,
    Server.Agrees (backend.blocking input maxNewTokens) (backend.incremental input maxNewTokens)

/-- A role for a chat, the deltas, one terminal event and `[DONE]`. -/
def StreamInfo.transcript (info : StreamInfo) (texts : List Str) (terminal : SseEvent) :
    List SseEvent :=
  (if info.chat then [info.role] else []) ++ texts.map info.delta ++ [terminal, .done]

/-- The deltas and the terminal event say what the blocking response says: its text
and finish reason, its error, or that the job did not live to say anything. -/
def Says (info : StreamInfo) (blocking : EngineResult Completion) (texts : List Str)
    (terminal : SseEvent) : Prop :=
  match blocking with
  | .ok _ => ∃ choice, blockingResponse blocking = .ok choice ∧
      texts.flatten = choice.text ∧ terminal = info.finish choice.finishReason
  | .err _ => ∃ error, blockingResponse blocking = .error error ∧
      terminal = .error error.code error.message
  | .fault _ => terminal = workerFailed

theorem engineErrorParts_eq (error : EngineError) :
    engineErrorParts error = ((engineError error).code, (engineError error).message) := by
  cases error with
  | _ => rfl

/-- The deltas come first. -/
theorem render_deltas (info : StreamInfo) (texts : List Str) (rest : List StreamGenerationEvent) :
    info.render (texts.map .Delta ++ rest) = texts.map info.delta ++ info.render rest := by
  induction texts with
  | nil => rfl
  | cons text texts ih =>
    show info.delta text :: info.render (texts.map .Delta ++ rest) = _
    rw [ih]
    rfl

theorem full_eq (info : StreamInfo) (call : Generation) {terminal : SseEvent}
    (hlast : info.render (lastEvent call.uncancelled.2).toList = [terminal, .done]) :
    info.full call = info.transcript (nonEmpty call.uncancelled.1) terminal := by
  show (if info.chat then [info.role] else []) ++ info.render call.script = _
  rw [script_eq, render_deltas, hlast]
  simp [StreamInfo.transcript]

/-- A stream says what the blocking call says. -/
theorem full_of_agrees (info : StreamInfo) {blocking : EngineResult Completion} {call : Generation}
    (hagree : Agrees blocking call) : ∃ texts terminal,
      (∀ text ∈ texts, text ≠ []) ∧ Says info blocking texts terminal ∧
      info.full call = info.transcript texts terminal := by
  have hnonEmpty : ∀ text ∈ nonEmpty call.uncancelled.1, text ≠ [] := by
    intro text htext
    simpa using (List.mem_filter.mp htext).2
  have hfull : ∀ terminal, info.render (lastEvent call.uncancelled.2).toList = [terminal, .done] →
      info.full call = info.transcript (nonEmpty call.uncancelled.1) terminal :=
    fun _ hlast => full_eq info call hlast
  unfold Agrees at hagree
  cases hresult : call.uncancelled.2 with
  | ok generation =>
    rw [hresult] at hagree hfull
    cases generation with
    | Completed completion =>
      obtain ⟨rfl, htext⟩ := hagree
      refine ⟨_, info.finish (finishReasonText completion.finishReason), hnonEmpty, ?_, hfull _ rfl⟩
      exact ⟨_, rfl, by rw [flatten_nonEmpty]; exact htext, rfl⟩
    | Cancelled => exact absurd hagree id
  | err error =>
    rw [hresult] at hagree hfull
    obtain rfl := hagree
    refine ⟨_, .error (engineErrorParts error).1 (engineErrorParts error).2, hnonEmpty, ?_,
      hfull _ rfl⟩
    exact ⟨_, rfl, by rw [engineErrorParts_eq]⟩
  | fault kind =>
    rw [hresult] at hagree hfull
    obtain ⟨kind', rfl⟩ := hagree
    exact ⟨_, workerFailed, hnonEmpty, rfl, hfull _ rfl⟩

-- ---------------------------------------------------------------------------
-- A client that goes away
-- ---------------------------------------------------------------------------

/-- The backend waits for the answer of `on_token`. -/
def Producer.asking : Producer → Prop
  | .calling (.token _ _) => True
  | .sending _ _ => True
  | _ => False

/-- Once the client is gone every answer is `Cancel`, and before that none is. -/
structure Cancels (h : History) : Prop where
  gone : ∀ e ∈ h, e.before.body = .dropped → e.action = .produce → e.before.producer.asking →
    e.result = .told .Cancel
  answers : ∀ e ∈ h, ∀ control, e.result = .told control →
    (control = .Cancel ↔ e.before.body = .dropped)

/-- What one step answers. -/
theorem Produced.told {s s' : Stream} {event : Event} (h : Produced s event s') :
    (s.body = .dropped → s.producer.asking → event = .told .Cancel) ∧
    ∀ control, event = .told control → (control = .Cancel ↔ s.body = .dropped) := by
  cases h with
  | begin hproducer hopen => exact ⟨fun hgone => absurd hgone hopen, by simp⟩
  | skip hproducer hgone => simp [hproducer, Producer.asking]
  | silentToken hproducer hopen htext => simp [hopen]
  | offer hproducer hopen htext => exact ⟨fun hgone => absurd hgone hopen, by simp⟩
  | cancelToken hproducer hgone => simp [hgone]
  | returnLast hproducer hlast => simp [hproducer, Producer.asking]
  | returnNothing hproducer hlast => simp [hproducer, Producer.asking]
  | send hproducer hopen hroom => simp [hopen]
  | cancelSend hproducer hgone => simp [hgone]
  | sendLast hproducer hopen hroom => simp [hproducer, Producer.asking]
  | forgetLast hproducer hgone => simp [hproducer, Producer.asking]

/-- A poll answers no token. -/
theorem poll_silent {s s' : Stream} {event : Event} (hstep : s.poll = some (event, s'))
    (control : GenerationControl) : event ≠ .told control := by
  rintro rfl
  unfold Stream.poll at hstep
  split at hstep
  · split at hstep
    · cases hstep
    · cases hstep
  · split at hstep
    · cases hstep
    · cases hstep
    · cases hstep
    · split at hstep
      · cases hstep
      · cases hstep
  · cases hstep
  · cases hstep
  · cases hstep

theorem run_told {info : StreamInfo} {call : Generation} {h : History} {s : Stream}
    (run : (stream info call).Run h s) : Cancels h := by
  have hsteps : ∀ e ∈ h, Step e.before e.action e.result e.after := fun e he => run.step_of_mem he
  refine ⟨fun e he hgone haction hasking => ?_, fun e he control htold => ?_⟩
  · have hstep := hsteps e he
    rw [haction] at hstep
    cases hstep with
    | produce hproduce => exact (produce_cases hproduce).told.1 hgone hasking
  · have hstep := hsteps e he
    rw [htold] at hstep
    generalize e.action = action at hstep
    cases hstep with
    | produce hproduce => exact (produce_cases hproduce).told.2 control rfl
    | poll hpoll => exact absurd rfl (poll_silent hpoll control)

-- ---------------------------------------------------------------------------
-- Both sides come to an end
-- ---------------------------------------------------------------------------

/-- Neither the job nor a reader that can go on is held back for ever. -/
structure Fair {info : StreamInfo} {call : Generation} (x : (stream info call).Execution) :
    Prop where
  produce : x.WeaklyFair (fun s => s.produce ≠ none) (· = .produce)
  poll : x.WeaklyFair (fun s => s.poll ≠ none) (· = .poll)

/-- How often a call can still ask. -/
def Generation.depth : Generation → Nat
  | .token _ next => max (next .Continue).depth (next .Cancel).depth + 1
  | .returned _ => 0

/-- More steps than the job can still take. -/
def Producer.work : Producer → Nat
  | .queued call => 2 * call.depth + 3
  | .calling call => 2 * call.depth + 2
  | .sending _ next => 2 * max (next .Continue).depth (next .Cancel).depth + 3
  | .ending _ => 1
  | .ended => 0

/-- A step of the job is one step less to take, and puts at most one event into the
channel. -/
theorem Produced.work_lt {s s' : Stream} {event : Event} (h : Produced s event s') :
    s'.producer.work < s.producer.work ∧ s'.buffer.length ≤ s.buffer.length + 1 := by
  cases h with
  | begin hproducer hopen => simp [hproducer, Producer.work]
  | skip hproducer hgone => simp [hproducer, Producer.work]
  | silentToken hproducer hopen htext =>
    simp only [hproducer, Producer.work, Generation.depth]
    omega
  | offer hproducer hopen htext =>
    simp only [hproducer, Producer.work, Generation.depth]
    omega
  | cancelToken hproducer hgone =>
    simp only [hproducer, Producer.work, Generation.depth]
    omega
  | returnLast hproducer hlast => simp [hproducer, Producer.work]
  | returnNothing hproducer hlast => simp [hproducer, Producer.work]
  | send hproducer hopen hroom =>
    simp only [hproducer, Producer.work, List.length_append, List.length_singleton]
    omega
  | cancelSend hproducer hgone =>
    simp only [hproducer, Producer.work]
    omega
  | sendLast hproducer hopen hroom => simp [hproducer, Producer.work]
  | forgetLast hproducer hgone => simp [hproducer, Producer.work]

/-- Only a full channel with a reader at its other end holds the job up. -/
theorem produce_possible {s : Stream} (hrunning : s.producer ≠ .ended)
    (hroom : s.body = .dropped ∨ s.buffer.length < eventBuffer) : s.produce ≠ none := by
  unfold Stream.produce
  split
  · split
    · simp
    · simp
  · split
    · simp
    · split
      · simp
      · simp
  · split
    · simp
    · simp
  · split
    · simp
    · rename_i hopen
      have hless : s.buffer.length < eventBuffer :=
        hroom.resolve_left fun hgone => hopen (decide_eq_true hgone)
      simp [hless]
  · split
    · simp
    · rename_i hopen
      have hless : s.buffer.length < eventBuffer :=
        hroom.resolve_left fun hgone => hopen (decide_eq_true hgone)
      simp [hless]
  · rename_i hended
    exact absurd hended hrunning

theorem step_dropped {s s' : Stream} {action : Action} {event : Event}
    (hstep : Step s action event s') (hgone : s.body = .dropped) :
    s'.body = .dropped ∧ s'.producer.work ≤ s.producer.work ∧
      (action = .produce → s'.producer.work < s.producer.work) := by
  cases hstep with
  | produce hproduce =>
    have hless := (produce_cases hproduce).work_lt.1
    refine ⟨?_, Nat.le_of_lt hless, fun _ => hless⟩
    rw [(produce_cases hproduce).frame.2.1]
    exact hgone
  | poll hpoll =>
    unfold Stream.poll at hpoll
    rw [hgone] at hpoll
    cases hpoll
  | drop => exact ⟨rfl, Nat.le_refl _, by simp⟩
  | idle => exact ⟨hgone, Nat.le_refl _, by simp⟩

/-- After the client has gone the job comes to its end, and its thread to the next. -/
theorem released {info : StreamInfo} {call : Generation} {x : (stream info call).Execution}
    (fair : Fair x) {n : Nat} (hgone : (x.state n).body = .dropped) :
    ∃ m, n ≤ m ∧ (x.state m).producer = .ended := by
  have hprogress : ∀ n, (x.state n).body = .dropped →
      ∃ m, n ≤ m ∧ ((x.state m).producer = .ended ∨ x.action m = .produce) := by
    intro n hgone
    by_contra hnever
    have hrunning : ∀ m, n ≤ m → (x.state m).producer ≠ .ended :=
      fun m hm hended => hnever ⟨m, hm, Or.inl hended⟩
    have hstays : ∀ m, n ≤ m → (x.state m).body = .dropped := by
      intro m hm
      induction m, hm using Nat.le_induction with
      | base => exact hgone
      | succ m hm ih => exact (step_dropped (x.step m) ih).1
    obtain ⟨m, hm, htaken⟩ := fair.produce n fun m hm =>
      produce_possible (hrunning m hm) (Or.inl (hstays m hm))
    exact hnever ⟨m, hm, Or.inr htaken⟩
  have hstep : ∀ s action event s', (stream info call).step s action event s' →
      s.body = .dropped → s.producer = .ended ∨
        (s'.body = .dropped ∧ s'.producer.work ≤ s.producer.work ∧
          (action = .produce → s'.producer.work < s.producer.work)) :=
    fun s action event s' hstep hgone => Or.inr (step_dropped hstep hgone)
  exact x.eventually_of_variant (P := fun s => s.body = .dropped)
    (Q := fun s => s.producer = .ended) hprogress hstep n hgone

/-- How far the body is from its end. -/
def Body.rank : Body → Nat
  | .start => 3
  | .reading => 2
  | .closing => 1
  | .finished => 0
  | .dropped => 0

/-- The body has nothing more to yield. -/
def Stream.settled (s : Stream) : Prop := s.body = .finished ∨ s.body = .dropped

/-- More steps than the two sides can still take. -/
def Stream.work (s : Stream) : Nat := 2 * s.producer.work + s.buffer.length + s.body.rank

theorem poll_work_lt {s s' : Stream} {event : Event} (hstep : s.poll = some (event, s')) :
    s'.work < s.work := by
  obtain ⟨info, producer, buffer, body⟩ := s
  unfold Stream.poll at hstep
  split at hstep
  · rename_i hbody
    subst hbody
    split at hstep
    · cases hstep
      simp [Stream.work, Body.rank]
    · cases hstep
      simp [Stream.work, Body.rank]
  · rename_i hbody
    subst hbody
    split at hstep
    · rename_i text rest hbuffer
      subst hbuffer
      cases hstep
      simp [Stream.work, Body.rank]
    · rename_i finishReason rest hbuffer
      subst hbuffer
      cases hstep
      simp only [Stream.work, Body.rank, List.length_cons]
      omega
    · rename_i code message rest hbuffer
      subst hbuffer
      cases hstep
      simp only [Stream.work, Body.rank, List.length_cons]
      omega
    · split at hstep
      · cases hstep
        simp [Stream.work, Body.rank]
      · cases hstep
  · rename_i hbody
    subst hbody
    cases hstep
    simp [Stream.work, Body.rank]
  · cases hstep
  · cases hstep

/-- An empty channel keeps the body waiting only for a job that can go on. -/
theorem no_deadlock {s : Stream} (hopen : ¬s.settled) : s.produce ≠ none ∨ s.poll ≠ none := by
  obtain ⟨info, producer, buffer, body⟩ := s
  cases body with
  | start =>
    right
    by_cases hchat : info.chat = true
    · simp [Stream.poll, hchat]
    · simp [Stream.poll, hchat]
  | reading =>
    cases buffer with
    | nil =>
      cases producer with
      | ended => exact Or.inr (by simp [Stream.poll])
      | _ => exact Or.inl (produce_possible (by simp) (Or.inr (by simp [eventBuffer])))
    | cons first rest =>
      cases first with
      | _ => exact Or.inr (by simp [Stream.poll])
  | closing => exact Or.inr (by simp [Stream.poll])
  | finished => exact absurd (Or.inl rfl) hopen
  | dropped => exact absurd (Or.inr rfl) hopen

/-- No step makes more work, those of the two sides make less, and another one
changes nothing or ends the stream. -/
theorem step_work {s s' : Stream} {action : Action} {event : Event}
    (hstep : Step s action event s') :
    s'.work ≤ s.work ∧ (action = .produce ∨ action = .poll → s'.work < s.work) ∧
      (action = .produce ∨ action = .poll ∨ s'.settled ∨ s' = s) := by
  cases hstep with
  | produce hproduce =>
    obtain ⟨hless, hlength⟩ := (produce_cases hproduce).work_lt
    have hbody := (produce_cases hproduce).frame.2.1
    have hwork : s'.work < s.work := by
      unfold Stream.work
      rw [hbody]
      omega
    exact ⟨Nat.le_of_lt hwork, fun _ => hwork, Or.inl rfl⟩
  | poll hpoll =>
    have hwork := poll_work_lt hpoll
    exact ⟨Nat.le_of_lt hwork, fun _ => hwork, Or.inr (Or.inl rfl)⟩
  | drop =>
    refine ⟨?_, by simp, Or.inr (Or.inr (Or.inl (Or.inr rfl)))⟩
    show 2 * s.producer.work + 0 + 0 ≤ 2 * s.producer.work + s.buffer.length + s.body.rank
    omega
  | idle => exact ⟨Nat.le_refl _, by simp, Or.inr (Or.inr (Or.inr rfl))⟩

/-- The body comes to its end, unless the client goes away first. -/
theorem settles {info : StreamInfo} {call : Generation} {x : (stream info call).Execution}
    (fair : Fair x) : ∃ n, (x.state n).settled := by
  have hprogress : ∀ n, True →
      ∃ m, n ≤ m ∧ ((x.state m).settled ∨ (x.action m = .produce ∨ x.action m = .poll)) := by
    intro n _
    by_contra hnever
    -- if neither side did anything, nothing would change, and one of them could go on
    have hstuck : ∀ m, n ≤ m → x.state m = x.state n := by
      intro m hm
      induction m, hm using Nat.le_induction with
      | base => rfl
      | succ m hm ih =>
        obtain ⟨-, -, hproduce | hpoll | hsettled | hsame⟩ := step_work (x.step m)
        · exact absurd ⟨m, hm, Or.inr (Or.inl hproduce)⟩ hnever
        · exact absurd ⟨m, hm, Or.inr (Or.inr hpoll)⟩ hnever
        · exact absurd ⟨m + 1, by omega, Or.inl hsettled⟩ hnever
        · exact hsame.trans ih
    have hopen : ¬(x.state n).settled := fun hsettled => hnever ⟨n, Nat.le_refl n, Or.inl hsettled⟩
    rcases no_deadlock hopen with hproduce | hpoll
    · obtain ⟨m, hm, htaken⟩ := fair.produce n fun m hm => by rw [hstuck m hm]; exact hproduce
      exact hnever ⟨m, hm, Or.inr (Or.inl htaken)⟩
    · obtain ⟨m, hm, htaken⟩ := fair.poll n fun m hm => by rw [hstuck m hm]; exact hpoll
      exact hnever ⟨m, hm, Or.inr (Or.inr htaken)⟩
  have hstep : ∀ s action event s', (stream info call).step s action event s' → True →
      s.settled ∨ (True ∧ s'.work ≤ s.work ∧
        (action = .produce ∨ action = .poll → s'.work < s.work)) := by
    intro s action event s' hstep _
    obtain ⟨hle, hlt, -⟩ := step_work hstep
    exact Or.inr ⟨trivial, hle, hlt⟩
  obtain ⟨n, -, hsettled⟩ := x.eventually_of_variant (P := fun _ => True) (Q := Stream.settled)
    hprogress hstep 0 trivial
  exact ⟨n, hsettled⟩

-- ---------------------------------------------------------------------------
-- What a client can rely on
-- ---------------------------------------------------------------------------

/-- **Streaming equals blocking**: for a backend whose two calls agree, every input
and every interleaving of the job, the channel and the reader, what the body yields
is a part of one transcript, and all of it once the body is at its end. The
transcript says what the blocking response says. Once the client is gone the backend
is told to cancel whenever it asks, and never before; the job then ends, and where
nobody goes away the body does. -/
theorem stream_run (backend : CompletionBackend) (hagree : backend.Agrees)
    (input : GenerationInput) (maxNewTokens : Nat) (info : StreamInfo) :
    (∃ texts terminal, (∀ text ∈ texts, text ≠ []) ∧
      Says info (backend.blocking input maxNewTokens) texts terminal ∧
      ∀ h s, (stream info (backend.incremental input maxNewTokens)).Run h s →
        yielded h <+: info.transcript texts terminal ∧
        (s.body = .finished → yielded h = info.transcript texts terminal) ∧ Cancels h) ∧
    (∀ x : (stream info (backend.incremental input maxNewTokens)).Execution, Fair x →
      (∃ n, (x.state n).body = .finished ∨ (x.state n).body = .dropped) ∧
      ∀ n, (x.state n).body = .dropped → ∃ m, n ≤ m ∧ (x.state m).producer = .ended) := by
  obtain ⟨texts, terminal, hnonEmpty, hsays, hfull⟩ := full_of_agrees info (hagree input maxNewTokens)
  refine ⟨⟨texts, terminal, hnonEmpty, hsays, fun h s run => ?_⟩, fun x fair => ?_⟩
  · have faithful := run_faithful run
    rw [← hfull]
    refine ⟨faithful.part, fun hfinished => ?_, run_told run⟩
    have hwhole := faithful.whole (by rw [hfinished]; simp)
    rw [hfinished] at hwhole
    exact (List.append_nil _).symm.trans hwhole
  · exact ⟨settles fair, fun n hgone => released fair hgone⟩

def sampleCompletion : Completion := ⟨[1], [5, 6], ['h', 'i'], .EndOfGeneration⟩

def afterSecond : GenerationControl → Generation
  | .Cancel => .returned (.ok .Cancelled)
  | .Continue => .returned (.ok (.Completed sampleCompletion))

def afterFirst : GenerationControl → Generation
  | .Cancel => .returned (.ok .Cancelled)
  | .Continue => .token ⟨6, []⟩ afterSecond

/-- A backend that generates a token with a text and one without. -/
def sampleBackend : CompletionBackend where
  complete _ _ := .ok sampleCompletion
  completeIncremental _ _ := .token ⟨5, ['h', 'i']⟩ afterFirst
  completePrompt _ _ _ _ := .ok sampleCompletion
  completePromptIncremental _ _ _ _ := .token ⟨5, ['h', 'i']⟩ afterFirst

theorem sampleBackend_agrees : sampleBackend.Agrees := by
  intro input maxNewTokens
  cases input with
  | _ => exact ⟨rfl, rfl⟩

def sampleInfo : StreamInfo := ⟨"chatcmpl-1", ['m'], true⟩

/-- A stream of its answer: the job and the client take turns, and then nothing more. -/
def sampleStream : Nat → Stream
  | 0 => ⟨sampleInfo, .queued (.token ⟨5, ['h', 'i']⟩ afterFirst), [], .start⟩
  | 1 => ⟨sampleInfo, .calling (.token ⟨5, ['h', 'i']⟩ afterFirst), [], .start⟩
  | 2 => ⟨sampleInfo, .sending ['h', 'i'] afterFirst, [], .start⟩
  | 3 => ⟨sampleInfo, .calling (afterFirst .Continue), [.Delta ['h', 'i']], .start⟩
  | 4 => ⟨sampleInfo, .calling (afterFirst .Continue), [.Delta ['h', 'i']], .reading⟩
  | 5 => ⟨sampleInfo, .calling (afterFirst .Continue), [], .reading⟩
  | 6 => ⟨sampleInfo, .calling (afterSecond .Continue), [], .reading⟩
  | 7 => ⟨sampleInfo, .ending (.Finished "stop"), [], .reading⟩
  | 8 => ⟨sampleInfo, .ended, [.Finished "stop"], .reading⟩
  | 9 => ⟨sampleInfo, .ended, [], .closing⟩
  | _ => ⟨sampleInfo, .ended, [], .finished⟩

def sampleAction : Nat → Action
  | 0 | 1 | 2 | 5 | 6 | 7 => .produce
  | 3 | 4 | 8 | 9 => .poll
  | _ => .idle

def sampleEvent : Nat → Event
  | 2 | 5 => .told .Continue
  | 3 => .yielded sampleInfo.role
  | 4 => .yielded (sampleInfo.delta ['h', 'i'])
  | 8 => .yielded (sampleInfo.finish "stop")
  | 9 => .yielded .done
  | _ => .silent

def sampleExecution :
    (stream sampleInfo (sampleBackend.incremental (.RawCompletion []) 2)).Execution where
  state := sampleStream
  action := sampleAction
  result := sampleEvent
  start := rfl
  step
    | 0 => Step.produce (s := sampleStream 0) rfl
    | 1 => Step.produce (s := sampleStream 1) rfl
    | 2 => Step.produce (s := sampleStream 2) rfl
    | 3 => Step.poll (s := sampleStream 3) rfl
    | 4 => Step.poll (s := sampleStream 4) rfl
    | 5 => Step.produce (s := sampleStream 5) rfl
    | 6 => Step.produce (s := sampleStream 6) rfl
    | 7 => Step.produce (s := sampleStream 7) rfl
    | 8 => Step.poll (s := sampleStream 8) rfl
    | 9 => Step.poll (s := sampleStream 9) rfl
    | _ + 10 => Step.idle

theorem sampleExecution_fair : Fair sampleExecution :=
  ⟨.of_disabled fun n => ⟨n + 10, by omega, fun hpossible => hpossible rfl⟩,
    .of_disabled fun n => ⟨n + 10, by omega, fun hpossible => hpossible rfl⟩⟩

/-- The sample stream comes to its end, and says "hi" and `stop` whatever the
interleaving. -/
theorem stream_run_sample : sampleBackend.Agrees ∧ Fair sampleExecution ∧
    (∃ n, (sampleExecution.state n).body = .finished ∨ (sampleExecution.state n).body = .dropped) ∧
    ∃ texts : List Str, texts.flatten = ['h', 'i'] ∧
      ∀ h s, (stream sampleInfo (sampleBackend.incremental (.RawCompletion []) 2)).Run h s →
        s.body = .finished →
        yielded h = sampleInfo.transcript texts (sampleInfo.finish "stop") := by
  obtain ⟨⟨texts, terminal, -, ⟨choice, hchoice, htexts, hterminal⟩, hrun⟩, hlive⟩ :=
    stream_run sampleBackend sampleBackend_agrees (.RawCompletion []) 2 sampleInfo
  obtain rfl : Choice.mk 0 ['h', 'i'] "stop" = choice := Except.ok.inj hchoice
  obtain rfl := hterminal
  exact ⟨sampleBackend_agrees, sampleExecution_fair, (hlive _ sampleExecution_fair).1, texts, htexts,
    fun h s run => (hrun h s run).2.1⟩

end CamelidEnterprise.Server
