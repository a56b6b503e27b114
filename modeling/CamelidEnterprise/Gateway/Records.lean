import CamelidEnterprise.Foundation.JsonLines
import CamelidEnterprise.Foundation.Routing
import CamelidEnterprise.Gateway.LogRun
import CamelidEnterprise.Gateway.Proxy

/-!
# Camelid Enterprise — the records of the gateway

`mint_request_id`, `write_audit_record` and `write_usage_record` of `crates/gateway/src/lib.rs`,
and the head of the request that goes to an upstream, which carries the minted id in place of
whatever the client sent. `Handler.books` of the proxy holds what the records say; here they are
objects with a time, printed on a line each, and given to a log. The two words an id is made of
and the times are arguments; the headers that are meant for one connection are gone by then.

Key result: `requestId_upstream`.
-/

namespace CamelidEnterprise.Gateway

open Foundation Foundation.Json Foundation.Http

-- ---------------------------------------------------------------------------
-- Request ids
-- ---------------------------------------------------------------------------

/-- A word as sixteen hexadecimal digits. -/
def hex16 (n : Nat) : Str :=
  List.replicate (16 - (Nat.toDigits 16 n).length) '0' ++ Nat.toDigits 16 n

/-- `mint_request_id`, of the two words it draws. -/
def mintRequestId (first second : Nat) : Str := "req_".toList ++ hex16 first ++ hex16 second

/-- `remove_untrusted_forwarding_headers` -/
def untrustedForwardingHeaders : List String :=
  ["forwarded", "x-forwarded-for", "x-forwarded-host", "x-forwarded-port", "x-forwarded-proto",
    "x-real-ip"]

/-- The head of the request to an upstream, from what is left of the client's without its
hop-by-hop headers. -/
def upstreamHeaders (headers : HeaderMap) (authority : List UInt8) (requestId : Str) : HeaderMap :=
  let headers := untrustedForwardingHeaders.foldl HeaderMap.remove headers
  let headers := headers.insert "host" authority
  headers.insert "x-camelid-request-id" (Utf8.encode requestId)

/-- A digit of a number to the base sixteen. -/
theorem mem_toDigits_hex {n : Nat} {c : Char} (h : c ∈ Nat.toDigits 16 n) :
    c ∈ "0123456789abcdef".toList := by
  have hdigit : ∀ d < 16, Nat.digitChar d ∈ "0123456789abcdef".toList := by decide +kernel
  induction n using Nat.strongRecOn with
  | ind n ih =>
    rw [Nat.toDigits_eq_if (by decide)] at h
    split at h
    · rename_i hless
      rw [List.mem_singleton.mp h]
      exact hdigit n hless
    · rename_i hmore
      rcases List.mem_append.mp h with hfront | hlast
      · exact ih (n / 16) (by omega) hfront
      · rw [List.mem_singleton.mp hlast]
        exact hdigit _ (Nat.mod_lt n (by decide))

theorem mem_hex16 {n : Nat} {c : Char} (h : c ∈ hex16 n) : c ∈ "0123456789abcdef".toList := by
  rcases List.mem_append.mp h with hzero | hdigit
  · rw [List.eq_of_mem_replicate hzero]
    decide +kernel
  · exact mem_toDigits_hex hdigit

/-- A minted id is a header value that reads as it is. -/
theorem toStr_mintRequestId (first second : Nat) :
    toStr (Utf8.encode (mintRequestId first second)) = some (mintRequestId first second) := by
  have hvisible : ("req_".toList ++ "0123456789abcdef".toList).all (fun c => decide (Visible c)) := by
    decide +kernel
  refine toStr_encode fun c hc => of_decide_eq_true (List.all_eq_true.mp hvisible c ?_)
  rcases List.mem_append.mp hc with hc | hc
  · rcases List.mem_append.mp hc with hc | hc
    · exact List.mem_append_left _ hc
    · exact List.mem_append_right _ (mem_hex16 hc)
  · exact List.mem_append_right _ (mem_hex16 hc)

/-- What a replica reads as the request id is what the gateway minted, whatever the client sent. -/
theorem requestId_upstream (headers : HeaderMap) (authority : List UInt8) (first second : Nat) :
    ((upstreamHeaders headers authority (mintRequestId first second)).get
      "x-camelid-request-id").bind toStr = some (mintRequestId first second) := by
  unfold upstreamHeaders
  rw [HeaderMap.get_insert, if_pos rfl, Option.bind_some]
  exact toStr_mintRequestId first second

theorem mintRequestId_ne_nil (first second : Nat) : mintRequestId first second ≠ [] := by
  unfold mintRequestId
  simp

-- ---------------------------------------------------------------------------
-- Records
-- ---------------------------------------------------------------------------

def jsonText (text : String) : Value := .String text.toList

/-- The fields of `write_audit_record`; the time is the word of a double. -/
def auditFields (line : AuditLine) (ts : Nat) : List (Text × Value) :=
  [("ts".toList, jsonF64 ts), ("request_id".toList, .String line.requestId),
    ("principal".toList, jsonOption line.principal),
    ("organization".toList, jsonOption line.organization),
    ("reason".toList, jsonOption (line.reason.map String.toList)),
    ("method".toList, jsonText line.method), ("path".toList, jsonText line.path),
    ("model_id".toList, jsonOption line.modelId),
    ("status".toList, .Number (.PosInt line.status))]

/-- The fields of `write_usage_record`, with its times. -/
def usageFields (line : UsageLine) (ts startedTs durationMs : Nat) : List (Text × Value) :=
  [("ts".toList, jsonF64 ts), ("started_ts".toList, jsonF64 startedTs),
    ("duration_ms".toList, .Number (.PosInt durationMs)),
    ("request_id".toList, .String line.record.requestId),
    ("principal".toList, .String line.record.principal),
    ("organization".toList, .String line.record.organization),
    ("method".toList, jsonText line.record.method), ("path".toList, jsonText line.record.path),
    ("model_id".toList, jsonOption line.record.modelId),
    ("response_head_status".toList, .Number (.PosInt line.record.responseHeadStatus)),
    ("request_bytes".toList, (line.requestBytes.map fun n => Value.Number (.PosInt n)).getD .Null),
    ("response_bytes".toList, .Number (.PosInt line.record.responseBytes)),
    ("stream_outcome".toList, jsonText line.streamOutcome)]

theorem auditFields_nodup (line : AuditLine) (ts : Nat) :
    ((auditFields line ts).map Prod.fst).Nodup := by
  show ["ts".toList, "request_id".toList, "principal".toList, "organization".toList,
    "reason".toList, "method".toList, "path".toList, "model_id".toList, "status".toList].Nodup
  decide +kernel

theorem usageFields_nodup (line : UsageLine) (ts startedTs durationMs : Nat) :
    ((usageFields line ts startedTs durationMs).map Prod.fst).Nodup := by
  show ["ts".toList, "started_ts".toList, "duration_ms".toList, "request_id".toList,
    "principal".toList, "organization".toList, "method".toList, "path".toList, "model_id".toList,
    "response_head_status".toList, "request_bytes".toList, "response_bytes".toList,
    "stream_outcome".toList].Nodup
  decide +kernel

/-- `jsonl_line`, of an object with these fields. -/
def jsonlLine (library : Library) (fields : List (Text × Value)) : Str :=
  library.record (.Object (Map.insertAll fields []))

end CamelidEnterprise.Gateway

namespace CamelidEnterprise.GatewayLog

open Foundation

/-- What a call of `write` has in its hand, and what was accepted, was given to a call. -/
theorem written_of_accepted {history : List (Entry Log Action Event)} {s : Log}
    (run : gatewayLog.Run history s) :
    (∀ line, .calling line ∈ s.writes → ∃ e ∈ history, e.action = .write line) ∧
      ∀ line ∈ accepted history, ∃ e ∈ history, e.action = .write line := by
  refine run.history_induction (P := fun history s =>
    (∀ line, .calling line ∈ s.writes → ∃ e ∈ history, e.action = .write line) ∧
      ∀ line ∈ accepted history, ∃ e ∈ history, e.action = .write line) ?_ ?_
  · rintro s rfl
    exact ⟨fun line h => absurd h List.not_mem_nil, fun line h => absurd h List.not_mem_nil⟩
  · intro history s action event s' _ ⟨hcalls, haccepted⟩ hstep
    have hlater : ∀ line, (∃ e ∈ history, e.action = .write line) →
        ∃ e ∈ history ++ [⟨s, action, event, s'⟩], e.action = .write line :=
      fun line ⟨e, he, haction⟩ => ⟨e, List.mem_append_left _ he, haction⟩
    -- a step that begins no call takes none of them further than it was
    have hquiet : (∀ line, .calling line ∈ s'.writes → .calling line ∈ s.writes) →
        (∀ line, event ≠ .accepted line) →
        (∀ line, .calling line ∈ s'.writes →
            ∃ e ∈ history ++ [⟨s, action, event, s'⟩], e.action = .write line) ∧
          ∀ line ∈ accepted (history ++ [⟨s, action, event, s'⟩]),
            ∃ e ∈ history ++ [⟨s, action, event, s'⟩], e.action = .write line := by
      intro hwrites hevent
      rw [accepted_snoc_other history s s' action hevent]
      exact ⟨fun line h => hlater line (hcalls line (hwrites line h)),
        fun line h => hlater line (haccepted line h)⟩
    have hset : ∀ {call : Nat} {after : WriteCall}, (∀ line, after ≠ .calling line) →
        ∀ line, .calling line ∈ s.writes.set call after → .calling line ∈ s.writes := by
      intro call after hafter line hmem
      rcases List.mem_or_eq_of_mem_set hmem with h | h
      · exact h
      · exact absurd h.symm (hafter line)
    cases hstep with
    | @write line =>
      rw [accepted_snoc_other history _ _ _ (by simp)]
      refine ⟨fun other h => ?_, fun other h => hlater other (haccepted other h)⟩
      rcases List.mem_append.mp h with h | h
      · exact hlater other (hcalls other h)
      · obtain rfl := WriteCall.calling.inj (List.mem_singleton.mp h)
        exact ⟨_, List.mem_append_right _ (List.mem_singleton_self _), rfl⟩
    | @send call line hfree hcall =>
      rcases send_cases s call line with ⟨reason, hsend⟩ | ⟨-, -, hsend⟩
      · rw [hsend] at hlater hquiet ⊢
        exact hquiet (hset (by simp)) (by simp)
      · rw [hsend] at hlater ⊢
        rw [accepted_snoc]
        refine ⟨fun other h => hlater other (hcalls other (hset (by simp) other h)), fun other h => ?_⟩
        rcases List.mem_append.mp h with h | h
        · exact hlater other (haccepted other h)
        · obtain rfl := List.mem_singleton.mp h
          exact hlater _ (hcalls _ (List.mem_of_getElem? hcall))
    | countQueued hcall => exact hquiet (hset (by simp)) (by simp)
    | recordDrop hcall => exact hquiet (hset (by simp)) (by simp)
    | @take call hfree hcall =>
      refine hquiet (fun line h => ?_) (fun line h => ?_)
      · unfold Log.take at h
        split at h
        · exact h
        · exact h
      · unfold Log.take at h
        split at h
        · cases h
        · cases h
    | _ => exact hquiet (fun line h => h) (by simp)

/-- After a flush that drained the log, the file is all that was accepted. -/
theorem file_of_drained {history : List (Entry Log Action Event)} {s : Log}
    (run : gatewayLog.Run history s) (hdrained : .returned .Drained ∈ s.flushes) :
    s.file = accepted history := by
  have hkept := run_kept run
  have hexited := hkept.draining.drained hdrained
  have hqueue := (hkept.draining.gone (by rw [hexited]; rfl)).1
  have horder := hkept.ledger.order
  rw [hexited, hqueue] at horder
  simpa [Writer.inHand] using horder.symm

end CamelidEnterprise.GatewayLog
