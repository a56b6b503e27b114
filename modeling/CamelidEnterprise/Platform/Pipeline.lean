import CamelidEnterprise.Gateway.Records
import CamelidEnterprise.Platform.Records
import CamelidEnterprise.Server.Receipts

/-!
# Camelid Enterprise — from a request to its rows

A request through the gateway leaves an audit record with the gateway, a usage record, and a
receipt with the replica; each is a line of a log of its own, written beside others, and the
ingestion makes rows of the lines. What joins the rows is the request id: the gateway mints it,
writes it down and sends it on in place of the client's, and the replica writes down what it is
sent.

* `gateway_evidence` — from a log of the gateway to the rows;
* `receipt_evidence` — from the receipts of a replica to the rows;
* `evidence_joined` — the two rows of one request.
-/

namespace CamelidEnterprise.PlatformStore

open Foundation Foundation.Json Foundation.Http
open Gateway (AuditLine UsageLine auditFields usageFields jsonlLine mintRequestId upstreamHeaders)
open Server (Attribution ReceiptLog ReceiptHistory receiptLog receiptBytes receipts Unfailing)

-- ---------------------------------------------------------------------------
-- Objects that are records
-- ---------------------------------------------------------------------------

def auditRecorded (line : AuditLine) (ts : Nat) (hfinite : Format.double.isFinite ts = true) :
    Recorded :=
  .ofFields (auditFields line ts) (some line.requestId) line.organization ts
    (Gateway.auditFields_nodup line ts) (by simp [auditFields]) hfinite
    (by simp [auditFields, jsonOption]) (.inl (by simp [auditFields]))

def usageRecorded (line : UsageLine) (ts startedTs durationMs : Nat)
    (hfinite : Format.double.isFinite ts = true) : Recorded :=
  .ofFields (usageFields line ts startedTs durationMs) (some line.record.requestId)
    (some line.record.organization) ts (Gateway.usageFields_nodup line ts startedTs durationMs)
    (by simp [usageFields]) hfinite (by simp [usageFields, jsonOption])
    (.inl (by simp [usageFields, jsonOption]))

/-- The names of a receipt. -/
theorem receiptFields_names (ctx : Attribution) (seen : Attribution.Seen) :
    ((ctx.receiptFields seen).map Prod.fst).Nodup ∧
      "organization".toList ∉ (ctx.receiptFields seen).map Prod.fst := by
  show ["ts".toList, "request_id".toList, "method".toList, "path".toList, "status".toList,
      "lane".toList, "config_sha256".toList, "admission_sha256".toList, "posture".toList,
      "engine_sha256".toList, "model_sha256".toList, "host".toList,
      "worker_threads".toList].Nodup ∧
    "organization".toList ∉ ["ts".toList, "request_id".toList, "method".toList, "path".toList,
      "status".toList, "lane".toList, "config_sha256".toList, "admission_sha256".toList,
      "posture".toList, "engine_sha256".toList, "model_sha256".toList, "host".toList,
      "worker_threads".toList]
  decide +kernel

def receiptRecorded (ctx : Attribution) (seen : Attribution.Seen)
    (hfinite : Format.double.isFinite seen.ts = true) : Recorded :=
  .ofFields (ctx.receiptFields seen) seen.requestId none seen.ts (receiptFields_names ctx seen).1
    (by simp [Attribution.receiptFields]) hfinite (by simp [Attribution.receiptFields])
    (.inr ⟨(receiptFields_names ctx seen).2, rfl⟩)

/-- A line that the gateway gives to one of its logs, and its record. -/
inductive GatewayLine (library : Library) : EvidenceStream → Str → Recorded → Prop
  | audit {line : AuditLine} {ts first second : Nat} (hfinite : Format.double.isFinite ts = true)
      (hminted : line.requestId = mintRequestId first second) :
      GatewayLine library .GatewayAudit (jsonlLine library (auditFields line ts))
        (auditRecorded line ts hfinite)
  | usage {line : UsageLine} {ts startedTs durationMs first second : Nat}
      (hfinite : Format.double.isFinite ts = true)
      (hminted : line.record.requestId = mintRequestId first second) :
      GatewayLine library .GatewayUsage
        (jsonlLine library (usageFields line ts startedTs durationMs))
        (usageRecorded line ts startedTs durationMs hfinite)

theorem GatewayLine.minted {library : Library} {stream : EvidenceStream} {line : Str} {r : Recorded}
    (h : GatewayLine library stream line r) :
    ∃ first second, r.requestId = some (mintRequestId first second) := by
  cases h with
  | audit hfinite hminted => exact ⟨_, _, congrArg some hminted⟩
  | usage hfinite hminted => exact ⟨_, _, congrArg some hminted⟩

theorem GatewayLine.takes {library : Library} {stream : EvidenceStream} {line : Str} {r : Recorded}
    (h : GatewayLine library stream line r) :
    line = library.record (.Object r.map) ∧ Takes stream r.requestId := by
  have htakes : Takes stream r.requestId := by
    obtain ⟨first, second, hid⟩ := h.minted
    rw [hid]
    exact ⟨fun hnil => Gateway.mintRequestId_ne_nil first second (Option.some.inj hnil),
      fun hnone => by cases hnone⟩
  cases h with
  | _ => exact ⟨rfl, htakes⟩

/-- The library prints a record on a line, and the database does not refuse the line. -/
def Storable {ρ : Type} (w : World ρ) (library : Library) (stream : EvidenceStream) (r : Recorded) :
    Prop :=
  library.Line r.map ∧ w.refusal stream (r.line library) = none

-- ---------------------------------------------------------------------------
-- The gateway
-- ---------------------------------------------------------------------------

section Gateway

variable {library : Library} {stream : EvidenceStream} {s : GatewayLog.Log}
  {history : List (Entry GatewayLog.Log GatewayLog.Action GatewayLog.Event)}

/-- The records behind some lines. -/
theorem exists_records {P : Str → Recorded → Prop} {lines : List Str}
    (h : ∀ line ∈ lines, ∃ r, P line r) : ∃ records, List.Forall₂ P lines records := by
  induction lines with
  | nil => exact ⟨[], .nil⟩
  | cons line lines ih =>
    obtain ⟨r, hr⟩ := h line List.mem_cons_self
    obtain ⟨records, hrecords⟩ := ih fun line hline => h line (List.mem_cons_of_mem _ hline)
    exact ⟨r :: records, .cons hr hrecords⟩

/-- Lines of records, one behind the other. -/
theorem flatten_lines {lines : List Str} {records : List Recorded} {P : Recorded → Prop}
    (h : List.Forall₂ (fun line r => GatewayLine library stream line r ∧ P r) lines records) :
    lines.flatten = contents library records := by
  induction h with
  | nil => rfl
  | @cons line r lines records hfirst _ ih =>
    unfold contents at ih ⊢
    rw [List.flatten_cons, List.flatMap_cons, ← hfirst.1.takes.1, ih]

/-- A log that was drained is a file of the records that were accepted. -/
theorem gateway_contents {P : Recorded → Prop} (run : GatewayLog.gatewayLog.Run history s)
    (hdrained : .returned .Drained ∈ s.flushes)
    (hwrites : ∀ e ∈ history, ∀ line, e.action = .write line →
      ∃ r, GatewayLine library stream line r ∧ P r) :
    ∃ records, List.Forall₂ (GatewayLine library stream) (GatewayLog.accepted history) records ∧
      s.file.flatten = contents library records ∧
      ∀ r ∈ records, P r ∧ Takes stream r.requestId ∧
        ∃ first second, r.requestId = some (mintRequestId first second) := by
  have haccepted : ∀ line ∈ GatewayLog.accepted history,
      ∃ r, GatewayLine library stream line r ∧ P r := by
    intro line hline
    obtain ⟨e, he, haction⟩ := (GatewayLog.written_of_accepted run).2 line hline
    exact hwrites e he line haction
  obtain ⟨records, hrecords⟩ := exists_records haccepted
  refine ⟨records, hrecords.imp fun _ _ h => h.1, ?_, fun r hr => ?_⟩
  · rw [GatewayLog.file_of_drained run hdrained, flatten_lines hrecords]
  · obtain ⟨line, -, hline⟩ := forall₂_mem_right hrecords hr
    exact ⟨hline.2, hline.1.takes.2, hline.1.minted⟩

end Gateway

-- ---------------------------------------------------------------------------
-- The replica
-- ---------------------------------------------------------------------------

section Replica

variable {library : Library} {ctx : Attribution} {h : ReceiptHistory} {s : ReceiptLog}

/-- A list that was rearranged after a function was applied to it. -/
theorem exists_perm_of_map {α β : Type} {f : α → β} {l : List α} {m : List β}
    (h : (l.map f).Perm m) : ∃ l', l.Perm l' ∧ l'.map f = m := by
  generalize hl : l.map f = k at h
  induction h generalizing l with
  | nil => exact ⟨l, .refl l, hl⟩
  | cons b _ ih =>
    obtain ⟨a, rest, rfl, rfl, hrest⟩ := List.map_eq_cons_iff.mp hl
    obtain ⟨rest', hperm, rfl⟩ := ih hrest
    exact ⟨a :: rest', hperm.cons a, rfl⟩
  | swap b c bs =>
    obtain ⟨a, rest, rfl, rfl, hrest⟩ := List.map_eq_cons_iff.mp hl
    obtain ⟨a', rest', rfl, rfl, rfl⟩ := List.map_eq_cons_iff.mp hrest
    exact ⟨a' :: a :: rest', .swap _ _ _, rfl⟩
  | trans _ _ ih ih' =>
    obtain ⟨l', hperm, hl'⟩ := ih hl
    obtain ⟨l'', hperm', hl''⟩ := ih' hl'
    exact ⟨l'', hperm.trans hperm', hl''⟩

theorem encode_flatMap {α : Type} (l : List α) (f : α → Text) :
    Utf8.encode (l.flatMap f) = l.flatMap fun a => Utf8.encode (f a) := by
  induction l with
  | nil => rfl
  | cons a l ih => rw [List.flatMap_cons, List.flatMap_cons, Utf8.encode_append, ih]

/-- The request id a request comes with. -/
def cameWith (req : Request) : Option Str := (req.headers.get "x-camelid-request-id").bind toStr

/-- The record of the receipt of an answered request, where receipts are kept. -/
def recordOf (library : Library) (ctx : Attribution)
    (e : Entry ReceiptLog Server.ReceiptAction Server.ReceiptEvent) : Option Recorded :=
  match e.action with
  | .answer req inner ts =>
    if hfinite : Format.double.isFinite ts = true then
      if ctx.receipts then
        some (receiptRecorded ctx ⟨req.method, req.path,
          (Server.attributedTo library ctx ts req inner).1.status, ts, cameWith req⟩ hfinite)
      else none
    else none
  | .task _ => none

/-- The records of the receipts, in the order of the answers. -/
theorem receipts_eq (run : (receiptLog library ctx []).Run h s) :
    receipts library ctx h =
      (h.filterMap (recordOf library ctx)).map fun r => Value.Object r.map := by
  unfold receipts
  rw [List.map_filterMap]
  refine List.filterMap_congr fun e he => ?_
  have hstep := run.step_of_mem he
  obtain ⟨s, a, r, s'⟩ := e
  cases a with
  | task action => rfl
  | answer req inner ts =>
    have hclock := Server.clock_of_answer hstep
    unfold recordOf
    dsimp only
    rw [dif_pos hclock]
    refine ((Server.attributeLayer_answered library ctx ts (fun _ (u : Unit) => (inner, u)) req
      ()).2.2.2).trans ?_
    split
    · rfl
    · rfl

/-- The record of an answer. -/
theorem recordOf_answer (run : (receiptLog library ctx []).Run h s) (hkept : ctx.receipts = true)
    {e : Entry ReceiptLog Server.ReceiptAction Server.ReceiptEvent} (he : e ∈ h) {req : Request}
    {inner : Response} {ts : Nat} (haction : e.action = .answer req inner ts) :
    ∃ seen, ∃ hfinite : Format.double.isFinite seen.ts = true,
      recordOf library ctx e = some (receiptRecorded ctx seen hfinite) ∧
        seen = ⟨req.method, req.path, (Server.attributedTo library ctx ts req inner).1.status, ts,
          cameWith req⟩ := by
  have hstep := run.step_of_mem he
  obtain ⟨s, a, r, s'⟩ := e
  obtain rfl : a = .answer req inner ts := haction
  have hclock := Server.clock_of_answer hstep
  refine ⟨_, hclock, ?_, rfl⟩
  unfold recordOf
  dsimp only
  rw [dif_pos hclock, if_pos hkept]

theorem answer_of_recordOf {e : Entry ReceiptLog Server.ReceiptAction Server.ReceiptEvent}
    {r : Recorded} (h : recordOf library ctx e = some r) :
    ∃ req inner ts, e.action = .answer req inner ts ∧ cameWith req = r.requestId := by
  unfold recordOf at h
  rcases haction : e.action with ⟨req, inner, ts⟩ | action
  · rw [haction] at h
    dsimp only at h
    split at h
    · split at h
      · obtain rfl := Option.some.inj h
        exact ⟨req, inner, ts, rfl, rfl⟩
      · cases h
    · cases h
  · rw [haction] at h
    cases h

/-- When every task is done and none failed, the file is the receipts, in the order of the lock. -/
theorem receipt_contents (run : (receiptLog library ctx []).Run h s) (hwhole : Unfailing h)
    (hsettled : s.writers.filterMap AppendLog.Writer.pending = []) :
    ∃ records, (h.filterMap (recordOf library ctx)).Perm records ∧
      s.file = Utf8.encode (contents library records) := by
  have hfile := Server.run_file run
  have haccounted := AppendLog.run_accounted hfile
  unfold AppendLog.Accounted at haccounted
  rw [Server.submitted_receipts run, hsettled, List.append_nil, receipts_eq run] at haccounted
  obtain ⟨records, hperm, hrecords⟩ := exists_perm_of_map haccounted
  refine ⟨records, hperm, ?_⟩
  -- nobody is in the middle of a record, and each is there as a whole
  have hnobody : s.writers.flatMap (AppendLog.Writer.put (receiptBytes library)) = [] := by
    refine List.flatMap_eq_nil_iff.mpr fun writer hwriter => ?_
    have hdone := List.filterMap_eq_nil_iff.mp hsettled writer hwriter
    cases writer with
    | done => rfl
    | _ => cases hdone
  have hparts : ∀ entry ∈ Server.written library ctx h,
      AppendLog.part (receiptBytes library) entry = Utf8.encode (library.record entry.1) := by
    intro entry hentry
    unfold AppendLog.part
    rw [Server.run_whole run hwhole entry hentry, List.take_length]
    rfl
  have hwritten := AppendLog.run_file hfile
  unfold AppendLog.Written at hwritten
  rw [hnobody, List.nil_append, List.append_nil] at hwritten
  calc s.file = (Server.written library ctx h).flatMap (AppendLog.part (receiptBytes library)) :=
        hwritten
    _ = (Server.written library ctx h).flatMap fun entry => Utf8.encode (library.record entry.1) :=
        List.flatMap_congr hparts
    _ = ((Server.written library ctx h).map Prod.fst).flatMap fun receipt =>
          Utf8.encode (library.record receipt) := by rw [List.flatMap_map]
    _ = (records.map fun r => Value.Object r.map).flatMap fun receipt =>
          Utf8.encode (library.record receipt) := by
        rw [hrecords]
        rfl
    _ = Utf8.encode (contents library records) := by
        rw [List.flatMap_map]
        exact (encode_flatMap _ _).symm

/-- **From the receipts of a replica to their rows.** When every task is done and none failed, the
file is a text of lines; the ingestion counts each answered request once, as unreadable exactly
where it came with an empty request id; each of the others has a row, under the id it came with,
and there are no other new rows. -/
theorem receipt_evidence {ρ : Type} {w : World ρ} (hparser : w.parser = library.toParser)
    (run : (receiptLog library ctx []).Run h s) (hwhole : Unfailing h)
    (hsettled : s.writers.filterMap AppendLog.Writer.pending = [])
    (hstorable : ∀ r ∈ h.filterMap (recordOf library ctx), Storable w library .ReplicaReceipt r)
    (store : EvidenceStore ρ) :
    ∃ text summary tables, s.file = Utf8.encode text ∧
      Returns (ingestEvidence w.quiet .ReplicaReceipt text) store summary tables ∧
      summary.stored + summary.alreadyPresent + summary.unreadable =
        (receipts library ctx h).length ∧
      summary.unreadable = (h.filterMap (recordOf library ctx)).countP
        (fun r => decide (r.requestId = some [])) ∧
      (∀ row ∈ (tables .ReplicaReceipt).rows, row ∈ (store.tables .ReplicaReceipt).rows ∨
        ∃ r ∈ h.filterMap (recordOf library ctx), IsRow w library .ReplicaReceipt r row) ∧
      ∀ r ∈ h.filterMap (recordOf library ctx), r.requestId ≠ some [] →
        (tables .ReplicaReceipt).find (w.sha256 (Utf8.encode (r.line library))) ≠ none ∧
        ((∀ r' ∈ h.filterMap (recordOf library ctx), w.sha256 (Utf8.encode (r'.line library)) =
            w.sha256 (Utf8.encode (r.line library)) → r'.line library = r.line library) →
          (store.tables .ReplicaReceipt).find (w.sha256 (Utf8.encode (r.line library))) = none →
          ∃ row ∈ (tables .ReplicaReceipt).rows, IsRow w library .ReplicaReceipt r row) := by
  obtain ⟨records, hperm, hfile⟩ := receipt_contents run hwhole hsettled
  have hmem : ∀ r, r ∈ records ↔ r ∈ h.filterMap (recordOf library ctx) :=
    fun r => hperm.mem_iff.symm
  obtain ⟨summary, tables, hreturns, hkept, hall, -, honly, hrows⟩ := ingest_records hparser
    (fun r hr => (hstorable r ((hmem r).mp hr)).1) (fun r hr => (hstorable r ((hmem r).mp hr)).2)
    store
  have htakes : ∀ r : Recorded, Takes .ReplicaReceipt r.requestId ↔ r.requestId ≠ some [] :=
    fun r => ⟨fun h => h.1, fun h => ⟨h, fun _ => rfl⟩⟩
  -- a record that is not taken came with an empty id
  have hcount : records.countP (fun r => decide (Takes .ReplicaReceipt r.requestId)) +
      records.countP (fun r => decide (r.requestId = some [])) = records.length := by
    rw [List.length_eq_countP_add_countP
      fun r : Recorded => decide (Takes .ReplicaReceipt r.requestId)]
    refine congrArg _ (List.countP_congr fun r _ => ?_)
    simp [htakes r]
  have hlength := hperm.length_eq
  have hreceipts : (receipts library ctx h).length = records.length := by
    rw [receipts_eq run, List.length_map, hlength]
  refine ⟨_, summary, tables, hfile, hreturns, by omega, ?_, fun row hrow => ?_,
    fun r hr hid => ?_⟩
  · rw [hperm.countP_eq]
    omega
  · exact (honly row hrow).imp id fun ⟨r, hr, _, hisRow⟩ => ⟨r, (hmem r).mp hr, hisRow⟩
  · obtain ⟨hfound, hrow⟩ := hrows r ((hmem r).mpr hr) ((htakes r).mpr hid)
    exact ⟨hfound, fun hdigest => hrow fun r' hr' => hdigest r' ((hmem r').mp hr')⟩

end Replica

-- ---------------------------------------------------------------------------
-- Both
-- ---------------------------------------------------------------------------

/-- **The rows of one request.** The gateway's audit log is ingested, and then the receipts of a
replica. An accepted audit record and an answered request that the gateway sent on with the id of
the record have a row each, and both rows have that id, whatever headers the client had sent the
gateway; and a receipt under an id is that of a request that came with it. -/
theorem evidence_joined {ρ : Type} {w : World ρ} {library : Library}
    (hparser : w.parser = library.toParser)
    {history : List (Entry GatewayLog.Log GatewayLog.Action GatewayLog.Event)} {g : GatewayLog.Log}
    (grun : GatewayLog.gatewayLog.Run history g) (hdrained : .returned .Drained ∈ g.flushes)
    (hwrites : ∀ e ∈ history, ∀ line, e.action = .write line →
      ∃ r, GatewayLine library .GatewayAudit line r ∧ Storable w library .GatewayAudit r)
    (hdigest : ∀ line ∈ nonBlank (Foundation.Text.lines g.file.flatten),
      ∀ line' ∈ nonBlank (Foundation.Text.lines g.file.flatten),
        w.sha256 (Utf8.encode line') = w.sha256 (Utf8.encode line) → line' = line)
    {ctx : Attribution} {h : ReceiptHistory} {s : ReceiptLog} (hkept : ctx.receipts = true)
    (run : (receiptLog library ctx []).Run h s) (hwhole : Unfailing h)
    (hsettled : s.writers.filterMap AppendLog.Writer.pending = [])
    (hstorable : ∀ r ∈ h.filterMap (recordOf library ctx), Storable w library .ReplicaReceipt r)
    (hdigest' : ∀ r ∈ h.filterMap (recordOf library ctx), ∀ r' ∈ h.filterMap (recordOf library ctx),
      w.sha256 (Utf8.encode (r'.line library)) = w.sha256 (Utf8.encode (r.line library)) →
        r'.line library = r.line library) :
    ∃ text summary tables, s.file = Utf8.encode text ∧
      Returns (ingestEvidence w.quiet .GatewayAudit g.file.flatten) emptyStore summary tables ∧
      ∀ store, store.tables = tables → ∃ summary' tables',
        Returns (ingestEvidence w.quiet .ReplicaReceipt text) store summary' tables' ∧
        (∀ line ts hfinite, jsonlLine library (auditFields line ts) ∈ GatewayLog.accepted history →
          library.Line (auditRecorded line ts hfinite).map →
          ∀ e ∈ h, ∀ req inner ts' headers authority, e.action = .answer req inner ts' →
            req.headers = upstreamHeaders headers authority line.requestId →
          ∃ row ∈ (tables' .GatewayAudit).rows, ∃ receipt ∈ (tables' .ReplicaReceipt).rows,
            row.requestId = some line.requestId ∧ receipt.requestId = some line.requestId ∧
            row.organization = line.organization ∧
            row.record = w.jsonb ((auditRecorded line ts hfinite).line library) ∧
            receipt.record = w.jsonb (library.print (ctx.receipt ⟨req.method, req.path,
              (Server.attributedTo library ctx ts' req inner).1.status, ts',
              some line.requestId⟩))) ∧
        ∀ receipt ∈ (tables' .ReplicaReceipt).rows, ∀ id, receipt.requestId = some id →
          ∃ e ∈ h, ∃ req inner ts, e.action = .answer req inner ts ∧ cameWith req = some id := by
  obtain ⟨records, hrecords, hfile, heach⟩ := gateway_contents grun hdrained hwrites
  obtain ⟨records', hperm, hfile'⟩ := receipt_contents run hwhole hsettled
  have hmem : ∀ r, r ∈ records' ↔ r ∈ h.filterMap (recordOf library ctx) :=
    fun r => hperm.mem_iff.symm
  obtain ⟨summary, tables, hreturns, -, -, hothers, -, hrows⟩ := ingest_records hparser
    (fun r hr => (heach r hr).1.1) (fun r hr => (heach r hr).1.2) (emptyStore (ρ := ρ))
  rw [hfile, nonBlank_contents fun r hr => (heach r hr).1.1] at hdigest
  refine ⟨_, summary, tables, hfile', hfile ▸ hreturns, fun store hstore => ?_⟩
  obtain ⟨summary', tables', hreturns', -, -, hothers', honly', hrows'⟩ := ingest_records hparser
    (fun r hr => (hstorable r ((hmem r).mp hr)).1) (fun r hr => (hstorable r ((hmem r).mp hr)).2)
    store
  have hempty : (store.tables .ReplicaReceipt).rows = [] := by
    rw [hstore, hothers .ReplicaReceipt (by decide)]
    rfl
  refine ⟨summary', tables', hreturns', ?_, fun receipt hreceipt id hid => ?_⟩
  · intro line ts hfinite haccepted hline e he req inner ts' headers authority haction hheaders
    -- the record that was accepted under this line
    obtain ⟨r, hr, hrline⟩ := forall₂_mem_right hrecords.flip haccepted
    have hsame : r.line library = (auditRecorded line ts hfinite).line library :=
      List.append_cancel_right hrline.takes.1.symm
    obtain ⟨hid, horganization⟩ := same_line hparser (heach r hr).1.1 hline (heach r hr).2.1 hsame
    obtain ⟨row, hrow, -, hrowId, hrowOrganization, hrowRecord⟩ := (hrows r hr (heach r hr).2.1).2
      (fun r' hr' => hdigest _ (List.mem_map_of_mem hr) _ (List.mem_map_of_mem hr')) rfl
    -- the receipt of the request that was sent on
    obtain ⟨first, second, hminted⟩ := (heach r hr).2.2
    have hminted : line.requestId = mintRequestId first second :=
      Option.some.inj (hid.symm.trans hminted)
    have hcame : cameWith req = some line.requestId := by
      unfold cameWith
      rw [hheaders, hminted, Gateway.requestId_upstream]
    obtain ⟨seen, hseenFinite, hrecord, hseen⟩ := recordOf_answer run hkept he haction
    rw [hcame] at hseen
    have hseenMem := List.mem_filterMap.mpr ⟨e, he, hrecord⟩
    have hseenId : (receiptRecorded ctx seen hseenFinite).requestId = some line.requestId :=
      congrArg Attribution.Seen.requestId hseen
    have hseenTakes : Takes .ReplicaReceipt (receiptRecorded ctx seen hseenFinite).requestId := by
      rw [hseenId, hminted]
      exact ⟨fun h => Gateway.mintRequestId_ne_nil first second (Option.some.inj h), fun _ => rfl⟩
    obtain ⟨receipt, hreceipt, -, hreceiptId, -, hreceiptRecord⟩ :=
      (hrows' _ ((hmem _).mpr hseenMem) hseenTakes).2
        (fun r' hr' => hdigest' _ hseenMem r' ((hmem r').mp hr'))
        (Table.find_eq_none.mpr fun row hrow => absurd (hempty ▸ hrow) List.not_mem_nil)
    refine ⟨row, ?_, receipt, hreceipt, hrowId.trans hid, hreceiptId.trans hseenId,
      hrowOrganization.trans horganization, hrowRecord.trans (congrArg w.jsonb hsame), ?_⟩
    · rw [hothers' .GatewayAudit (by decide), hstore]
      exact hrow
    · rw [hreceiptRecord, ← hseen]
      rfl
  · rcases honly' receipt hreceipt with hold | ⟨r, hr, -, hrow⟩
    · exact absurd (hempty ▸ hold) List.not_mem_nil
    obtain ⟨e, he, hrecord⟩ := List.mem_filterMap.mp ((hmem r).mp hr)
    obtain ⟨req, inner, ts, haction, hcame⟩ := answer_of_recordOf hrecord
    exact ⟨e, he, req, inner, ts, haction, hcame.trans (hrow.2.1.symm.trans hid)⟩

-- ---------------------------------------------------------------------------
-- One request
-- ---------------------------------------------------------------------------

/-- The scalars of a record, of the floats none but nought. -/
inductive Scalar
  | null
  | text (s : Text)
  | nat (n : Nat)
  | zero
deriving DecidableEq

def Scalar.value : Scalar → Value
  | null => .Null
  | text s => .String s
  | nat n => .Number (.PosInt n)
  | zero => .Number (.Float 0)

def Scalar.document : Scalar → Document
  | null => .null
  | text s => .string s
  | nat n => .number (.PosInt n)
  | zero => .number (.Float 0)

/-- An object of scalars. -/
abbrev Flat := List (Text × Scalar)

def Flat.object (o : Flat) : List (Text × Value) := o.map fun field => (field.1, field.2.value)

def Flat.members (o : Flat) : List (Text × Document) :=
  o.map fun field => (field.1, field.2.document)

def Flat.printed (o : Flat) : List UInt8 := Utf8.encode (Server.printObject (.Object o.object))

def Scalar.printed (v : Scalar) : List UInt8 := Utf8.encode (Server.printScalar v.value)

/-- Objects that can be told apart by their texts, and their values by theirs. -/
def Legible (objects : List Flat) : Prop :=
  ∀ o ∈ objects, objects.find? (fun o' => decide (o'.printed = o.printed)) = some o ∧
    (Server.printObject (.Object o.object)).all (fun c => decide (32 ≤ c.toNat)) = true ∧
    (Server.printObject (.Object o.object)).head? = some '\x7b' ∧
    ∀ field ∈ o, objects.find? (fun o' => decide (o'.printed = field.2.printed)) = none ∧
      (objects.flatMap (List.map Prod.snd)).find? (fun v => decide (v.printed = field.2.printed)) =
        some field.2

instance (objects : List Flat) : Decidable (Legible objects) :=
  inferInstanceAs (Decidable (∀ o ∈ objects, _))

/-- A JSON library, as far as these objects and their values go. -/
def flatLibrary (objects : List Flat) (hlegible : Legible objects) : Library where
  document body :=
    match objects.find? fun o => decide (o.printed = body) with
    | some o => some (.object o.members)
    | none =>
      ((objects.flatMap (List.map Prod.snd)).find? fun v => decide (v.printed = body)).map
        Scalar.document
  entries body :=
    (objects.find? fun o => decide (o.printed = body)).map fun o =>
      o.map fun field => (field.1, field.2.printed)
  toVec _ := none
  print := Server.printObject
  entries_object := by
    intro body members hdoc
    cases hfind : objects.find? fun o => decide (o.printed = body) with
    | none =>
      rw [hfind] at hdoc
      obtain ⟨v, -, hv⟩ := Option.map_eq_some_iff.mp hdoc
      cases v with
      | _ => cases hv
    | some o =>
      rw [hfind] at hdoc
      obtain rfl := Document.object.inj (Option.some.inj hdoc)
      unfold Flat.members
      refine ⟨_, rfl, List.forall₂_map_left_iff.mpr (List.forall₂_map_right_iff.mpr ?_)⟩
      refine List.forall₂_same.mpr fun field hfield => ⟨rfl, ?_⟩
      obtain ⟨hnone, hsome⟩ := (hlegible o (List.mem_of_find?_eq_some hfind)).2.2.2 field hfield
      dsimp only
      rw [hnone, hsome]
      rfl
  entries_other := by
    intro body doc hdoc hother
    cases hfind : objects.find? fun o => decide (o.printed = body) with
    | none => rfl
    | some o =>
      rw [hfind] at hdoc
      exact absurd (Option.some.inj hdoc).symm (hother _)
  document_toVec h := absurd h (by simp)

theorem flatLibrary_line {objects : List Flat} (hlegible : Legible objects) {o : Flat}
    (ho : o ∈ objects) : (flatLibrary objects hlegible).Line o.object := by
  obtain ⟨hfind, hplain, hopened, -⟩ := hlegible o ho
  refine ⟨fun c hc => of_decide_eq_true (List.all_eq_true.mp hplain c hc), hopened, o.members, ?_,
    .object ?_ ?_, ?_⟩
  · show (match objects.find? fun o' => decide (o'.printed = o.printed) with
      | some o => some (Document.object o.members)
      | none => _) = _
    rw [hfind]
  · rw [Flat.object, Flat.members, List.map_map, List.map_map]
    rfl
  · rw [Flat.object, Flat.members, List.map_map, List.map_map]
    refine List.forall₂_map_left_iff.mpr (List.forall₂_map_right_iff.mpr ?_)
    refine List.forall₂_same.mpr fun field _ => ?_
    show Written field.2.value field.2.document
    cases field.2 with
    | null => exact .null
    | text s => exact .string s
    | nat n => exact .posInt n
    | zero => exact .float 0 0
  · intro name bits hmem
    obtain ⟨⟨key, v⟩, -, hfield⟩ := List.mem_map.mp hmem
    cases v with
    | zero =>
      obtain rfl : 0 = bits := Number.Float.inj (Document.number.inj (Prod.mk.inj hfield).2)
      decide
    | _ => cases (Prod.mk.inj hfield).2

/-- Fields that are scalars, put into an object. -/
theorem insertAll_object (fields : Flat) :
    Map.insertAll (Flat.object fields) [] = Flat.object (Map.insertAll fields []) := by
  have hinsert : ∀ (name : Text) (v : Scalar) (o : Flat),
      Map.insert name v.value o.object = Flat.object (Map.insert name v o) := by
    intro name v o
    induction o with
    | nil => rfl
    | cons first o ih =>
      obtain ⟨key, old⟩ := first
      show Map.insert name v.value ((key, old.value) :: Flat.object o) = _
      unfold Map.insert
      split
      · rfl
      · split
        · rfl
        · rw [ih]
          rfl
  have hall : ∀ (fields o : Flat), Map.insertAll (Flat.object fields) o.object =
      Flat.object (Map.insertAll fields o) := by
    intro fields
    induction fields with
    | nil => exact fun o => rfl
    | cons first fields ih =>
      intro o
      show Map.insertAll (Flat.object fields) (Map.insert first.1 first.2.value o.object) = _
      rw [hinsert, ih]
      rfl
  exact hall fields []

def oneId : Str := mintRequestId 1 2

def oneLine : AuditLine := ⟨oneId, some ['p'], some ['o'], none, "GET", "/v1/health", none, 200⟩

def oneRequest : Request :=
  ⟨"GET", "/v1/health", upstreamHeaders [] [104] oneId, .whole []⟩

def oneSeen : Attribution.Seen := ⟨"GET", "/v1/health", 200, 0, some oneId⟩

def auditFlat : Flat :=
  [("ts".toList, .zero), ("request_id".toList, .text oneId), ("principal".toList, .text ['p']),
    ("organization".toList, .text ['o']), ("reason".toList, .null),
    ("method".toList, .text "GET".toList), ("path".toList, .text "/v1/health".toList),
    ("model_id".toList, .null), ("status".toList, .nat 200)]

def receiptFlat : Flat :=
  [("ts".toList, .zero), ("request_id".toList, .text oneId),
    ("method".toList, .text "GET".toList), ("path".toList, .text "/v1/health".toList),
    ("status".toList, .nat 200), ("lane".toList, .text "deterministic".toList),
    ("config_sha256".toList, .text (List.replicate 64 '0')),
    ("admission_sha256".toList, .text (List.replicate 64 '0')),
    ("posture".toList, .text "cpu".toList),
    ("engine_sha256".toList, .text (List.replicate 64 '0')),
    ("model_sha256".toList, .text (List.replicate 64 '0')),
    ("host".toList, .text "linux/x86_64 cores=8 simd=avx2+fma".toList),
    ("worker_threads".toList, .nat 6)]

def auditObject : Flat := Map.insertAll auditFlat []
def receiptObject : Flat := Map.insertAll receiptFlat []

theorem one_legible : Legible [auditObject, receiptObject] := by decide +kernel

def oneLibrary : Library := flatLibrary [auditObject, receiptObject] one_legible

def oneWorld : World (Option Value) :=
  { idWorld oneId fun _ => none with
    parser := oneLibrary.toParser
    jsonb := fun line => oneLibrary.fromSlice (Utf8.encode line) }

theorem oneAudit_eq : auditFields oneLine 0 = Flat.object auditFlat := rfl

theorem oneReceipt_eq : Server.sampleContext.receiptFields oneSeen = Flat.object receiptFlat := rfl

theorem oneAudit_storable (hfinite : Format.double.isFinite 0 = true) :
    Storable oneWorld oneLibrary .GatewayAudit (auditRecorded oneLine 0 hfinite) := by
  refine ⟨?_, rfl⟩
  show oneLibrary.Line (Map.insertAll (auditFields oneLine 0) [])
  rw [oneAudit_eq, insertAll_object]
  exact flatLibrary_line one_legible (by simp [auditObject])

theorem oneReceipt_storable (hfinite : Format.double.isFinite 0 = true) :
    Storable oneWorld oneLibrary .ReplicaReceipt
      (receiptRecorded Server.sampleContext oneSeen hfinite) := by
  refine ⟨?_, rfl⟩
  show oneLibrary.Line (Map.insertAll (Server.sampleContext.receiptFields oneSeen) [])
  rw [oneReceipt_eq, insertAll_object]
  exact flatLibrary_line one_legible (by simp [receiptObject])

theorem oneAudit_logged : GatewayLine oneLibrary .GatewayAudit
    (jsonlLine oneLibrary (auditFields oneLine 0)) (auditRecorded oneLine 0 (by decide)) :=
  @GatewayLine.audit _ oneLine 0 1 2 _ rfl

/-- The record is accepted and written, and the log is drained. -/
theorem one_logged : ∃ history g, GatewayLog.gatewayLog.Run history g ∧
    .returned .Drained ∈ g.flushes ∧
    (∀ e ∈ history, ∀ line, e.action = .write line → ∃ r,
      GatewayLine oneLibrary .GatewayAudit line r ∧
      Storable oneWorld oneLibrary .GatewayAudit r) ∧
    GatewayLog.accepted history = [jsonlLine oneLibrary (auditFields oneLine 0)] ∧
    nonBlank (Foundation.Text.lines g.file.flatten) =
      [(auditRecorded oneLine 0 (by decide)).line oneLibrary] := by
  have hlogged := oneAudit_logged
  generalize jsonlLine oneLibrary (auditFields oneLine 0) = line at hlogged ⊢
  refine ⟨_, _, .snoc (.snoc (.snoc (.snoc (.snoc (.snoc (.snoc (.snoc (.snoc (.snoc (.snoc (.snoc
    (.nil rfl)
    (@GatewayLog.Step.write _ line))
    (@GatewayLog.Step.send _ 0 line rfl rfl))
    (@GatewayLog.Step.countQueued _ 0 rfl))
    (@GatewayLog.Step.receive _ line [] rfl rfl))
    (@GatewayLog.Step.append _ line rfl))
    (@GatewayLog.Step.countWritten _ rfl))
    GatewayLog.Step.flush)
    (@GatewayLog.Step.take _ 0 rfl rfl))
    (@GatewayLog.Step.dropSender _ 0 rfl))
    (@GatewayLog.Step.finish _ rfl rfl rfl))
    (@GatewayLog.Step.signal _ rfl))
    (@GatewayLog.Step.receiveSignal _ 0 rfl rfl), List.mem_singleton.mpr rfl, ?_, rfl, ?_⟩
  · intro e he other haction
    simp only [List.nil_append, List.cons_append, List.mem_cons, List.not_mem_nil, or_false] at he
    rcases he with rfl | rfl | rfl | rfl | rfl | rfl | rfl | rfl | rfl | rfl | rfl | rfl
    · obtain rfl : line = other := GatewayLog.Action.write.inj haction
      exact ⟨_, hlogged, oneAudit_storable (by decide)⟩
    all_goals cases haction
  · show nonBlank (Foundation.Text.lines [line].flatten) = _
    rw [@flatten_lines _ _ _ _ (fun _ => True) (.cons ⟨hlogged, trivial⟩ .nil),
      nonBlank_contents fun r hr => ?_, List.map_singleton]
    rw [List.mem_singleton.mp hr]
    exact (oneAudit_storable (by decide)).1

theorem one_attributed : (Server.attributedTo oneLibrary Server.sampleContext 0 oneRequest
    Server.healthy).1.status = 200 ∧
    (Server.attributedTo oneLibrary Server.sampleContext 0 oneRequest Server.healthy).2 =
      some (Server.sampleContext.receipt oneSeen) := by
  have hstatus : (Server.attributedTo oneLibrary Server.sampleContext 0 oneRequest
      Server.healthy).1.status = 200 := by decide +kernel
  have hid : (oneRequest.headers.get "x-camelid-request-id").bind toStr = some oneId :=
    Gateway.requestId_upstream [] [104] 1 2
  refine ⟨hstatus, ((Server.attributeLayer_answered oneLibrary Server.sampleContext 0
    (fun _ (u : Unit) => (Server.healthy, u)) oneRequest ()).2.2.2).trans ?_⟩
  rw [if_pos (show Server.sampleContext.receipts = true from rfl), hid]
  exact congrArg (fun status => some (Server.sampleContext.receipt
    ⟨"GET", "/v1/health", status, 0, some oneId⟩)) hstatus

/-- The request is answered, and its receipt is written. -/
theorem one_answered : ∃ h s, (receiptLog oneLibrary Server.sampleContext []).Run h s ∧
    Unfailing h ∧ s.writers.filterMap AppendLog.Writer.pending = [] ∧
    (∃ e ∈ h, e.action = .answer oneRequest Server.healthy 0) ∧
    ∀ e ∈ h, ∀ req inner ts, e.action = .answer req inner ts →
      req = oneRequest ∧ inner = Server.healthy ∧ ts = 0 := by
  have hstart : (receiptLog oneLibrary Server.sampleContext []).Run []
      ⟨[], false, false, []⟩ := .nil rfl
  have hanswered := hstart.snoc
    (@Server.ReceiptStep.answer _ _ _ oneRequest Server.healthy 0 (by decide))
  rw [one_attributed.2] at hanswered
  have htaken := hanswered.snoc (.task (by simp) (.acquire (i := 0) rfl rfl))
  have hopened := htaken.snoc (.task (by simp) (.openFile (i := 0) rfl))
  have hpiece := hopened.snoc (.task (by simp) (@AppendLog.Step.write _ _ _ _ 0 0
    (receiptBytes oneLibrary (Server.sampleContext.receipt oneSeen)).length _ rfl
    (by decide +kernel) (by rw [Nat.zero_add])))
  rw [Nat.zero_add] at hpiece
  have hdone := hpiece.snoc (.task (by simp) (@AppendLog.Step.finish _ _ _ _ 0 _ rfl))
  refine ⟨_, _, hdone, ?_, rfl, ⟨_, List.mem_append_left _ (List.mem_append_left _
    (List.mem_append_left _ (List.mem_append_left _ (List.mem_singleton_self _)))), rfl⟩, ?_⟩
  · intro e he writer died haction
    simp only [List.nil_append, List.cons_append, List.mem_cons, List.not_mem_nil, or_false] at he
    rcases he with rfl | rfl | rfl | rfl | rfl
    all_goals cases haction
  · intro e he req inner ts haction
    simp only [List.nil_append, List.cons_append, List.mem_cons, List.not_mem_nil, or_false] at he
    rcases he with rfl | rfl | rfl | rfl | rfl
    · obtain ⟨rfl, rfl, rfl⟩ := Server.ReceiptAction.answer.inj haction
      exact ⟨rfl, rfl, rfl⟩
    all_goals cases haction

/-- The records of the receipts are the one. -/
theorem one_recorded {h : ReceiptHistory} {s : ReceiptLog}
    (run : (receiptLog oneLibrary Server.sampleContext []).Run h s)
    (hone : ∀ e ∈ h, ∀ req inner ts, e.action = .answer req inner ts →
      req = oneRequest ∧ inner = Server.healthy ∧ ts = 0) {r : Recorded}
    (hr : r ∈ h.filterMap (recordOf oneLibrary Server.sampleContext)) :
    ∃ hfinite, r = receiptRecorded Server.sampleContext oneSeen hfinite := by
  obtain ⟨e, he, hsome⟩ := List.mem_filterMap.mp hr
  obtain ⟨req, inner, ts, haction, -⟩ := answer_of_recordOf hsome
  obtain ⟨rfl, rfl, rfl⟩ := hone e he req inner ts haction
  obtain ⟨seen, hfinite, hrecord, hseen⟩ := recordOf_answer run rfl he haction
  have hid : cameWith oneRequest = some oneId := Gateway.requestId_upstream [] [104] 1 2
  rw [one_attributed.1, hid] at hseen
  obtain rfl : seen = oneSeen := hseen
  exact ⟨hfinite, Option.some.inj (hsome.symm.trans hrecord)⟩

/-- The receipts of one request, ingested. -/
theorem receipt_evidence_one : ∃ h s text summary, ∃ tables : EvidenceStream → _,
    (receiptLog oneLibrary Server.sampleContext []).Run h s ∧ s.file = Utf8.encode text ∧
    Returns (ingestEvidence oneWorld.quiet .ReplicaReceipt text) emptyStore summary tables ∧
    summary.unreadable = 0 := by
  obtain ⟨h, s, run, hwhole, hsettled, -, hone⟩ := one_answered
  have hstorable : ∀ r ∈ h.filterMap (recordOf oneLibrary Server.sampleContext),
      Storable oneWorld oneLibrary .ReplicaReceipt r := by
    intro r hr
    obtain ⟨hfinite, rfl⟩ := one_recorded run hone hr
    exact oneReceipt_storable hfinite
  obtain ⟨text, summary, tables, htext, hreturns, -, hunreadable, -⟩ :=
    @receipt_evidence oneLibrary Server.sampleContext h s _ oneWorld rfl run hwhole hsettled
      hstorable emptyStore
  refine ⟨h, s, text, summary, tables, run, htext, hreturns, ?_⟩
  rw [hunreadable, List.countP_eq_zero]
  intro r hr
  obtain ⟨hfinite, rfl⟩ := one_recorded run hone hr
  simp [receiptRecorded, Recorded.ofFields, oneSeen, oneId, mintRequestId]

/-- The two rows of one request. -/
theorem evidence_joined_one :
    ∃ tables : EvidenceStream → Table (EvidenceRow.lineSha256 (ρ := Option Value)),
      ∃ row ∈ (tables .GatewayAudit).rows, ∃ receipt ∈ (tables .ReplicaReceipt).rows,
        row.requestId = some oneId ∧ receipt.requestId = some oneId ∧
          row.organization = some ['o'] := by
  obtain ⟨history, g, grun, hdrained, hwrites, haccepted, hlines⟩ := one_logged
  obtain ⟨h, s, run, hwhole, hsettled, ⟨e, he, haction⟩, hone⟩ := one_answered
  obtain ⟨text, summary, tables, -, -, hthen⟩ := evidence_joined (w := oneWorld) rfl grun hdrained
    hwrites (fun line hline line' hline' _ => by
      rw [hlines] at hline hline'
      rw [List.mem_singleton.mp hline, List.mem_singleton.mp hline']) rfl run hwhole hsettled
    (fun r hr => by
      obtain ⟨hfinite, rfl⟩ := one_recorded run hone hr
      exact oneReceipt_storable hfinite)
    (fun r hr r' hr' _ => by
      obtain ⟨hfinite, rfl⟩ := one_recorded run hone hr
      obtain ⟨hfinite', rfl⟩ := one_recorded run hone hr'
      rfl)
  obtain ⟨summary', tables', -, hrows, -⟩ := hthen ⟨tables, 0⟩ rfl
  obtain ⟨row, hrow, receipt, hreceipt, hid, hid', horganization, -⟩ := hrows oneLine 0 (by decide)
    (haccepted ▸ List.mem_singleton_self _) (oneAudit_storable (by decide)).1 e he oneRequest
    Server.healthy 0 [] [104] haction rfl
  exact ⟨tables', row, hrow, receipt, hreceipt, hid, hid', horganization⟩

end CamelidEnterprise.PlatformStore
