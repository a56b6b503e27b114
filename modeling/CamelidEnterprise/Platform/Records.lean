import CamelidEnterprise.Foundation.JsonLines
import CamelidEnterprise.Platform.EvidenceRun

/-!
# Camelid Enterprise — records as they are written, and the rows they become

The logs that `ingest_evidence` reads are written elsewhere: a record is an object with a time, a
request id and, for two of the streams, an organization, printed on a line of its own. `Recorded`
is such an object, and `ingest_records` is what becomes of a file of them.
-/

namespace CamelidEnterprise.PlatformStore

open Foundation Foundation.Json

/-- An object that a log was given, with what its row is found by. -/
structure Recorded where
  map : List (Text × Value)
  requestId : Option Str
  organization : Option Str
  ts : Nat
  sorted : Map.Sorted map
  get_ts : Map.get "ts".toList map = some (jsonF64 ts)
  finite : Format.double.isFinite ts = true
  get_requestId : Map.get "request_id".toList map = some (jsonOption requestId)
  get_organization : Map.get "organization".toList map = some (jsonOption organization) ∨
    Map.get "organization".toList map = none ∧ organization = none

/-- The object of these fields. -/
def Recorded.ofFields (fields : List (Text × Value)) (requestId organization : Option Str) (ts : Nat)
    (hnodup : (fields.map Prod.fst).Nodup) (hts : ("ts".toList, jsonF64 ts) ∈ fields)
    (hfinite : Format.double.isFinite ts = true)
    (hid : ("request_id".toList, jsonOption requestId) ∈ fields)
    (horganization : ("organization".toList, jsonOption organization) ∈ fields ∨
      "organization".toList ∉ fields.map Prod.fst ∧ organization = none) : Recorded where
  map := Map.insertAll fields []
  requestId
  organization
  ts
  sorted := Map.sorted_insertAll fields List.Pairwise.nil
  get_ts := (Map.get_insertAll hnodup []).1 _ hts
  finite := hfinite
  get_requestId := (Map.get_insertAll hnodup []).1 _ hid
  get_organization := horganization.imp ((Map.get_insertAll hnodup []).1 _) fun h =>
    ⟨(Map.get_insertAll hnodup []).2 _ h.1, h.2⟩

/-- The line of a record. -/
def Recorded.line (library : Library) (r : Recorded) : Str := library.print (.Object r.map)

/-- The file of some records. -/
def contents (library : Library) (records : List Recorded) : Str :=
  records.flatMap fun r => library.record (.Object r.map)

/-- A stream takes records with this request id. -/
def Takes (stream : EvidenceStream) (requestId : Option Str) : Prop :=
  requestId ≠ some [] ∧ (requestId = none → stream.correlationIsOptional = true)

instance (stream : EvidenceStream) (requestId : Option Str) : Decidable (Takes stream requestId) :=
  inferInstanceAs (Decidable (_ ∧ _))

theorem requestId_jsonOption (stream : EvidenceStream) (id : Option Str) :
    requestId stream (some (jsonOption id)) = if Takes stream id then some id else none := by
  cases id with
  | none =>
    unfold requestId jsonOption Takes
    simp
  | some text =>
    unfold requestId jsonOption Takes
    simp

-- ---------------------------------------------------------------------------
-- One line
-- ---------------------------------------------------------------------------

section Line

variable {ρ : Type} {w : World ρ} {library : Library} {r : Recorded}

/-- A text that was written is read. -/
theorem read_jsonOption {text : Option Str} {doc : Document} (h : Json.Written (jsonOption text) doc) :
    doc.toValue = jsonOption text := by
  cases text with
  | none =>
    cases h
    rfl
  | some text =>
    cases h
    rfl

/-- What the ingestion makes of the line of a record: a row, unless its request id is not one the
stream takes. -/
theorem evidenceKeys_line (hparser : w.parser = library.toParser) (hline : library.Line r.map)
    (stream : EvidenceStream) : ∃ ts, evidenceKeys w stream (r.line library) =
      if Takes stream r.requestId then .ok ⟨r.requestId, r.organization, ts⟩
      else .error "no non-empty string \x60request_id\x60" := by
  obtain ⟨object, hread, hnames⟩ := hline.fromSlice r.sorted
  -- the time comes back as some finite double
  obtain ⟨bits, hts, hfinite⟩ : ∃ bits, Map.get "ts".toList object = some (.Number (.Float bits)) ∧
      Format.double.isFinite bits = true := by
    have hrel := hnames "ts".toList
    rw [r.get_ts, jsonF64, if_pos r.finite] at hrel
    generalize hvalue : Map.get "ts".toList object = value at hrel
    cases hrel with
    | some hdoc =>
      obtain ⟨doc, hwritten, hvalue, hfinite⟩ := hdoc
      cases hwritten with
      | float _ written => exact ⟨written, by rw [hvalue]; rfl, hfinite written rfl⟩
  have hid : Map.get "request_id".toList object = some (jsonOption r.requestId) := by
    have hrel := hnames "request_id".toList
    rw [r.get_requestId] at hrel
    generalize hvalue : Map.get "request_id".toList object = value at hrel
    cases hrel with
    | some hdoc =>
      obtain ⟨doc, hwritten, rfl, -⟩ := hdoc
      rw [read_jsonOption hwritten]
  have horganization : organization (Map.get "organization".toList object) = r.organization := by
    have hrel := hnames "organization".toList
    generalize hvalue : Map.get "organization".toList object = value at hrel
    rcases r.get_organization with hsome | ⟨hnone, habsent⟩
    · rw [hsome] at hrel
      cases hrel with
      | some hdoc =>
        obtain ⟨doc, hwritten, rfl, -⟩ := hdoc
        rw [read_jsonOption hwritten]
        cases r.organization with
        | _ => rfl
    · rw [hnone] at hrel
      cases hrel
      rw [habsent]
      rfl
  refine ⟨bits, ?_⟩
  unfold evidenceKeys Recorded.line
  rw [hparser, hread]
  dsimp only
  rw [hts, hid, requestId_jsonOption, horganization]
  unfold timestamp asF64
  dsimp only
  rw [if_pos hfinite]
  by_cases htakes : Takes stream r.requestId
  · rw [if_pos htakes, if_pos htakes]
  · rw [if_neg htakes, if_neg htakes]

/-- Records on the same line have the same id and organization. -/
theorem same_line (hparser : w.parser = library.toParser) {r' : Recorded}
    (hline : library.Line r.map) (hline' : library.Line r'.map) {stream : EvidenceStream}
    (htakes : Takes stream r.requestId) (hsame : r.line library = r'.line library) :
    r.requestId = r'.requestId ∧ r.organization = r'.organization := by
  obtain ⟨ts, hkeys⟩ := evidenceKeys_line hparser hline stream
  obtain ⟨ts', hkeys'⟩ := evidenceKeys_line hparser hline' stream
  rw [if_pos htakes] at hkeys
  rw [← hsame, hkeys] at hkeys'
  split at hkeys'
  · obtain ⟨hid, horganization, -⟩ := EvidenceKeys.mk.inj (Except.ok.inj hkeys')
    exact ⟨hid, horganization⟩
  · cases hkeys'

/-- The row of a record. -/
def IsRow (w : World ρ) (library : Library) (stream : EvidenceStream) (r : Recorded)
    (row : EvidenceRow ρ) : Prop :=
  row.lineSha256 = w.sha256 (Utf8.encode (r.line library)) ∧ row.requestId = r.requestId ∧
    row.organization = (if stream.hasOrganization then r.organization else none) ∧
    row.record = w.jsonb (r.line library)

theorem fate_line (hparser : w.parser = library.toParser) (hline : library.Line r.map)
    {stream : EvidenceStream} (hrefusal : w.refusal stream (r.line library) = none) :
    (Takes stream r.requestId → ∃ row, w.fate stream (r.line library) = some row ∧
        IsRow w library stream r row) ∧
      (¬Takes stream r.requestId → w.fate stream (r.line library) = none) := by
  obtain ⟨ts, hkeys⟩ := evidenceKeys_line hparser hline stream
  constructor
  · intro htakes
    rw [if_pos htakes] at hkeys
    exact ⟨_, fate_eq_some.mpr ⟨_, hkeys, hrefusal, rfl⟩, rfl, rfl, rfl, rfl⟩
  · intro htakes
    rw [if_neg htakes] at hkeys
    exact fate_of_error hkeys

end Line

-- ---------------------------------------------------------------------------
-- A file
-- ---------------------------------------------------------------------------

section File

variable {ρ : Type} {w : World ρ} {library : Library} {records : List Recorded}
  {stream : EvidenceStream}

theorem nonBlank_contents (hlines : ∀ r ∈ records, library.Line r.map) :
    nonBlank (Foundation.Text.lines (contents library records)) =
      records.map (Recorded.line library) := by
  have hmaps : contents library records =
      (records.map Recorded.map).flatMap fun map => library.record (.Object map) := by
    rw [List.flatMap_map]
    rfl
  rw [hmaps, lines_records fun map hmap => ?_, List.map_map]
  · refine List.filter_eq_self.mpr fun line hline => ?_
    obtain ⟨r, hr, rfl⟩ := List.mem_map.mp hline
    exact decide_eq_true (hlines r hr).trim_ne_nil
  · obtain ⟨r, hr, rfl⟩ := List.mem_map.mp hmap
    exact hlines r hr

/-- As many rows as there are records the stream takes. -/
theorem length_storable_records (hparser : w.parser = library.toParser)
    (hlines : ∀ r ∈ records, library.Line r.map)
    (hrefusal : ∀ r ∈ records, w.refusal stream (r.line library) = none) :
    (w.storable stream (records.map (Recorded.line library))).length =
      records.countP fun r => decide (Takes stream r.requestId) := by
  induction records with
  | nil => rfl
  | cons r records ih =>
    obtain ⟨htaken, hleft⟩ := fate_line hparser (hlines r List.mem_cons_self)
      (hrefusal r List.mem_cons_self)
    have hrest := ih (fun r hr => hlines r (List.mem_cons_of_mem _ hr))
      fun r hr => hrefusal r (List.mem_cons_of_mem _ hr)
    unfold World.storable at hrest ⊢
    rw [List.map_cons, List.filterMap_cons, List.countP_cons]
    by_cases htakes : Takes stream r.requestId
    · obtain ⟨row, hrow, -⟩ := htaken htakes
      rw [hrow, List.length_cons, hrest]
      simp [htakes]
    · rw [hleft htakes, hrest]
      simp [htakes]

/-- The rows of some records are rows of records the stream takes. -/
theorem row_of_storable (hparser : w.parser = library.toParser)
    (hlines : ∀ r ∈ records, library.Line r.map)
    (hrefusal : ∀ r ∈ records, w.refusal stream (r.line library) = none) {row : EvidenceRow ρ}
    (hrow : row ∈ w.storable stream (records.map (Recorded.line library))) :
    ∃ r ∈ records, Takes stream r.requestId ∧ IsRow w library stream r row := by
  obtain ⟨line, hline, hfate⟩ := List.mem_filterMap.mp hrow
  obtain ⟨r, hr, rfl⟩ := List.mem_map.mp hline
  obtain ⟨htaken, hleft⟩ := fate_line hparser (hlines r hr) (hrefusal r hr)
  by_cases htakes : Takes stream r.requestId
  · obtain ⟨row', hrow', hisRow⟩ := htaken htakes
    obtain rfl := Option.some.inj (hrow'.symm.trans hfate)
    exact ⟨r, hr, htakes, hisRow⟩
  · rw [hleft htakes] at hfate
    cases hfate

/-- **A file of records.** Where the database refuses none of them and answers, the ingestion
returns. It counts each record the stream takes as stored or present, and every other one as
unreadable; it leaves the other tables alone, and every row it adds is that of a record. Each
record that is taken has a row under its digest; and where no other line shares the digest and
the table had none under it, that row is the record's. -/
theorem ingest_records (hparser : w.parser = library.toParser)
    (hlines : ∀ r ∈ records, library.Line r.map)
    (hrefusal : ∀ r ∈ records, w.refusal stream (r.line library) = none) (store : EvidenceStore ρ) :
    ∃ summary tables,
      Returns (ingestEvidence w.quiet stream (contents library records)) store summary tables ∧
      summary.stored + summary.alreadyPresent =
        records.countP (fun r => decide (Takes stream r.requestId)) ∧
      summary.stored + summary.alreadyPresent + summary.unreadable = records.length ∧
      (∀ other, other ≠ stream → tables other = store.tables other) ∧
      (∀ row ∈ (tables stream).rows, row ∈ (store.tables stream).rows ∨
        ∃ r ∈ records, Takes stream r.requestId ∧ IsRow w library stream r row) ∧
      ∀ r ∈ records, Takes stream r.requestId →
        (tables stream).find (w.sha256 (Utf8.encode (r.line library))) ≠ none ∧
        ((∀ r' ∈ records, w.sha256 (Utf8.encode (r'.line library)) =
            w.sha256 (Utf8.encode (r.line library)) → r'.line library = r.line library) →
          (store.tables stream).find (w.sha256 (Utf8.encode (r.line library))) = none →
          ∃ row ∈ (tables stream).rows, IsRow w library stream r row) := by
  have hclear : ∀ line ∈ nonBlank (Foundation.Text.lines (contents library records)),
      ¬w.Blocked stream line := by
    rw [nonBlank_contents hlines]
    rintro line hline ⟨-, error, herror, -⟩
    obtain ⟨r, hr, rfl⟩ := List.mem_map.mp hline
    rw [hrefusal r hr] at herror
    cases herror
  have habsorbs := absorbs_ingestEvidence w.quiet stream (contents library records)
  obtain ⟨summary, after, hrun⟩ := habsorbs.returns (fun _ => rfl) hclear store
  obtain ⟨⟨htables, -, hkept, hunreadable⟩, -⟩ := habsorbs.returned hrun
  have hlength := length_storable_records hparser hlines hrefusal
  rw [nonBlank_contents hlines] at htables hkept hunreadable
  have hquiet : w.quiet.storable stream = w.storable stream := rfl
  rw [hquiet, hlength] at hkept hunreadable
  rw [List.length_map] at hunreadable
  simp only [IngestSummary.default, id_eq, Nat.zero_add] at hkept hunreadable
  refine ⟨summary, _, ⟨after, hrun, htables⟩, hkept, by omega,
    fun other hother => Function.update_of_ne hother .., fun row hrow => ?_, fun r hr htakes => ?_⟩
  · rw [offered_self, Table.mem_insertAll] at hrow
    refine hrow.imp id fun hadded => ?_
    exact row_of_storable hparser hlines hrefusal (List.mem_of_find?_eq_some hadded.2)
  obtain ⟨row, hfate, hrow⟩ := (fate_line hparser (hlines r hr) (hrefusal r hr)).1 htakes
  have hmem : row ∈ w.storable stream (records.map (Recorded.line library)) :=
    List.mem_filterMap.mpr ⟨_, List.mem_map_of_mem hr, hfate⟩
  rw [offered_self, hquiet, ← hrow.1]
  refine ⟨Table.find_insertAll_ne_none hmem, fun hdigest hfree => ⟨row, ?_, hrow⟩⟩
  refine Table.mem_insertAll.mpr (.inr ⟨hfree, ?_⟩)
  -- any row under the digest is the row of the line
  cases hfind : (w.storable stream (records.map (Recorded.line library))).find? fun row' =>
      decide (row'.lineSha256 = row.lineSha256) with
  | none => exact absurd (List.find?_eq_none.mp hfind row hmem) (by simp)
  | some other =>
    obtain ⟨line, hline, hother⟩ := List.mem_filterMap.mp (List.mem_of_find?_eq_some hfind)
    obtain ⟨r', hr', rfl⟩ := List.mem_map.mp hline
    have hsame : other.lineSha256 = row.lineSha256 := by simpa using List.find?_some hfind
    rw [row_key hother] at hsame
    rw [hdigest r' hr' hsame, hfate] at hother
    exact hother.symm

end File

end CamelidEnterprise.PlatformStore
