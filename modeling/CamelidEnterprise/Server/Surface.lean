import CamelidEnterprise.Engine.Error
import CamelidEnterprise.Foundation.Http
import CamelidEnterprise.Foundation.Json

/-!
# Camelid Enterprise — the body filter of a replica

`crates/server/src/surface.rs`: a replica serves one model, and a generation request
may name it by any spelling of its file. `pinGenerationToTheServedModel` reads the
body of such a request, refuses every other name and rewrites a spelling to the
engine's own key, so that what reaches the engine names this model or none.

The JSON library is a parameter (`Json.Parser`).
-/

namespace CamelidEnterprise.Surface

open Foundation Foundation.Json Foundation.Http

/-- `REQUEST_BODY_LIMIT` -/
def requestBodyLimit : Nat := 2 * 1024 * 1024

-- ---------------------------------------------------------------------------
-- The served model
-- ---------------------------------------------------------------------------

/-- A path: `to_string_lossy` of the whole, of its last component and of its stem. -/
structure PathText where
  text : Str
  fileName : Option Str
  fileStem : Option Str
deriving DecidableEq, Repr

/-- `ServedModel`: the engine's own key, and every accepted spelling. -/
structure ServedModel where
  id : Str
  aliases : List Str
  /-- an empty name is not a name -/
  named : [] ∉ aliases
  /-- the key is a spelling -/
  own : id ≠ [] → id ∈ aliases

/-- The spellings a path offers. -/
def PathText.spellings (path : PathText) : List Str :=
  path.text :: (path.fileName.toList ++ path.fileStem.toList)

/-- `ServedModel::new` -/
def ServedModel.new (id : Str) (canonical requested : PathText) : ServedModel where
  id
  aliases :=
    (id :: (canonical.spellings ++ requested.spellings)).filter fun name => decide (name ≠ [])
  named := by simp
  own hid := List.mem_filter.mpr ⟨List.mem_cons_self, by simpa using hid⟩

/-- `names_this_model` -/
def ServedModel.namesThisModel (served : ServedModel) (requested : Str) : Bool :=
  served.aliases.contains requested

-- ---------------------------------------------------------------------------
-- Refusals
-- ---------------------------------------------------------------------------

/-- A refusal, as `json_response` prints it. -/
structure Refusal where
  status : Nat
  message : Str
  errorType : String
  param : Option String
  code : String
deriving DecidableEq, Repr

/-- `not_this_replicas_model` -/
def notThisReplicasModel (served : ServedModel) : Refusal where
  status := 404
  message := "this replica serves one model, '".toList ++ served.id ++
    ("', and answers only to that name. Its digest is published on every response, so a " ++
      "request that could repoint it to other weights would make that digest untrue; the model " ++
      "field is therefore checked rather than resolved.").toList
  errorType := "invalid_request_error"
  param := some "model"
  code := "model_not_served"

/-- `uncheckable_request` -/
def uncheckableRequest : Refusal where
  status := 400
  message := ("a generation request body must be a single JSON object and nothing else. This " ++
    "replica checks the model field of every generation request before serving it, so a body " ++
    "it cannot parse in full is refused rather than forwarded unchecked — including one that " ++
    "carries trailing bytes after an otherwise valid object.").toList
  errorType := "invalid_request_error"
  param := none
  code := "unparseable_request_body"

/-- `could_not_rewrite` -/
def couldNotRewrite : Refusal where
  status := 500
  message := ("the request was accepted but could not be rewritten for the engine, and is " ++
    "refused rather than forwarded unchecked. Retry; if this repeats, it is a defect in this " ++
    "replica rather than in the request.").toList
  errorType := "server_error"
  param := none
  code := "request_rewrite_failed"

/-- `oversized_request` -/
def oversizedRequest : Refusal where
  status := 413
  message := "request body exceeds the ".toList ++
    Nat.toDigits 10 (requestBodyLimit / (1024 * 1024)) ++
    (" MiB this replica will read. The model field of a generation request is checked before " ++
      "the request is served, so a body that cannot be read cannot be served — and a body this " ++
      "size would not have been accepted past this point either.").toList
  errorType := "invalid_request_error"
  param := none
  code := "request_too_large"

-- ---------------------------------------------------------------------------
-- The filter
-- ---------------------------------------------------------------------------

/-- `is_generation_path` -/
def isGenerationPath (path : String) : Bool :=
  path = "/v1/completions" || path = "/v1/chat/completions"

/-- The name of the field. -/
def modelKey : Text := ['m', 'o', 'd', 'e', 'l']

/-- What the filter does with a request. -/
inductive Filtered
  | forwarded (request : Request)
  | refused (refusal : Refusal)
deriving DecidableEq, Repr

/-- Whether the field has to be rewritten, if the request may go on at all. -/
def rewriteNeeded (served : ServedModel) (field : Option Value) : Option Bool :=
  match field with
  | none => some false
  | some .Null => some false
  | some (.String requested) =>
    if served.namesThisModel requested then some (decide (requested ≠ served.id)) else none
  | some _ => none

/-- The object with the engine's key for its model. -/
def withServedModel (served : ServedModel) (object : List (Text × Value)) : List (Text × Value) :=
  Map.insert modelKey (.String served.id) object

/-- `pin_generation_to_the_served_model` -/
def pinGenerationToTheServedModel (parser : Parser) (served : ServedModel) (req : Request) :
    Filtered :=
  if ¬(req.method = "POST" ∧ isGenerationPath req.path = true) then .forwarded req
  else
    match toBytes req.body requestBodyLimit with
    | .error _ => .refused oversizedRequest
    | .ok bytes =>
      match parser.fromSlice bytes with
      | some (.Object object) =>
        match rewriteNeeded served (Map.get modelKey object) with
        | none => .refused (notThisReplicasModel served)
        | some false => .forwarded { req with body := .whole bytes }
        | some true =>
          match parser.toVec (.Object (withServedModel served object)) with
          | some rewritten =>
            .forwarded { req with
              headers := req.headers.insert "content-length" (decimal rewritten.length)
              body := .whole rewritten }
          | none => .refused couldNotRewrite
      | _ => .refused uncheckableRequest

-- ---------------------------------------------------------------------------
-- What the filter guarantees
-- ---------------------------------------------------------------------------

/-- A member that names the served model or none. -/
def ServedModel.Admits (served : ServedModel) (field : Document) : Prop :=
  field = .null ∨ field = .string served.id

/-- One JSON object, in which every `model` is `null` or the engine's key, so that it
does not matter which of them a reader takes. -/
def Pinned (parser : Parser) (served : ServedModel) (bytes : List UInt8) : Prop :=
  ∃ members, parser.document bytes = some (.object members) ∧
    ∀ field, (modelKey, field) ∈ members → served.Admits field

/-- The text of an object that is the parsed one but for its model: what the library writes
for it, and reads in what it wrote. -/
def Rewritten (parser : Parser) (served : ServedModel) (bytes rewritten : List UInt8) : Prop :=
  ∃ object object' members, parser.fromSlice bytes = some (.Object object) ∧
    parser.toVec (.Object object') = some rewritten ∧
    parser.document rewritten = some (.object members) ∧
    Written (.Object object') (.object members) ∧
    Map.get modelKey object' = some (.String served.id) ∧
    ∀ name, name ≠ modelKey → Map.get name object' = Map.get name object

/-- What the engine may count on about a request that got through. -/
def Checked (parser : Parser) (served : ServedModel) (req : Request) : Prop :=
  match pinGenerationToTheServedModel parser served req with
  | .refused _ => True
  | .forwarded req' => req'.method = req.method ∧ req'.path = req.path ∧
      Pinned parser served req'.body.bytes ∧
      (req' = req ∨ Rewritten parser served req.body.bytes req'.body.bytes)

/-- The body is an object whose last `model` is `null` or the engine's key, and an
earlier one is something else. -/
def Shadowed (parser : Parser) (served : ServedModel) (body : Body) : Prop :=
  ∃ bytes members last field, toBytes body requestBodyLimit = .ok bytes ∧
    parser.document bytes = some (.object members) ∧
    lastNamed modelKey members = some last ∧
    (last = .null ∨ last = .string served.id ∧ served.namesThisModel served.id = true) ∧
    (modelKey, field) ∈ members ∧ ¬served.Admits field

theorem toValue_eq_object {doc : Document} {map : List (Text × Value)}
    (h : doc.toValue = .Object map) : ∃ members, doc = .object members ∧ map = collect [] members := by
  cases doc with
  | object members =>
    cases h
    exact ⟨members, rfl, rfl⟩
  | _ => cases h

/-- The text behind a parsed object. -/
theorem fromSlice_object {parser : Parser} {bytes : List UInt8} {object : List (Text × Value)}
    (h : parser.fromSlice bytes = some (.Object object)) :
    ∃ members, parser.document bytes = some (.object members) ∧ object = collect [] members := by
  obtain ⟨doc, hdoc, hvalue⟩ := Option.map_eq_some_iff.mp h
  obtain ⟨members, rfl, hobject⟩ := toValue_eq_object hvalue
  exact ⟨members, hdoc, hobject⟩

/-- What the filter looks up is the last `model` of the text. -/
theorem get_model (members : List (Text × Document)) : Map.get modelKey (collect [] members) =
    (lastNamed modelKey members).map Document.toValue := by
  rw [get_collect, Map.get_nil, Option.or_none]

/-- When the filter lets a body through unchanged. -/
theorem rewriteNeeded_eq_false {served : ServedModel} {members : List (Text × Document)} :
    rewriteNeeded served (Map.get modelKey (collect [] members)) = some false ↔
      ∀ last, lastNamed modelKey members = some last →
        last = .null ∨ last = .string served.id ∧ served.namesThisModel served.id = true := by
  rw [get_model]
  cases hlast : lastNamed modelKey members with
  | none => simp [rewriteNeeded]
  | some last =>
    cases last with
    | null => simp [rewriteNeeded, Document.toValue]
    | string requested =>
      by_cases hnames : served.namesThisModel requested = true
      · by_cases hself : requested = served.id
        · subst hself
          simp [rewriteNeeded, Document.toValue, hnames]
        · simp [rewriteNeeded, Document.toValue, hnames, hself]
      · by_cases hself : requested = served.id
        · subst hself
          simp [rewriteNeeded, Document.toValue, hnames]
        · simp [rewriteNeeded, Document.toValue, hnames, hself]
    | _ => simp [rewriteNeeded, Document.toValue]

/-- A name that is rewritten is a spelling of the model. -/
theorem namesThisModel_of_rewriteNeeded {served : ServedModel} {members : List (Text × Document)}
    {requested : Text} (hlast : lastNamed modelKey members = some (.string requested)) {needed : Bool}
    (h : rewriteNeeded served (Map.get modelKey (collect [] members)) = some needed) :
    served.namesThisModel requested = true := by
  rw [get_model, hlast] at h
  by_contra hnames
  exact absurd h (by simp [rewriteNeeded, Document.toValue, hnames])

/-- How a generation request gets through. -/
theorem forwarded_cases {parser : Parser} {served : ServedModel} {req req' : Request}
    (hpost : req.method = "POST") (hpath : isGenerationPath req.path = true)
    (h : pinGenerationToTheServedModel parser served req = .forwarded req') :
    ∃ bytes members, toBytes req.body requestBodyLimit = .ok bytes ∧
      parser.document bytes = some (.object members) ∧
      ((rewriteNeeded served (Map.get modelKey (collect [] members)) = some false ∧ req' = req) ∨
        ∃ rewritten, rewriteNeeded served (Map.get modelKey (collect [] members)) = some true ∧
          parser.toVec (.Object (withServedModel served (collect [] members))) = some rewritten ∧
          req' = { req with
            headers := req.headers.insert "content-length" (decimal rewritten.length)
            body := .whole rewritten }) := by
  unfold pinGenerationToTheServedModel at h
  rw [if_neg (not_not.mpr ⟨hpost, hpath⟩)] at h
  split at h
  · cases h
  · rename_i bytes hbytes
    split at h
    · rename_i object hobject
      obtain ⟨members, hdoc, rfl⟩ := fromSlice_object hobject
      refine ⟨bytes, members, hbytes, hdoc, ?_⟩
      split at h
      · cases h
      · rename_i hsame
        have hbody : Body.whole bytes = req.body := (toBytes_eq_ok.mp hbytes).2.symm
        rw [hbody] at h
        exact Or.inl ⟨hsame, (Filtered.forwarded.inj h).symm⟩
      · rename_i hneeded
        split at h
        · rename_i rewritten hrewritten
          exact Or.inr ⟨rewritten, hneeded, hrewritten, (Filtered.forwarded.inj h).symm⟩
        · cases h
    · cases h

/-- A rewritten body has one `model`, and it is the engine's key. -/
theorem rewritten_pinned {parser : Parser} {served : ServedModel}
    {members : List (Text × Document)} {rewritten : List UInt8}
    (h : parser.toVec (.Object (withServedModel served (collect [] members))) = some rewritten) :
    ∃ members', parser.document rewritten = some (.object members') ∧
      Written (.Object (withServedModel served (collect [] members))) (.object members') ∧
      ∀ field, (modelKey, field) ∈ members' → field = .string served.id := by
  obtain ⟨doc, hdoc, hwritten⟩ := parser.document_toVec h
  cases doc with
  | object members' =>
    refine ⟨members', hdoc, hwritten, fun field hfield => ?_⟩
    obtain ⟨value, hentry, hvalue⟩ := hwritten.entry hfield
    -- the map is sorted, so the only entry of the name is the one that was inserted
    have hsorted : Map.Sorted (withServedModel served (collect [] members)) :=
      (collect_sorted members [] List.Pairwise.nil).insert
    have hget := hsorted.get_eq hentry
    unfold withServedModel at hget
    rw [Map.get_insert, if_pos rfl] at hget
    obtain rfl := Option.some.inj hget
    cases hvalue with
    | string s => rfl
  | _ => cases hwritten

/-- **The body filter**: what reaches the engine from a generation path is one JSON
object that names the served model or none, whichever `model` of it is read, exactly
unless the body hides another name behind a last one that needs no rewriting. -/
theorem pin_checked_iff (parser : Parser) (served : ServedModel) (req : Request)
    (hpost : req.method = "POST") (hpath : isGenerationPath req.path = true) :
    Checked parser served req ↔ ¬Shadowed parser served req.body := by
  constructor
  · rintro hchecked ⟨bytes, members, last, field, hbytes, hdoc, hlast, hadmitted, hfield, hforeign⟩
    -- such a body goes through unchanged
    have hsame : rewriteNeeded served (Map.get modelKey (collect [] members)) = some false := by
      rw [rewriteNeeded_eq_false]
      intro last' hlast'
      rw [hlast] at hlast'
      obtain rfl := Option.some.inj hlast'
      exact hadmitted
    have hvalue : parser.fromSlice bytes = some (.Object (collect [] members)) := by
      unfold Parser.fromSlice
      rw [hdoc]
      rfl
    have hforwarded : pinGenerationToTheServedModel parser served req =
        .forwarded { req with body := .whole bytes } := by
      unfold pinGenerationToTheServedModel
      rw [if_neg (not_not.mpr ⟨hpost, hpath⟩)]
      simp only [hbytes, hvalue, hsame]
    unfold Checked at hchecked
    rw [hforwarded] at hchecked
    obtain ⟨-, -, ⟨members', hdoc', hpinned⟩, -⟩ := hchecked
    obtain rfl : members = members' := by
      have hobjects := hdoc.symm.trans hdoc'
      exact Document.object.inj (Option.some.inj hobjects)
    exact hforeign (hpinned field hfield)
  · intro hplain
    unfold Checked
    cases hfiltered : pinGenerationToTheServedModel parser served req with
    | refused refusal => exact trivial
    | forwarded req' =>
      obtain ⟨bytes, members, hbytes, hdoc, ⟨hsame, rfl⟩ | ⟨rewritten, -, hrewritten, rfl⟩⟩ :=
        forwarded_cases hpost hpath hfiltered
      · refine ⟨rfl, rfl, ⟨members, ?_, fun field hfield => ?_⟩, Or.inl rfl⟩
        · rw [(toBytes_eq_ok.mp hbytes).2]
          exact hdoc
        · by_contra hforeign
          cases hlast : lastNamed modelKey members with
          | none => exact lastNamed_eq_none.mp hlast _ hfield rfl
          | some last =>
            exact hplain ⟨bytes, members, last, field, hbytes, hdoc, hlast,
              rewriteNeeded_eq_false.mp hsame last hlast, hfield, hforeign⟩
      · obtain ⟨members', hdoc', hwritten, hmodel⟩ := rewritten_pinned hrewritten
        refine ⟨rfl, rfl, ⟨members', hdoc', fun field hfield => Or.inr (hmodel field hfield)⟩,
          Or.inr ⟨collect [] members, withServedModel served (collect [] members), members', ?_,
            hrewritten, hdoc', hwritten, ?_, fun name hname => ?_⟩⟩
        · have hbody : req.body.bytes = bytes := by
            rw [(toBytes_eq_ok.mp hbytes).2]
            rfl
          rw [hbody]
          unfold Parser.fromSlice
          rw [hdoc]
          rfl
        · unfold withServedModel
          rw [Map.get_insert, if_pos rfl]
        · unfold withServedModel
          rw [Map.get_insert, if_neg (Ne.symm hname)]

-- ---------------------------------------------------------------------------
-- A replica and three bodies
-- ---------------------------------------------------------------------------

def quoted (s : Text) : List UInt8 := (['"'] ++ s ++ ['"']).map fun c => UInt8.ofNat c.toNat

/-- The text of an object whose members are strings. -/
def objectText (members : List (Text × Text)) : List UInt8 :=
  [123] ++ [44].intercalate (members.map fun member => quoted member.1 ++ [58] ++ quoted member.2) ++
    [125]

def ownName : Text := ['m']
def fileName : Text := ['m', '.', 'g', 'g', 'u', 'f']
def otherFile : Text := ['/', 'x', '.', 'g', 'g', 'u', 'f']

/-- A replica that serves `m`, loaded from `m.gguf`. -/
def sampleServed : ServedModel :=
  .new ownName ⟨fileName, some fileName, some ownName⟩ ⟨fileName, some fileName, some ownName⟩

def ownBody : List UInt8 := objectText [(modelKey, ownName)]
def aliasBody : List UInt8 := objectText [(modelKey, fileName)]
def shadowedBody : List UInt8 := objectText [(modelKey, otherFile), (modelKey, ownName)]

/-- What a JSON library reads in these bodies and in the strings in them. -/
def sampleDocument (body : List UInt8) : Option Document :=
  if body = ownBody then some (.object [(modelKey, .string ownName)])
  else if body = aliasBody then some (.object [(modelKey, .string fileName)])
  else if body = shadowedBody then
    some (.object [(modelKey, .string otherFile), (modelKey, .string ownName)])
  else if body = quoted ownName then some (.string ownName)
  else if body = quoted fileName then some (.string fileName)
  else if body = quoted otherFile then some (.string otherFile)
  else none

def sampleEntries (body : List UInt8) : Option (List (Text × List UInt8)) :=
  if body = ownBody then some [(modelKey, quoted ownName)]
  else if body = aliasBody then some [(modelKey, quoted fileName)]
  else if body = shadowedBody then some [(modelKey, quoted otherFile), (modelKey, quoted ownName)]
  else none

def sampleToVec : Value → Option (List UInt8)
  | .Object [(name, .String s)] => if name = modelKey ∧ s = ownName then some ownBody else none
  | _ => none

theorem sampleDocument_strings : sampleDocument (quoted ownName) = some (.string ownName) ∧
    sampleDocument (quoted fileName) = some (.string fileName) ∧
    sampleDocument (quoted otherFile) = some (.string otherFile) := ⟨rfl, rfl, rfl⟩

def sampleParser : Parser where
  document := sampleDocument
  entries := sampleEntries
  toVec := sampleToVec
  entries_object := by
    intro body members h
    obtain ⟨hown, hfile, hother⟩ := sampleDocument_strings
    unfold sampleDocument at h
    split at h
    · rename_i hbody
      obtain rfl := Document.object.inj (Option.some.inj h)
      exact ⟨_, by rw [hbody]; rfl, .cons ⟨rfl, hown⟩ .nil⟩
    split at h
    · rename_i hbody
      obtain rfl := Document.object.inj (Option.some.inj h)
      exact ⟨_, by rw [hbody]; rfl, .cons ⟨rfl, hfile⟩ .nil⟩
    split at h
    · rename_i hbody
      obtain rfl := Document.object.inj (Option.some.inj h)
      exact ⟨_, by rw [hbody]; rfl, .cons ⟨rfl, hother⟩ (.cons ⟨rfl, hown⟩ .nil)⟩
    split at h
    · cases h
    split at h
    · cases h
    split at h
    · cases h
    · cases h
  entries_other := by
    intro body doc h hother
    unfold sampleDocument at h
    split at h
    · exact absurd (Option.some.inj h).symm (hother _)
    split at h
    · exact absurd (Option.some.inj h).symm (hother _)
    split at h
    · exact absurd (Option.some.inj h).symm (hother _)
    · rename_i hown halias hshadowed
      unfold sampleEntries
      rw [if_neg hown, if_neg halias, if_neg hshadowed]
  document_toVec := by
    intro value body h
    unfold sampleToVec at h
    split at h
    · split at h
      · rename_i hvalue
        obtain ⟨rfl, rfl⟩ := hvalue
        obtain rfl := Option.some.inj h
        exact ⟨_, rfl, .object rfl (.cons (.string _) .nil)⟩
      · cases h
    · cases h

def sampleRequest (body : List UInt8) : Request :=
  ⟨"POST", "/v1/completions", [("content-type", [])], .whole body⟩

/-- A body that spells the file's name is rewritten, and what goes on is checked. -/
theorem pin_checked_alias :
    (pinGenerationToTheServedModel sampleParser sampleServed (sampleRequest aliasBody) =
      .forwarded { sampleRequest aliasBody with
        headers := (sampleRequest aliasBody).headers.insert "content-length" (decimal 13)
        body := .whole ownBody }) ∧
    Checked sampleParser sampleServed (sampleRequest aliasBody) := by
  refine ⟨rfl, (pin_checked_iff _ _ (sampleRequest aliasBody) rfl rfl).mpr ?_⟩
  rintro ⟨bytes, members, last, field, hbytes, hdoc, hlast, hadmitted, -⟩
  obtain rfl : aliasBody = bytes := Except.ok.inj hbytes
  obtain rfl : [(modelKey, .string fileName)] = members := Document.object.inj (Option.some.inj hdoc)
  obtain rfl : Document.string fileName = last := Option.some.inj hlast
  rcases hadmitted with hnull | ⟨hown, -⟩
  · cases hnull
  · exact absurd (Document.string.inj hown) (by decide)

/-- Not every body that gets through names the served model alone: `m` comes last,
another file first, and the bytes go on as they came. -/
theorem shadowed_forwarded : ¬∀ (parser : Parser) (served : ServedModel) (req : Request),
    req.method = "POST" → isGenerationPath req.path = true → Checked parser served req := by
  intro hall
  have hchecked := hall sampleParser sampleServed (sampleRequest shadowedBody) rfl rfl
  have hforwarded : pinGenerationToTheServedModel sampleParser sampleServed
      (sampleRequest shadowedBody) = .forwarded (sampleRequest shadowedBody) := rfl
  unfold Checked at hchecked
  rw [hforwarded] at hchecked
  obtain ⟨-, -, ⟨members, hdoc, hpinned⟩, -⟩ := hchecked
  obtain rfl : [(modelKey, .string otherFile), (modelKey, .string ownName)] = members :=
    Document.object.inj (Option.some.inj hdoc)
  rcases hpinned (.string otherFile) List.mem_cons_self with hnull | hown
  · cases hnull
  · exact absurd (Document.string.inj hown) (by decide)

end CamelidEnterprise.Surface
