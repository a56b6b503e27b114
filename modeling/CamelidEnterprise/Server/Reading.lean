import CamelidEnterprise.Foundation.JsonTree
import CamelidEnterprise.Server.Handlers

/-!
# Camelid Enterprise — what a request is read as

The derived readers of the handlers, seen from the JSON value that was sent. Each kind
of field is a predicate on values (`IsString`, `IsU32`, `RoundsToZero`), and each reader
takes exactly the values of its kind; a field is absent, or there once (`Optional`,
`Required`).

* `readField_optional`, `readField_required` — reading a field;
* `reads_message`, `reads_messages` — reading messages;
* `payload_eq_ok` — reading a request.
-/

namespace CamelidEnterprise.Server

open Foundation Foundation.Json Foundation.Text

-- ---------------------------------------------------------------------------
-- Kinds of values
-- ---------------------------------------------------------------------------

/-- A member that is absent, or there once, `null` or as the predicate says. -/
def Optional (P : Tree → Prop) (name : Text) (members : List (Text × Tree)) : Prop :=
  valuesOf name members = [] ∨ ∃ value, valuesOf name members = [value] ∧ (value = .null ∨ P value)

/-- A member that is there once, as the predicate says. -/
def Required (P : Tree → Prop) (name : Text) (members : List (Text × Tree)) : Prop :=
  ∃ value, valuesOf name members = [value] ∧ P value

def IsString (value : Tree) : Prop := ∃ text, value = .string text

def IsBool (value : Tree) : Prop := ∃ b, value = .bool b

/-- A number of digits only that fits 32 bits. -/
def IsU32 (value : Tree) : Prop := ∃ n : Numeral, value = .number n ∧ n.Plain ∧ n.whole < 2 ^ 32

/-- An object with exactly the members of a message. -/
def IsMessageObject (item : Tree) (message : ChatMessage) : Prop :=
  ∃ members, item = .object members ∧
    (∀ member ∈ members, member.1 = "role".toList ∨ member.1 = "content".toList) ∧
    valuesOf "role".toList members = [.string message.role] ∧
    valuesOf "content".toList members = [.string message.content]

/-- A number that an `f32` rounds to zero. -/
def RoundsToZero (reader : Reader) (value : Tree) : Prop :=
  ∃ n read, value = .number n ∧ reader.number n = some read ∧ isNonzeroF32 read = false

/-- A message, or the array of its two strings. -/
def IsMessage (item : Tree) (message : ChatMessage) : Prop :=
  IsMessageObject item message ∨ item = .array [.string message.role, .string message.content]

/-- The payload of a handler: the reader of its request on the value that was sent. What
the extractor says of a value it cannot read is its own affair. -/
def payload {α : Type} (reader : Reader) (rejection : String)
    (read : List (Text × Document) → Option α) (body : Tree) : Except String α :=
  match body.document reader reader.nesting with
  | some (.object members) =>
    match read members with
    | some request => .ok request
    | none => .error rejection
  | _ => .error rejection

/-- It is what the extractor gives where the body is a text of that value. -/
theorem extract_eq_payload {α : Type} {extractor : Extractor} {parser : Parser} {reader : Reader}
    {read : List (Text × Document) → Option α} {req : Http.Request} {body : Tree}
    (hjson : extractor.isJson req.headers = true)
    (hbody : parser.document req.body.bytes = body.document reader reader.nesting) :
    extractor.extract parser read req = payload reader (extractor.rejection req) read body := by
  unfold Extractor.extract payload
  rw [if_pos hjson]
  generalize parser.document req.body.bytes = parsed at hbody ⊢
  subst hbody
  rcases body.document reader reader.nesting with _ | doc
  · rfl
  · cases doc with
    | _ => rfl

-- ---------------------------------------------------------------------------
-- Reading one member
-- ---------------------------------------------------------------------------

section Members

variable {reader : Reader} {levels : Nat} {members : List (Text × Tree)}
  {docs : List (Text × Document)} {α : Type} {read : Document → Option α}

/-- A field is read off the values of its name. -/
theorem readField_eq (name : Text) :
    readField read name docs =
      match valuesOf name docs with
      | [] => some none
      | [.null] => some none
      | [value] => (read value).map some
      | _ => none := by
  unfold readField valuesOf
  generalize (docs.filter fun member => decide (member.1 = name)) = found
  rcases found with _ | ⟨⟨key, value⟩, _ | ⟨second, rest⟩⟩
  · rfl
  · cases value with
    | _ => rfl
  · obtain ⟨key', value'⟩ := second
    cases value with
    | _ => rfl

/-- What becomes of the values of a name. -/
theorem readField_cases (hmembers : List.Forall₂ (ReadsMember reader levels) members docs)
    (name : Text) :
    (valuesOf name members = [] ∨ valuesOf name members = [.null]) ∧
        readField read name docs = some none ∨
      (∃ value doc, valuesOf name members = [value] ∧ value ≠ .null ∧
        value.document reader levels = some doc ∧
        readField read name docs = (read doc).map some) ∨
      2 ≤ (valuesOf name members).length ∧ readField read name docs = none := by
  have hvalues := valuesOf_reads hmembers name
  rw [readField_eq]
  generalize valuesOf name members = values at hvalues ⊢
  generalize valuesOf name docs = readings at hvalues ⊢
  cases hvalues with
  | nil => exact Or.inl ⟨Or.inl rfl, rfl⟩
  | @cons value doc values readings hfirst hlater =>
    cases hlater with
    | nil =>
      by_cases hnull : doc = .null
      · obtain rfl := hnull
        obtain rfl := document_eq_null.mp hfirst
        exact Or.inl ⟨Or.inr rfl, rfl⟩
      · refine Or.inr (Or.inl ⟨value, doc, rfl, ?_, hfirst, ?_⟩)
        · rintro rfl
          exact hnull (Option.some.inj (hfirst.symm.trans (document_eq_null.mpr rfl)))
        · cases doc with
          | null => exact absurd rfl hnull
          | _ => rfl
    | cons _ _ =>
      refine Or.inr (Or.inr ⟨?_, ?_⟩)
      · simp
      · cases doc with
        | _ => rfl

variable {P : Tree → Prop} {Q : α → Prop}

/-- An optional field is read, and read as the predicate says. -/
theorem readField_optional (hmembers : List.Forall₂ (ReadsMember reader levels) members docs)
    (hread : ∀ value doc, value ≠ .null → value.document reader levels = some doc →
      ((∃ a, read doc = some a ∧ Q a) ↔ P value)) (name : Text) :
    (∃ field, readField read name docs = some field ∧ ∀ a, field = some a → Q a) ↔
      Optional P name members := by
  unfold Optional
  rcases readField_cases hmembers name with ⟨habsent, hfield⟩ |
    ⟨value, doc, hvalue, hne, hdoc, hfield⟩ | ⟨hrepeated, hfield⟩
  · refine ⟨fun _ => ?_, fun _ => ⟨none, hfield, fun _ h => by cases h⟩⟩
    rcases habsent with hnone | hnull
    · exact Or.inl hnone
    · exact Or.inr ⟨.null, hnull, Or.inl rfl⟩
  · rw [hfield, hvalue]
    constructor
    · rintro ⟨field, h, hQ⟩
      obtain ⟨a, ha, rfl⟩ := Option.map_eq_some_iff.mp h
      exact Or.inr ⟨value, rfl, Or.inr ((hread value doc hne hdoc).mp ⟨a, ha, hQ a rfl⟩)⟩
    · rintro (h | ⟨_, ⟨⟩, hnull | hP⟩)
      · cases h
      · exact absurd hnull hne
      obtain ⟨a, ha, hQ⟩ := (hread value doc hne hdoc).mpr hP
      refine ⟨some a, Option.map_eq_some_iff.mpr ⟨a, ha, rfl⟩, ?_⟩
      rintro _ ⟨⟩
      exact hQ
  · rw [hfield]
    constructor
    · rintro ⟨field, h, -⟩
      cases h
    · rintro (h | ⟨value, h, -⟩)
      · rw [h] at hrepeated
        exact absurd hrepeated (by simp)
      · rw [h] at hrepeated
        exact absurd hrepeated (by simp)

/-- So is a field that is needed. -/
theorem readField_required (hmembers : List.Forall₂ (ReadsMember reader levels) members docs)
    (hread : ∀ value doc, value ≠ .null → value.document reader levels = some doc →
      ((∃ a, read doc = some a ∧ Q a) ↔ P value)) (hnull : ¬P .null) (name : Text) :
    (∃ a, readField read name docs = some (some a) ∧ Q a) ↔ Required P name members := by
  unfold Required
  rcases readField_cases hmembers name with ⟨habsent, hfield⟩ |
    ⟨value, doc, hvalue, hne, hdoc, hfield⟩ | ⟨hrepeated, hfield⟩
  · rw [hfield]
    constructor
    · rintro ⟨a, h, -⟩
      cases h
    · rintro ⟨value, h, hP⟩
      rcases habsent with hnone | hnone
      · rw [hnone] at h
        cases h
      · rw [hnone] at h
        cases h
        exact absurd hP hnull
  · rw [hfield, hvalue]
    constructor
    · rintro ⟨a, h, hQ⟩
      obtain ⟨_, ha, ⟨⟩⟩ := Option.map_eq_some_iff.mp h
      exact ⟨value, rfl, (hread value doc hne hdoc).mp ⟨a, ha, hQ⟩⟩
    · rintro ⟨_, ⟨⟩, hP⟩
      obtain ⟨a, ha, hQ⟩ := (hread value doc hne hdoc).mpr hP
      exact ⟨a, Option.map_eq_some_iff.mpr ⟨a, ha, rfl⟩, hQ⟩
  · rw [hfield]
    constructor
    · rintro ⟨a, h, -⟩
      cases h
    · rintro ⟨value, h, -⟩
      rw [h] at hrepeated
      exact absurd hrepeated (by simp)

end Members

-- ---------------------------------------------------------------------------
-- Reading one value
-- ---------------------------------------------------------------------------

theorem readString_eq_some {doc : Document} {s : Text} :
    readString doc = some s ↔ doc = .string s := by
  cases doc with
  | _ => simp [readString]

theorem readBool_eq_some {doc : Document} {b : Bool} : readBool doc = some b ↔ doc = .bool b := by
  cases doc with
  | _ => simp [readBool]

theorem readNumber_eq_some {doc : Document} {n : Number} :
    readNumber doc = some n ↔ doc = .number n := by
  cases doc with
  | _ => simp [readNumber]

theorem readU32_eq_some {doc : Document} {n : Nat} :
    readU32 doc = some n ↔ doc = .number (.PosInt n) ∧ n < 2 ^ 32 := by
  cases doc with
  | number number =>
    cases number with
    | PosInt m =>
      rw [readU32]
      split
      · rename_i hm
        simp only [Option.some.injEq, Document.number.injEq, Number.PosInt.injEq]
        constructor
        · rintro rfl
          exact ⟨rfl, hm⟩
        · exact fun h => h.1
      · rename_i hm
        simp only [reduceCtorEq, Document.number.injEq, Number.PosInt.injEq, false_iff]
        rintro ⟨rfl, h⟩
        exact hm h
    | _ => simp [readU32]
  | _ => simp [readU32]

section Values

variable {reader : Reader} {levels : Nat} {value : Tree} {doc : Document}

theorem reads_text (hdoc : value.document reader levels = some doc) (text : Text) :
    (∃ a, readString doc = some a ∧ a = text) ↔ value = .string text := by
  rw [exists_eq_right, readString_eq_some]
  constructor
  · rintro rfl
    exact document_eq_string.mp hdoc
  · intro h
    exact Option.some.inj (hdoc.symm.trans (document_eq_string.mpr h))

theorem reads_string (hdoc : value.document reader levels = some doc) :
    (∃ a, readString doc = some a ∧ True) ↔ IsString value := by
  constructor
  · rintro ⟨text, h, -⟩
    exact ⟨text, (reads_text hdoc text).mp ⟨text, h, rfl⟩⟩
  · rintro ⟨text, h⟩
    obtain ⟨_, hread, rfl⟩ := (reads_text hdoc text).mpr h
    exact ⟨_, hread, trivial⟩

theorem reads_bool (hdoc : value.document reader levels = some doc) :
    (∃ a, readBool doc = some a ∧ True) ↔ IsBool value := by
  constructor
  · rintro ⟨b, h, -⟩
    obtain rfl := readBool_eq_some.mp h
    exact ⟨b, document_eq_bool.mp hdoc⟩
  · rintro ⟨b, h⟩
    refine ⟨b, readBool_eq_some.mpr ?_, trivial⟩
    exact Option.some.inj (hdoc.symm.trans (document_eq_bool.mpr h))

theorem reads_u32 (hdoc : value.document reader levels = some doc) :
    (∃ a, readU32 doc = some a ∧ True) ↔ IsU32 value := by
  constructor
  · rintro ⟨n, hn, -⟩
    obtain ⟨rfl, hlt⟩ := readU32_eq_some.mp hn
    obtain ⟨numeral, rfl, hread⟩ := document_eq_number.mp hdoc
    obtain ⟨hplain, rfl⟩ := reader.number_posInt numeral n hread
    exact ⟨numeral, rfl, hplain, hlt⟩
  · rintro ⟨numeral, rfl, hplain, hlt⟩
    have hread := reader.number_plain numeral hplain (by omega)
    refine ⟨numeral.whole, readU32_eq_some.mpr ⟨?_, hlt⟩, trivial⟩
    exact Option.some.inj (hdoc.symm.trans (document_eq_number.mpr ⟨numeral, rfl, hread⟩))

theorem reads_temperature (hdoc : value.document reader levels = some doc) :
    (∃ a, readNumber doc = some a ∧ isNonzeroF32 a = false) ↔ RoundsToZero reader value := by
  constructor
  · rintro ⟨n, hn, hzero⟩
    obtain rfl := readNumber_eq_some.mp hn
    obtain ⟨numeral, rfl, hread⟩ := document_eq_number.mp hdoc
    exact ⟨numeral, n, rfl, hread, hzero⟩
  · rintro ⟨numeral, n, rfl, hread, hzero⟩
    refine ⟨n, readNumber_eq_some.mpr ?_, hzero⟩
    exact Option.some.inj (hdoc.symm.trans (document_eq_number.mpr ⟨numeral, rfl, hread⟩))

/-- A field that is the string it is. -/
theorem readField_text {members : List (Text × Tree)} {docs : List (Text × Document)}
    (hmembers : List.Forall₂ (ReadsMember reader levels) members docs) (name text : Text) :
    readField readString name docs = some (some text) ↔
      valuesOf name members = [.string text] := by
  have h := readField_required (P := (· = .string text)) (Q := (· = text)) hmembers
    (fun value doc _ hdoc => reads_text hdoc text) (by simp) name
  simpa [Required] using h

end Values

-- ---------------------------------------------------------------------------
-- Reading messages
-- ---------------------------------------------------------------------------

theorem readChatMessage_object {docs : List (Text × Document)} {message : ChatMessage} :
    readChatMessage (.object docs) = some message ↔
      readField readString "role".toList docs = some (some message.role) ∧
        readField readString "content".toList docs = some (some message.content) ∧
        ∀ member ∈ docs, member.1 = "role".toList ∨ member.1 = "content".toList := by
  have hplain : (docs.all fun member =>
      member.1 = "role".toList || member.1 = "content".toList) = true ↔
        ∀ member ∈ docs, member.1 = "role".toList ∨ member.1 = "content".toList := by
    simp only [List.all_eq_true, Bool.or_eq_true, decide_eq_true_eq]
  rw [readChatMessage, ← hplain]
  constructor
  · intro h
    obtain ⟨roleField, hrole, h⟩ := Option.bind_eq_some_iff.mp h
    obtain ⟨contentField, hcontent, h⟩ := Option.bind_eq_some_iff.mp h
    dsimp only at h
    obtain ⟨role, hsome, h⟩ := Option.bind_eq_some_iff.mp h
    obtain ⟨content, hsome', h⟩ := Option.bind_eq_some_iff.mp h
    split at h
    · rename_i hall
      obtain rfl := Option.some.inj h
      exact ⟨hsome ▸ hrole, hsome' ▸ hcontent, hall⟩
    · cases h
  · rintro ⟨hrole, hcontent, hall⟩
    refine Option.bind_eq_some_iff.mpr ⟨_, hrole, ?_⟩
    refine Option.bind_eq_some_iff.mpr ⟨_, hcontent, ?_⟩
    refine Option.bind_eq_some_iff.mpr ⟨_, rfl, Option.bind_eq_some_iff.mpr ⟨_, rfl, ?_⟩⟩
    rw [if_pos hall]

theorem readChatMessage_array {docs : List Document} {message : ChatMessage} :
    readChatMessage (.array docs) = some message ↔
      docs = [.string message.role, .string message.content] := by
  unfold readChatMessage
  split
  · rename_i heq
    cases heq
  · rename_i role content heq
    obtain rfl := Document.array.inj heq
    constructor
    · intro h
      obtain rfl := Option.some.inj h
      rfl
    · intro h
      simp only [List.cons.injEq, Document.string.injEq, and_true] at h
      rw [h.1, h.2]
  · rename_i hother
    refine ⟨fun h => (by cases h), ?_⟩
    rintro rfl
    exact absurd rfl (hother _ _)

theorem readChatMessage_other {doc : Document} (hobject : ∀ docs, doc ≠ .object docs)
    (harray : ∀ docs, doc ≠ .array docs) : readChatMessage doc = none := by
  cases doc with
  | object docs => exact absurd rfl (hobject docs)
  | array docs => exact absurd rfl (harray docs)
  | _ => rfl

section Messages

variable {reader : Reader} {levels : Nat}

theorem reads_message {item : Tree} {doc : Document}
    (hdoc : item.document reader (levels + 1) = some doc) (message : ChatMessage) :
    readChatMessage doc = some message ↔ IsMessage item message := by
  constructor
  · intro h
    cases doc with
    | object docs =>
      obtain ⟨members, rfl, hmembers⟩ := document_eq_object.mp hdoc
      obtain ⟨hrole, hcontent, hnames⟩ := readChatMessage_object.mp h
      refine Or.inl ⟨members, rfl, ?_, (readField_text hmembers _ _).mp hrole,
        (readField_text hmembers _ _).mp hcontent⟩
      intro member hmember
      obtain ⟨doc, hmem, hname, -⟩ := forall₂_mem_right hmembers.flip hmember
      rw [hname]
      exact hnames doc hmem
    | array docs =>
      obtain ⟨items, rfl, hitems⟩ := document_eq_array.mp hdoc
      obtain rfl := readChatMessage_array.mp h
      obtain ⟨role, later, hrole, hlater, rfl⟩ := List.forall₂_cons_right_iff.mp hitems
      obtain ⟨content, none', hcontent, hnone, rfl⟩ := List.forall₂_cons_right_iff.mp hlater
      obtain rfl := List.forall₂_nil_right_iff.mp hnone
      rw [document_eq_string.mp hrole, document_eq_string.mp hcontent]
      exact Or.inr rfl
    | _ =>
      rw [readChatMessage_other (by simp) (by simp)] at h
      cases h
  · rintro (⟨members, rfl, hnames, hrole, hcontent⟩ | rfl)
    · rw [document_object] at hdoc
      obtain ⟨docs, hread, rfl⟩ := Option.map_eq_some_iff.mp hdoc
      have hmembers := memberDocuments_eq_some.mp hread
      refine readChatMessage_object.mpr ⟨(readField_text hmembers _ _).mpr hrole,
        (readField_text hmembers _ _).mpr hcontent, ?_⟩
      intro doc hdoc
      obtain ⟨member, hmem, hname, -⟩ := forall₂_mem_right hmembers hdoc
      rw [← hname]
      exact hnames member hmem
    · have hpair : (Tree.array [.string message.role, .string message.content]).document reader
          (levels + 1) = some (.array [.string message.role, .string message.content]) := by
        rw [document_array]
        rfl
      obtain rfl := Option.some.inj (hdoc.symm.trans hpair)
      exact readChatMessage_array.mpr rfl

theorem readChatMessages_array {docs : List Document} {messages : List ChatMessage} :
    readChatMessages (.array docs) = some messages ↔
      List.Forall₂ (fun doc message => readChatMessage doc = some message) docs messages :=
  mapM_eq_some

/-- The messages of an array, one by one. -/
theorem reads_messages {value : Tree} {doc : Document}
    (hdoc : value.document reader (levels + 2) = some doc) (messages : List ChatMessage) :
    readChatMessages doc = some messages ↔
      ∃ items, value = .array items ∧ List.Forall₂ IsMessage items messages := by
  have hmessage : ∀ (item : Tree) (doc : Document) (message : ChatMessage),
      item.document reader (levels + 1) = some doc →
      (readChatMessage doc = some message ↔ IsMessage item message) :=
    fun item doc message hitem => reads_message hitem message
  constructor
  · intro h
    cases doc with
    | array docs =>
      obtain ⟨items, rfl, hitems⟩ := document_eq_array.mp hdoc
      exact ⟨items, rfl, (forall₂_through hmessage hitems).mp (readChatMessages_array.mp h)⟩
    | _ => cases h
  · rintro ⟨items, rfl, hmessages⟩
    rw [document_array] at hdoc
    obtain ⟨docs, hread, rfl⟩ := Option.map_eq_some_iff.mp hdoc
    exact readChatMessages_array.mpr
      ((forall₂_through hmessage (documents_eq_some.mp hread)).mpr hmessages)

end Messages

-- ---------------------------------------------------------------------------
-- Reading a request
-- ---------------------------------------------------------------------------

section Requests

variable {reader : Reader} {levels : Nat} {members : List (Text × Tree)}

/-- A value of a field can be read where every value of its kind can. -/
theorem Optional.readable {P : Tree → Prop} {name : Text} (h : Optional P name members)
    (hP : ∀ value, P value → ∃ doc, value.document reader levels = some doc) {value : Tree}
    (hmem : (name, value) ∈ members) : ∃ doc, value.document reader levels = some doc := by
  have hvalue := mem_valuesOf.mpr hmem
  rcases h with hnone | ⟨only, hone, hkind⟩
  · rw [hnone] at hvalue
    cases hvalue
  · rw [hone] at hvalue
    obtain rfl := List.mem_singleton.mp hvalue
    rcases hkind with rfl | hkind
    · exact ⟨.null, document_eq_null.mpr rfl⟩
    · exact hP value hkind

theorem Required.readable {P : Tree → Prop} {name : Text} (h : Required P name members)
    (hP : ∀ value, P value → ∃ doc, value.document reader levels = some doc) {value : Tree}
    (hmem : (name, value) ∈ members) : ∃ doc, value.document reader levels = some doc := by
  obtain ⟨only, hone, hkind⟩ := h
  exact Optional.readable (Or.inr ⟨only, hone, Or.inr hkind⟩) hP hmem

theorem readable_string (value : Tree) (h : IsString value) :
    ∃ doc, value.document reader levels = some doc := by
  obtain ⟨text, rfl⟩ := h
  exact ⟨.string text, rfl⟩

theorem readable_bool (value : Tree) (h : IsBool value) :
    ∃ doc, value.document reader levels = some doc := by
  obtain ⟨b, rfl⟩ := h
  exact ⟨.bool b, rfl⟩

theorem readable_u32 (value : Tree) (h : IsU32 value) :
    ∃ doc, value.document reader levels = some doc := by
  obtain ⟨numeral, rfl, hplain, hlt⟩ := h
  exact ⟨_, document_eq_number.mpr ⟨numeral, rfl, reader.number_plain numeral hplain (by omega)⟩⟩

theorem readable_number (value : Tree) (h : RoundsToZero reader value) :
    ∃ doc, value.document reader levels = some doc := by
  obtain ⟨numeral, n, rfl, hread, -⟩ := h
  exact ⟨_, document_eq_number.mpr ⟨numeral, rfl, hread⟩⟩

/-- A message nests two levels at most. -/
theorem readable_message {item : Tree} {message : ChatMessage} (h : IsMessage item message) :
    ∃ doc, item.document reader (levels + 1) = some doc := by
  rcases h with ⟨members, rfl, hnames, hrole, hcontent⟩ | rfl
  · have hread : ∀ member ∈ members, ∃ doc, member.2.document reader levels = some doc := by
      intro member hmember
      have hvalue : ∀ name text, member.1 = name → valuesOf name members = [.string text] →
          ∃ doc, member.2.document reader levels = some doc := by
        intro name text hname hone
        have hmem : member.2 ∈ valuesOf name members :=
          mem_valuesOf.mpr (by rw [← hname]; exact hmember)
        rw [hone] at hmem
        rw [List.mem_singleton.mp hmem]
        exact ⟨_, rfl⟩
      rcases hnames member hmember with hname | hname
      · exact hvalue _ _ hname hrole
      · exact hvalue _ _ hname hcontent
    obtain ⟨docs, hdocs⟩ := exists_readsMember hread
    exact ⟨.object docs, document_eq_object.mpr ⟨members, rfl, hdocs⟩⟩
  · rw [document_array]
    exact ⟨_, rfl⟩

/-- A map is empty when nothing was put into it. -/
theorem collect_eq_nil {docs : List (Text × Document)} : collect [] docs = [] ↔ docs = [] := by
  constructor
  · intro h
    rcases docs with _ | ⟨first, rest⟩
    · rfl
    · have hget := get_collect first.1 (first :: rest) []
      rw [h, Map.get_nil] at hget
      have hnone : lastNamed first.1 (first :: rest) = none := by
        rcases hlast : lastNamed first.1 (first :: rest) with _ | last
        · rfl
        · rw [hlast] at hget
          cases hget
      exact absurd rfl (lastNamed_eq_none.mp hnone first List.mem_cons_self)
  · rintro rfl
    rfl

theorem unsupported_eq_nil {known : List Text} {docs : List (Text × Document)} :
    unsupported known docs = [] ↔ ∀ doc ∈ docs, doc.1 ∈ known := by
  rw [unsupported, List.map_eq_nil_iff, collect_eq_nil, List.filter_eq_nil_iff]
  simp

/-- The names of members survive reading. -/
theorem known_iff {docs : List (Text × Document)} {known : List Text}
    (hmembers : List.Forall₂ (ReadsMember reader levels) members docs) :
    (∀ doc ∈ docs, doc.1 ∈ known) ↔ ∀ member ∈ members, member.1 ∈ known := by
  constructor
  · intro h member hmember
    obtain ⟨doc, hdoc, hname, -⟩ := forall₂_mem_right hmembers.flip hmember
    rw [hname]
    exact h doc hdoc
  · intro h doc hdoc
    obtain ⟨member, hmember, hname, -⟩ := forall₂_mem_right hmembers hdoc
    rw [← hname]
    exact h member hmember

/-- A payload was read off the members of an object. -/
theorem payload_eq_ok {α : Type} {rejection : String} {read : List (Text × Document) → Option α}
    {body : Tree} {request : α} (hnesting : reader.nesting = levels + 1) :
    payload reader rejection read body = .ok request ↔
      ∃ members docs, body = .object members ∧
        List.Forall₂ (ReadsMember reader levels) members docs ∧ read docs = some request := by
  unfold payload
  rw [hnesting]
  constructor
  · intro h
    rcases hdoc : body.document reader (levels + 1) with _ | doc
    · rw [hdoc] at h
      cases h
    rw [hdoc] at h
    cases doc with
    | object docs =>
      obtain ⟨members, rfl, hmembers⟩ := document_eq_object.mp hdoc
      dsimp only at h
      split at h
      · rename_i request' hread
        obtain rfl := Except.ok.inj h
        exact ⟨members, docs, rfl, hmembers, hread⟩
      · cases h
    | _ => cases h
  · rintro ⟨members, docs, rfl, hmembers, hread⟩
    rw [document_eq_object.mpr ⟨members, rfl, hmembers⟩]
    dsimp only
    rw [hread]

end Requests

end CamelidEnterprise.Server
