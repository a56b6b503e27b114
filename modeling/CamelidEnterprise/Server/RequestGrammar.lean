import CamelidEnterprise.Server.Reading

/-!
# Camelid Enterprise — the grammar of a request

Which JSON values make the handlers start a generation. The grammar that they are meant
to accept is over the values as they were sent: a temperature is a number that is zero,
a message is an object. What they do accept is the same grammar with two of its parts
wider, for the derived readers also take a number that an `f32` rounds to zero, and a
message that is an array of its two strings.

* `completions_posts_iff`, `chatCompletions_posts_iff` — what the handlers accept;
* `request_grammar_exact` — when that is what they are meant to accept.
-/

namespace CamelidEnterprise.Server

open Foundation Foundation.Json Foundation.Text

-- ---------------------------------------------------------------------------
-- The grammar
-- ---------------------------------------------------------------------------

/-- A number that is zero. -/
def IsZero (value : Tree) : Prop := ∃ n : Numeral, value = .number n ∧ n.value = 0

/-- The members of both requests, for what is accepted as a temperature. -/
structure SharedMembers (state : ReplicaState) (temperature : Tree → Prop)
    (members : List (Text × Tree)) : Prop where
  model : Optional (· = .string state.modelId) Surface.modelKey members
  stream : Optional IsBool "stream".toList members
  maxTokens : Optional IsU32 "max_tokens".toList members
  temperature : Optional temperature "temperature".toList members

/-- The members of a completion request. -/
structure CompletionMembers (state : ReplicaState) (temperature : Tree → Prop)
    (members : List (Text × Tree)) : Prop extends SharedMembers state temperature members where
  known : ∀ member ∈ members, member.1 ∈ completionFields
  prompt : Required IsString "prompt".toList members

/-- The embedded template renders the messages. -/
def Renders (state : ReplicaState) (messages : List ChatMessage) : Prop :=
  ∃ template rendered, state.chatTemplate = some template ∧
    renderChatPrompt state.renderer messages template state.modelId = .ok rendered

/-- An array of messages that can be rendered, for what it accepts as a message. -/
def IsConversation (state : ReplicaState) (isMessage : Tree → ChatMessage → Prop)
    (value : Tree) : Prop :=
  ∃ items messages, value = .array items ∧ List.Forall₂ isMessage items messages ∧
    messages ≠ [] ∧ AcceptedMessages messages ∧ Renders state messages

/-- The members of a chat request, for what is accepted as a message. -/
structure ChatMembers (state : ReplicaState) (isMessage : Tree → ChatMessage → Prop)
    (temperature : Tree → Prop) (members : List (Text × Tree)) : Prop
    extends SharedMembers state temperature members where
  known : ∀ member ∈ members, member.1 ∈ chatFields
  messages : Required (IsConversation state isMessage) "messages".toList members

section Requests

variable {reader : Reader} {levels : Nat} {members : List (Text × Tree)} {state : ReplicaState}

-- ---------------------------------------------------------------------------
-- The members of both
-- ---------------------------------------------------------------------------

/-- What the handlers ask of the fields that both requests have. -/
structure SharedFields (state : ReplicaState) (docs : List (Text × Document))
    (model : Option Str) (stream : Option Bool) (maxTokens : Option Nat)
    (temperature : Option Number) : Prop where
  readModel : readField readString Surface.modelKey docs = some model
  served : ∀ requested, model = some requested → requested = state.modelId
  readStream : readField readBool "stream".toList docs = some stream
  readMax : readField readU32 "max_tokens".toList docs = some maxTokens
  readTemperature : readField readNumber "temperature".toList docs = some temperature
  cold : ∀ n, temperature = some n → isNonzeroF32 n = false

theorem sharedFields_iff {docs : List (Text × Document)}
    (hmembers : List.Forall₂ (ReadsMember reader levels) members docs) :
    (∃ model stream maxTokens temperature,
        SharedFields state docs model stream maxTokens temperature) ↔
      SharedMembers state (RoundsToZero reader) members := by
  have hmodel := readField_optional hmembers
    (fun value doc _ hdoc => reads_text hdoc state.modelId) Surface.modelKey
  have hstream := readField_optional hmembers
    (fun value doc _ hdoc => reads_bool hdoc) "stream".toList
  have hmax := readField_optional hmembers
    (fun value doc _ hdoc => reads_u32 hdoc) "max_tokens".toList
  have htemperature := readField_optional hmembers
    (fun value doc _ hdoc => reads_temperature hdoc) "temperature".toList
  constructor
  · rintro ⟨model, stream, maxTokens, temperature, h⟩
    exact ⟨hmodel.mp ⟨model, h.readModel, h.served⟩,
      hstream.mp ⟨stream, h.readStream, fun _ _ => trivial⟩,
      hmax.mp ⟨maxTokens, h.readMax, fun _ _ => trivial⟩,
      htemperature.mp ⟨temperature, h.readTemperature, h.cold⟩⟩
  · intro h
    obtain ⟨model, hread, hserved⟩ := hmodel.mpr h.model
    obtain ⟨stream, hreadStream, -⟩ := hstream.mpr h.stream
    obtain ⟨maxTokens, hreadMax, -⟩ := hmax.mpr h.maxTokens
    obtain ⟨temperature, hreadTemperature, hcold⟩ := htemperature.mpr h.temperature
    exact ⟨model, stream, maxTokens, temperature, hread, hserved, hreadStream, hreadMax,
      hreadTemperature, hcold⟩

/-- Members that both requests have, and one more name, can all be read. -/
theorem SharedMembers.readable (h : SharedMembers state (RoundsToZero reader) members)
    {name : Text} (hname : ∀ value, (name, value) ∈ members →
      ∃ doc, value.document reader levels = some doc)
    (hknown : ∀ member ∈ members, member.1 = Surface.modelKey ∨ member.1 = name ∨
      member.1 = "stream".toList ∨ member.1 = "max_tokens".toList ∨
      member.1 = "temperature".toList) :
    ∃ docs, List.Forall₂ (ReadsMember reader levels) members docs := by
  refine exists_readsMember fun member hmember => ?_
  obtain ⟨key, value⟩ := member
  rcases hknown _ hmember with rfl | rfl | rfl | rfl | rfl
  · exact h.model.readable (fun value hvalue => readable_string value ⟨_, hvalue⟩) hmember
  · exact hname value hmember
  · exact h.stream.readable readable_bool hmember
  · exact h.maxTokens.readable readable_u32 hmember
  · exact h.temperature.readable readable_number hmember

-- ---------------------------------------------------------------------------
-- Completions
-- ---------------------------------------------------------------------------

theorem readCompletionRequest_eq_some {docs : List (Text × Document)}
    {request : CompletionRequest} :
    readCompletionRequest docs = some request ↔
      readField readString Surface.modelKey docs = some request.model ∧
        readField readString "prompt".toList docs = some request.prompt ∧
        readField readBool "stream".toList docs = some request.stream ∧
        readField readU32 "max_tokens".toList docs = some request.maxTokens ∧
        readField readNumber "temperature".toList docs = some request.temperature ∧
        unsupported completionFields docs = request.unsupportedFields := by
  unfold readCompletionRequest
  constructor
  · intro h
    obtain ⟨model, hmodel, h⟩ := Option.bind_eq_some_iff.mp h
    obtain ⟨prompt, hprompt, h⟩ := Option.bind_eq_some_iff.mp h
    obtain ⟨stream, hstream, h⟩ := Option.bind_eq_some_iff.mp h
    obtain ⟨maxTokens, hmax, h⟩ := Option.bind_eq_some_iff.mp h
    obtain ⟨temperature, htemperature, h⟩ := Option.bind_eq_some_iff.mp h
    obtain rfl := Option.some.inj h
    exact ⟨hmodel, hprompt, hstream, hmax, htemperature, rfl⟩
  · rintro ⟨hmodel, hprompt, hstream, hmax, htemperature, hrest⟩
    refine Option.bind_eq_some_iff.mpr ⟨_, hmodel, ?_⟩
    refine Option.bind_eq_some_iff.mpr ⟨_, hprompt, ?_⟩
    refine Option.bind_eq_some_iff.mpr ⟨_, hstream, ?_⟩
    refine Option.bind_eq_some_iff.mpr ⟨_, hmax, ?_⟩
    refine Option.bind_eq_some_iff.mpr ⟨_, htemperature, ?_⟩
    rw [hrest]

/-- What the handler asks of a request it has read. -/
structure CompletionAccepted (state : ReplicaState) (request : CompletionRequest) : Prop where
  fields : request.unsupportedFields = []
  model : ∀ model, request.model = some model → model = state.modelId
  prompt : ∃ prompt, request.prompt = some prompt
  temperature : ∀ n, request.temperature = some n → isNonzeroF32 n = false

theorem completions_ok_iff {payload : Except String CompletionRequest} :
    (∃ answer, completions state payload = .ok answer) ↔
      ∃ request, payload = .ok request ∧ CompletionAccepted state request := by
  constructor
  · rintro ⟨answer, h⟩
    unfold completions at h
    split at h
    · cases h
    rename_i request
    refine ⟨request, rfl, ?_⟩
    split at h
    · cases h
    rename_i hfields
    split at h
    · cases h
    rename_i hmodel
    split at h
    · cases h
    rename_i prompt hprompt
    split at h
    · cases h
    rename_i htemperature
    refine ⟨not_not.mp hfields, ?_, ⟨prompt, hprompt⟩, ?_⟩
    · intro model heq
      simpa [heq] using hmodel
    · intro n heq
      simpa [heq] using htemperature
  · rintro ⟨request, rfl, haccepted⟩
    obtain ⟨prompt, hprompt⟩ := haccepted.prompt
    have hmodel : ¬(request.model.any fun model => model ≠ state.modelId) = true := by
      rcases hsome : request.model with _ | model
      · simp
      · simp [haccepted.model model hsome]
    have htemperature : ¬request.temperature.any isNonzeroF32 = true := by
      rcases hsome : request.temperature with _ | n
      · simp
      · simp [haccepted.temperature n hsome]
    unfold completions
    dsimp only
    rw [if_neg (not_not.mpr haccepted.fields), if_neg hmodel, hprompt]
    dsimp only
    rw [if_neg htemperature]
    exact ⟨_, rfl⟩

/-- The handler starts a generation for the bodies of this grammar. -/
theorem completions_posts_iff (reader : Reader) (rejection : String) (body : Tree) :
    (∃ answer, completions state (payload reader rejection readCompletionRequest body) =
        .ok answer) ↔
      ∃ members, body = .object members ∧
        CompletionMembers state (RoundsToZero reader) members := by
  have hdeep := reader.nesting_deep
  obtain ⟨levels, hnesting⟩ : ∃ levels, reader.nesting = levels + 1 :=
    ⟨reader.nesting - 1, by omega⟩
  have hprompt : ∀ {members docs}, List.Forall₂ (ReadsMember reader levels) members docs →
      ((∃ a, readField readString "prompt".toList docs = some (some a) ∧ True) ↔
        Required IsString "prompt".toList members) := fun hmembers =>
    readField_required hmembers (fun value doc _ hdoc => reads_string hdoc)
      (fun ⟨_, h⟩ => by cases h) _
  rw [completions_ok_iff]
  constructor
  · rintro ⟨request, hpayload, haccepted⟩
    obtain ⟨members, docs, rfl, hmembers, hread⟩ := (payload_eq_ok hnesting).mp hpayload
    obtain ⟨hmodel, hreadPrompt, hstream, hmax, htemperature, hrest⟩ :=
      readCompletionRequest_eq_some.mp hread
    obtain ⟨prompt, hsome⟩ := haccepted.prompt
    refine ⟨members, rfl, (sharedFields_iff hmembers).mp ⟨_, _, _, _, hmodel, haccepted.model,
      hstream, hmax, htemperature, haccepted.temperature⟩, ?_, ?_⟩
    · exact (known_iff hmembers).mp (unsupported_eq_nil.mp (hrest.trans haccepted.fields))
    · exact (hprompt hmembers).mp ⟨prompt, by rw [hreadPrompt, hsome], trivial⟩
  · rintro ⟨members, rfl, h⟩
    obtain ⟨docs, hmembers⟩ := h.toSharedMembers.readable
      (fun value hvalue => h.prompt.readable readable_string hvalue)
      (fun member hmember => by simpa [completionFields] using h.known member hmember)
    obtain ⟨model, stream, maxTokens, temperature, hshared⟩ :=
      (sharedFields_iff hmembers).mpr h.toSharedMembers
    obtain ⟨prompt, hreadPrompt, -⟩ := (hprompt hmembers).mpr h.prompt
    have hrest := unsupported_eq_nil.mpr ((known_iff hmembers).mpr h.known)
    refine ⟨⟨model, some prompt, stream, maxTokens, temperature, []⟩, ?_,
      rfl, hshared.served, ⟨prompt, rfl⟩, hshared.cold⟩
    exact (payload_eq_ok hnesting).mpr ⟨members, docs, rfl, hmembers,
      readCompletionRequest_eq_some.mpr ⟨hshared.readModel, hreadPrompt, hshared.readStream,
        hshared.readMax, hshared.readTemperature, hrest⟩⟩

-- ---------------------------------------------------------------------------
-- Chats
-- ---------------------------------------------------------------------------

/-- Messages nest three levels below the body. -/
theorem readable_conversation (value : Tree)
    (h : IsConversation state IsMessage value) :
    ∃ doc, value.document reader (levels + 2) = some doc := by
  obtain ⟨items, messages, rfl, hmessages, -⟩ := h
  obtain ⟨docs, hdocs⟩ : ∃ docs, List.Forall₂
      (fun item doc => item.document reader (levels + 1) = some doc) items docs := by
    induction hmessages with
    | nil => exact ⟨[], .nil⟩
    | cons hfirst _ ih =>
      obtain ⟨doc, hdoc⟩ := readable_message hfirst
      obtain ⟨docs, hdocs⟩ := ih
      exact ⟨doc :: docs, .cons hdoc hdocs⟩
  exact ⟨.array docs, document_eq_array.mpr ⟨items, rfl, hdocs⟩⟩

theorem reads_conversation {value : Tree} {doc : Document}
    (hdoc : value.document reader (levels + 2) = some doc) :
    (∃ messages, readChatMessages doc = some messages ∧
        messages ≠ [] ∧ AcceptedMessages messages ∧ Renders state messages) ↔
      IsConversation state IsMessage value := by
  constructor
  · rintro ⟨messages, hread, hrest⟩
    obtain ⟨items, hitems, hmessages⟩ := (reads_messages hdoc messages).mp hread
    exact ⟨items, messages, hitems, hmessages, hrest⟩
  · rintro ⟨items, messages, hitems, hmessages, hrest⟩
    exact ⟨messages, (reads_messages hdoc messages).mpr ⟨items, hitems, hmessages⟩, hrest⟩

theorem unsupportedRole_eq_none {messages : List ChatMessage} (index : Nat) :
    unsupportedRole messages index = none ↔ AcceptedMessages messages := by
  induction messages generalizing index with
  | nil => exact ⟨fun _ _ h => absurd h List.not_mem_nil, fun _ => rfl⟩
  | cons message rest ih =>
    rw [unsupportedRole, AcceptedMessages, List.forall_mem_cons]
    split
    · rename_i hrole
      rw [ih]
      exact ⟨fun h => ⟨hrole, h⟩, fun h => h.2⟩
    · rename_i hrole
      refine ⟨fun h => ?_, fun h => absurd h.1 hrole⟩
      cases h

theorem readChatCompletionRequest_eq_some {docs : List (Text × Document)}
    {request : ChatCompletionRequest} :
    readChatCompletionRequest docs = some request ↔
      readField readString Surface.modelKey docs = some request.model ∧
        readField readChatMessages "messages".toList docs = some request.messages ∧
        readField readBool "stream".toList docs = some request.stream ∧
        readField readU32 "max_tokens".toList docs = some request.maxTokens ∧
        readField readNumber "temperature".toList docs = some request.temperature ∧
        unsupported chatFields docs = request.unsupportedFields := by
  unfold readChatCompletionRequest
  constructor
  · intro h
    obtain ⟨model, hmodel, h⟩ := Option.bind_eq_some_iff.mp h
    obtain ⟨messages, hmessages, h⟩ := Option.bind_eq_some_iff.mp h
    obtain ⟨stream, hstream, h⟩ := Option.bind_eq_some_iff.mp h
    obtain ⟨maxTokens, hmax, h⟩ := Option.bind_eq_some_iff.mp h
    obtain ⟨temperature, htemperature, h⟩ := Option.bind_eq_some_iff.mp h
    obtain rfl := Option.some.inj h
    exact ⟨hmodel, hmessages, hstream, hmax, htemperature, rfl⟩
  · rintro ⟨hmodel, hmessages, hstream, hmax, htemperature, hrest⟩
    refine Option.bind_eq_some_iff.mpr ⟨_, hmodel, ?_⟩
    refine Option.bind_eq_some_iff.mpr ⟨_, hmessages, ?_⟩
    refine Option.bind_eq_some_iff.mpr ⟨_, hstream, ?_⟩
    refine Option.bind_eq_some_iff.mpr ⟨_, hmax, ?_⟩
    refine Option.bind_eq_some_iff.mpr ⟨_, htemperature, ?_⟩
    rw [hrest]

structure ChatAccepted (state : ReplicaState) (request : ChatCompletionRequest) : Prop where
  fields : request.unsupportedFields = []
  model : ∀ model, request.model = some model → model = state.modelId
  messages : ∃ messages, request.messages = some messages ∧
    messages ≠ [] ∧ AcceptedMessages messages ∧ Renders state messages
  temperature : ∀ n, request.temperature = some n → isNonzeroF32 n = false

theorem chatCompletions_ok_iff {payload : Except String ChatCompletionRequest} :
    (∃ answer, chatCompletions state payload = .ok answer) ↔
      ∃ request, payload = .ok request ∧ ChatAccepted state request := by
  constructor
  · rintro ⟨answer, h⟩
    unfold chatCompletions at h
    split at h
    · cases h
    rename_i request
    refine ⟨request, rfl, ?_⟩
    -- the checks in the handler's order, each passed
    split at h
    · cases h
    rename_i hfields
    split at h
    · cases h
    rename_i hmodel
    split at h
    · cases h
    · cases h
    rename_i messages hnonempty hmessages
    split at h
    · cases h
    rename_i hroles
    split at h
    · cases h
    rename_i htemperature
    split at h
    · cases h
    rename_i template htemplate
    split at h
    · cases h
    rename_i rendered hrendered
    refine ⟨not_not.mp hfields, ?_, ⟨messages, hmessages, ?_,
      (unsupportedRole_eq_none 0).mp hroles, template, rendered, htemplate, hrendered⟩, ?_⟩
    · intro model heq
      simpa [heq] using hmodel
    · exact hnonempty
    · intro n heq
      simpa [heq] using htemperature
  · rintro ⟨request, rfl, haccepted⟩
    obtain ⟨messages, hmessages, hne, hroles, template, rendered, htemplate, hrendered⟩ :=
      haccepted.messages
    have hmodel : ¬(request.model.any fun model => model ≠ state.modelId) = true := by
      rcases hsome : request.model with _ | model
      · simp
      · simp [haccepted.model model hsome]
    have htemperature : ¬request.temperature.any isNonzeroF32 = true := by
      rcases hsome : request.temperature with _ | n
      · simp
      · simp [haccepted.temperature n hsome]
    -- an empty list of messages has a branch of its own
    obtain ⟨first, rest, rfl⟩ := List.exists_cons_of_ne_nil hne
    unfold chatCompletions
    dsimp only
    rw [if_neg (not_not.mpr haccepted.fields), if_neg hmodel, hmessages]
    dsimp only
    rw [(unsupportedRole_eq_none 0).mpr hroles]
    dsimp only
    rw [if_neg htemperature, htemplate]
    dsimp only
    rw [hrendered]
    exact ⟨_, rfl⟩

/-- The chat handler starts a generation for the bodies of this grammar. -/
theorem chatCompletions_posts_iff (reader : Reader) (rejection : String) (body : Tree) :
    (∃ answer, chatCompletions state (payload reader rejection readChatCompletionRequest body) =
        .ok answer) ↔
      ∃ members, body = .object members ∧
        ChatMembers state IsMessage (RoundsToZero reader) members := by
  have hdeep := reader.nesting_deep
  obtain ⟨levels, hnesting⟩ : ∃ levels, reader.nesting = levels + 2 + 1 :=
    ⟨reader.nesting - 3, by omega⟩
  have hmessages : ∀ {members docs}, List.Forall₂ (ReadsMember reader (levels + 2)) members docs →
      ((∃ a, readField readChatMessages "messages".toList docs = some (some a) ∧
          a ≠ [] ∧ AcceptedMessages a ∧ Renders state a) ↔
        Required (IsConversation state IsMessage) "messages".toList members) := fun hmembers =>
    readField_required hmembers (fun value doc _ hdoc => reads_conversation hdoc)
      (fun ⟨_, _, h, _⟩ => by cases h) _
  rw [chatCompletions_ok_iff]
  constructor
  · rintro ⟨request, hpayload, haccepted⟩
    obtain ⟨members, docs, rfl, hmembers, hread⟩ := (payload_eq_ok hnesting).mp hpayload
    obtain ⟨hmodel, hreadMessages, hstream, hmax, htemperature, hrest⟩ :=
      readChatCompletionRequest_eq_some.mp hread
    obtain ⟨messages, hsome, hconversation⟩ := haccepted.messages
    refine ⟨members, rfl, (sharedFields_iff hmembers).mp ⟨_, _, _, _, hmodel, haccepted.model,
      hstream, hmax, htemperature, haccepted.temperature⟩, ?_, ?_⟩
    · exact (known_iff hmembers).mp (unsupported_eq_nil.mp (hrest.trans haccepted.fields))
    · exact (hmessages hmembers).mp ⟨messages, by rw [hreadMessages, hsome], hconversation⟩
  · rintro ⟨members, rfl, h⟩
    obtain ⟨docs, hmembers⟩ := h.toSharedMembers.readable
      (fun value hvalue => h.messages.readable readable_conversation hvalue)
      (fun member hmember => by simpa [chatFields] using h.known member hmember)
    obtain ⟨model, stream, maxTokens, temperature, hshared⟩ :=
      (sharedFields_iff hmembers).mpr h.toSharedMembers
    obtain ⟨messages, hreadMessages, hconversation⟩ := (hmessages hmembers).mpr h.messages
    have hrest := unsupported_eq_nil.mpr ((known_iff hmembers).mpr h.known)
    refine ⟨⟨model, some messages, stream, maxTokens, temperature, []⟩, ?_,
      rfl, hshared.served, ⟨messages, rfl, hconversation⟩, hshared.cold⟩
    exact (payload_eq_ok hnesting).mpr ⟨members, docs, rfl, hmembers,
      readChatCompletionRequest_eq_some.mpr ⟨hshared.readModel, hreadMessages,
        hshared.readStream, hshared.readMax, hshared.readTemperature, hrest⟩⟩

end Requests

-- ---------------------------------------------------------------------------
-- The grammar they are meant to accept
-- ---------------------------------------------------------------------------

/-- A status of the 400s. -/
def ClientError (error : ApiError) : Prop := 400 ≤ error.status ∧ error.status < 500

/-- The handler starts a generation for the bodies of a grammar, and refuses every other
with a client error. -/
def Accepts (result : Except ApiError Answer) (grammar : Prop) : Prop :=
  ((∃ answer, result = .ok answer) ↔ grammar) ∧ ∀ error, result = .error error → ClientError error

def CompletionsExact (state : ReplicaState) (reader : Reader) (rejection : String)
    (body : Tree) : Prop :=
  Accepts (completions state (payload reader rejection readCompletionRequest body))
    (∃ members, body = .object members ∧ CompletionMembers state IsZero members)

def ChatCompletionsExact (state : ReplicaState) (reader : Reader) (rejection : String)
    (body : Tree) : Prop :=
  Accepts (chatCompletions state (payload reader rejection readChatCompletionRequest body))
    (∃ members, body = .object members ∧ ChatMembers state IsMessageObject IsZero members)

/-- The temperature is a number that is not zero, but an `f32` rounds it to zero. -/
def Underflows (reader : Reader) (members : List (Text × Tree)) : Prop :=
  ∃ value, valuesOf "temperature".toList members = [value] ∧ RoundsToZero reader value ∧
    ¬IsZero value

/-- A message is an array. -/
def HasArrayMessage (members : List (Text × Tree)) : Prop :=
  ∃ items strings, valuesOf "messages".toList members = [.array items] ∧ .array strings ∈ items

section Exact

variable {reader : Reader} {members : List (Text × Tree)} {state : ReplicaState}

theorem isNonzeroF32_of_isZero {n : Number} (h : n.isZero = true) : isNonzeroF32 n = false := by
  cases n with
  | PosInt n => simpa [Number.isZero, isNonzeroF32] using h
  | NegInt n => simpa [Number.isZero, isNonzeroF32] using h
  | Float bits =>
    simp only [Number.isZero, decide_eq_true_eq] at h
    rw [isNonzeroF32, h]
    decide

/-- Zero rounds to zero. -/
theorem IsZero.rounds {value : Tree} (h : IsZero value) : RoundsToZero reader value := by
  obtain ⟨numeral, rfl, hvalue⟩ := h
  obtain ⟨n, hread, hzero⟩ := reader.number_zero numeral hvalue
  exact ⟨numeral, n, rfl, hread, isNonzeroF32_of_isZero hzero⟩

theorem Optional.imp {P Q : Tree → Prop} {name : Text} (h : Optional P name members)
    (hPQ : ∀ value, valuesOf name members = [value] → P value → Q value) :
    Optional Q name members := by
  rcases h with hnone | ⟨value, hone, hnull | hP⟩
  · exact Or.inl hnone
  · exact Or.inr ⟨value, hone, Or.inl hnull⟩
  · exact Or.inr ⟨value, hone, Or.inr (hPQ value hone hP)⟩

/-- A narrower or wider temperature changes nothing else. -/
theorem SharedMembers.imp {P Q : Tree → Prop} (h : SharedMembers state P members)
    (hPQ : ∀ value, valuesOf "temperature".toList members = [value] → P value → Q value) :
    SharedMembers state Q members :=
  ⟨h.model, h.stream, h.maxTokens, h.temperature.imp hPQ⟩

/-- A temperature that rounds to zero is zero unless it underflows. -/
theorem zero_of_rounds (h : ¬Underflows reader members) (value : Tree)
    (hone : valuesOf "temperature".toList members = [value]) (hrounds : RoundsToZero reader value) :
    IsZero value := by
  by_contra hnot
  exact h ⟨value, hone, hrounds, hnot⟩

theorem not_underflows (h : SharedMembers state IsZero members) : ¬Underflows reader members := by
  rintro ⟨value, hone, hrounds, hnot⟩
  rcases h.temperature with hnone | ⟨value', hone', hnull | hzero⟩
  · rw [hnone] at hone
    cases hone
  · rw [hone] at hone'
    obtain rfl := List.head_eq_of_cons_eq hone'
    obtain ⟨_, _, hnumber, -⟩ := hrounds
    rw [hnull] at hnumber
    cases hnumber
  · rw [hone] at hone'
    obtain rfl := List.head_eq_of_cons_eq hone'
    exact hnot hzero

/-- Without an array among them, messages are objects. -/
theorem messages_are_objects {items : List Tree} {messages : List ChatMessage}
    (h : List.Forall₂ IsMessage items messages) (hnone : ∀ strings, .array strings ∉ items) :
    List.Forall₂ IsMessageObject items messages := by
  induction h with
  | nil => exact .nil
  | cons hfirst _ ih =>
    refine .cons ?_ (ih fun strings hmem => hnone strings (List.mem_cons_of_mem _ hmem))
    rcases hfirst with hobject | rfl
    · exact hobject
    · exact absurd List.mem_cons_self (hnone _)

theorem not_hasArrayMessage
    (h : Required (IsConversation state IsMessageObject) "messages".toList members) :
    ¬HasArrayMessage members := by
  rintro ⟨items, strings, hone, hmem⟩
  obtain ⟨value, hone', items', messages, rfl, hmessages, -⟩ := h
  rw [hone] at hone'
  obtain rfl := Tree.array.inj (List.head_eq_of_cons_eq hone')
  obtain ⟨message, -, members, hobject, -⟩ := forall₂_mem_right hmessages.flip hmem
  cases hobject

theorem clientError_apiError {status : Nat} {code message : String} {param : Option String}
    {error : ApiError} (hstatus : 400 ≤ status ∧ status < 500)
    (h : (.error (apiError status code message param) : Except ApiError Answer) = .error error) :
    ClientError error := by
  obtain rfl := Except.error.inj h
  exact hstatus

theorem completions_refuses {payload : Except String CompletionRequest} {error : ApiError}
    (h : completions state payload = .error error) : ClientError error := by
  unfold completions at h
  split at h
  · exact clientError_apiError (by decide) h
  split at h
  · exact clientError_apiError (by decide) h
  split at h
  · exact clientError_apiError (by decide) h
  split at h
  · exact clientError_apiError (by decide) h
  split at h
  · exact clientError_apiError (by decide) h
  · cases h

theorem chatCompletions_refuses {payload : Except String ChatCompletionRequest} {error : ApiError}
    (h : chatCompletions state payload = .error error) : ClientError error := by
  unfold chatCompletions at h
  split at h
  · exact clientError_apiError (by decide) h
  split at h
  · exact clientError_apiError (by decide) h
  split at h
  · exact clientError_apiError (by decide) h
  split at h
  · exact clientError_apiError (by decide) h
  · exact clientError_apiError (by decide) h
  split at h
  · exact clientError_apiError (by decide) h
  split at h
  · exact clientError_apiError (by decide) h
  split at h
  · exact clientError_apiError (by decide) h
  split at h
  · exact clientError_apiError (by decide) h
  · cases h

theorem completionsExact_iff (state : ReplicaState) (reader : Reader) (rejection : String)
    (body : Tree) :
    CompletionsExact state reader rejection body ↔
      ∀ members, body = .object members → CompletionMembers state (RoundsToZero reader) members →
        ¬Underflows reader members := by
  have hposts := @completions_posts_iff state reader rejection body
  constructor
  · rintro ⟨hexact, -⟩ members hbody hmembers
    obtain ⟨members', hbody', hstrict⟩ := hexact.mp (hposts.mpr ⟨members, hbody, hmembers⟩)
    obtain rfl := Tree.object.inj (hbody.symm.trans hbody')
    exact not_underflows hstrict.toSharedMembers
  · intro hnone
    refine ⟨hposts.trans ⟨?_, ?_⟩, fun _ h => completions_refuses h⟩
    · rintro ⟨members, hbody, h⟩
      exact ⟨members, hbody,
        h.toSharedMembers.imp (zero_of_rounds (hnone members hbody h)), h.known, h.prompt⟩
    · rintro ⟨members, hbody, h⟩
      exact ⟨members, hbody, h.toSharedMembers.imp fun _ _ hzero => hzero.rounds, h.known, h.prompt⟩

theorem chatCompletionsExact_iff (state : ReplicaState) (reader : Reader) (rejection : String)
    (body : Tree) :
    ChatCompletionsExact state reader rejection body ↔
      ∀ members, body = .object members →
        ChatMembers state IsMessage (RoundsToZero reader) members →
        ¬Underflows reader members ∧ ¬HasArrayMessage members := by
  have hposts := @chatCompletions_posts_iff state reader rejection body
  constructor
  · rintro ⟨hexact, -⟩ members hbody hmembers
    obtain ⟨members', hbody', hstrict⟩ := hexact.mp (hposts.mpr ⟨members, hbody, hmembers⟩)
    obtain rfl := Tree.object.inj (hbody.symm.trans hbody')
    exact ⟨not_underflows hstrict.toSharedMembers, not_hasArrayMessage hstrict.messages⟩
  · intro hnone
    refine ⟨hposts.trans ⟨?_, ?_⟩, fun _ h => chatCompletions_refuses h⟩
    · rintro ⟨members, hbody, h⟩
      obtain ⟨hwarm, harray⟩ := hnone members hbody h
      obtain ⟨value, hone, items, messages, rfl, hmessages, hrest⟩ := h.messages
      have hobjects := messages_are_objects hmessages fun strings hmem =>
        harray ⟨items, strings, hone, hmem⟩
      exact ⟨members, hbody, h.toSharedMembers.imp (zero_of_rounds hwarm), h.known,
        _, hone, items, messages, rfl, hobjects, hrest⟩
    · rintro ⟨members, hbody, h⟩
      obtain ⟨value, hone, items, messages, rfl, hmessages, hrest⟩ := h.messages
      exact ⟨members, hbody, h.toSharedMembers.imp fun _ _ hzero => hzero.rounds, h.known,
        _, hone, items, messages, rfl, hmessages.imp fun _ _ hobject => Or.inl hobject, hrest⟩

end Exact

/-- **The grammar of a request.** Whatever the replica and the JSON value it is sent, a
handler starts a generation for exactly the requests it is meant to accept, and refuses
every other with a client error, if and only if the value is not one that it accepts for
a temperature that underflows or for a message that is an array. -/
theorem request_grammar_exact (state : ReplicaState) (reader : Reader) (rejection : String)
    (body : Tree) :
    (CompletionsExact state reader rejection body ↔
      ∀ members, body = .object members → CompletionMembers state (RoundsToZero reader) members →
        ¬Underflows reader members) ∧
    (ChatCompletionsExact state reader rejection body ↔
      ∀ members, body = .object members →
        ChatMembers state IsMessage (RoundsToZero reader) members →
        ¬Underflows reader members ∧ ¬HasArrayMessage members) :=
  ⟨completionsExact_iff state reader rejection body,
    chatCompletionsExact_iff state reader rejection body⟩

/-- The temperature `1e-60`. -/
def tiny : Numeral := ⟨false, 1, none, some (-60)⟩

/-- A library that reads what fits 64 bits, zeros, and this temperature as its double. -/
def exampleReader : Reader where
  number n :=
    if n.Plain then if n.whole < 2 ^ 64 then some (.PosInt n.whole) else none
    else if n.value = 0 then some (.Float 0)
    else if n = tiny then some (.Float 3709195899275879974)
    else none
  nesting := 127
  nesting_deep := by decide
  number_plain := by
    intro n hplain hlt
    rw [if_pos hplain, if_pos hlt]
  number_posInt := by
    intro n k h
    split at h
    · rename_i hplain
      split at h
      · exact ⟨hplain, Number.PosInt.inj (Option.some.inj h)⟩
      · cases h
    split at h
    · cases h
    split at h
    · cases h
    · cases h
  number_zero := by
    intro n hzero
    split
    · rename_i hplain
      have hwhole : n.whole = 0 := by
        obtain ⟨hsign, hfraction, hexponent⟩ := hplain
        simpa [Numeral.value, hsign, hfraction, hexponent, fractionValue] using hzero
      rw [if_pos (by omega), hwhole]
      exact ⟨.PosInt 0, rfl, rfl⟩
    · exact ⟨.Float 0, rfl, rfl⟩

/-- A replica of one model, whose template renders every request. -/
def exampleState : ReplicaState where
  modelId := ['m']
  chatTemplate := some ⟨[], [], [], [], [], []⟩
  renderer := ⟨fun c => [c], fun _ _ => .ok []⟩

/-- A prompt with the temperature `1e-60`. -/
def tinyMembers : List (Text × Tree) :=
  [("prompt".toList, .string ['h', 'i']), ("temperature".toList, .number tiny)]

/-- A message that is an array of its two strings. -/
def arrayMembers : List (Text × Tree) :=
  [("messages".toList, .array [.array [.string "user".toList, .string ['h', 'i']]])]

theorem tiny_rounds : RoundsToZero exampleReader (.number tiny) ∧ ¬IsZero (.number tiny) := by
  have hvalue : tiny.value ≠ 0 := by
    simp [tiny, Numeral.value, fractionValue]
  constructor
  · refine ⟨tiny, .Float 3709195899275879974, rfl, ?_, by decide⟩
    have hplain : ¬tiny.Plain := by decide
    simp only [exampleReader, if_neg hplain, if_neg hvalue, if_true]
  · rintro ⟨n, hn, hzero⟩
    obtain rfl := Tree.number.inj hn
    exact hvalue hzero

/-- The handlers start a generation for `{"prompt":"hi","temperature":1e-60}` and for
`{"messages":[["user","hi"]]}`. -/
theorem request_grammar_wider :
    ¬CompletionsExact exampleState exampleReader "" (.object tinyMembers) ∧
      ¬ChatCompletionsExact exampleState exampleReader "" (.object arrayMembers) := by
  obtain ⟨hrounds, hnot⟩ := tiny_rounds
  constructor
  · intro hexact
    refine (completionsExact_iff _ _ _ _).mp hexact tinyMembers rfl
      ⟨⟨Or.inl rfl, Or.inl rfl, Or.inl rfl, ?_⟩, ?_, ?_⟩ ⟨.number tiny, rfl, hrounds, hnot⟩
    · exact Or.inr ⟨.number tiny, rfl, Or.inr hrounds⟩
    · simp [tinyMembers, completionFields]
    · exact ⟨.string ['h', 'i'], rfl, _, rfl⟩
  · intro hexact
    refine ((chatCompletionsExact_iff _ _ _ _).mp hexact arrayMembers rfl
      ⟨⟨Or.inl rfl, Or.inl rfl, Or.inl rfl, Or.inl rfl⟩, ?_, ?_⟩).2 ?_
    · simp [arrayMembers, chatFields]
    · refine ⟨_, rfl, _, [⟨"user".toList, ['h', 'i']⟩], rfl, .cons (Or.inr rfl) .nil,
        List.cons_ne_nil _ _, by decide, _, _, rfl, rfl⟩
    · exact ⟨_, _, rfl, List.mem_cons_self⟩

end CamelidEnterprise.Server
