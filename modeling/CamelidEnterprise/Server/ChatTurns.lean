import CamelidEnterprise.Engine.Markers
import CamelidEnterprise.Server.Chat

/-!
# Camelid Enterprise — the turns of an encoded chat prompt

A Llama 3 prompt is put together as text and then encoded with special parsing. What the
model sees are the ids: the id of `<|start_header_id|>` opens a turn, and the ids up to that
of `<|end_header_id|>` write its role (`turnRoles`).

Contents are not escaped. `render_llama3_faithful` states what still holds of them, and
`render_llama3_forged` that it does not hold of all.

The vocabulary is that of the loaded file: whether the markers are special tokens, and alone
in the texts they begin, is a condition on it (`TurnMarkers`).
-/

namespace CamelidEnterprise.Server

open Foundation Foundation.Text

-- ---------------------------------------------------------------------------
-- Turns
-- ---------------------------------------------------------------------------

/-- The ids that write the roles of the turns in a list of ids. -/
def turnRoles (start stop : TokenId) : List TokenId → List (List TokenId)
  | [] => []
  | id :: ids =>
    if id = start then ids.takeWhile (· ≠ stop) :: turnRoles start stop ids
    else turnRoles start stop ids

variable {start stop : TokenId}

theorem turnRoles_append {front : List TokenId} (h : start ∉ front) (ids : List TokenId) :
    turnRoles start stop (front ++ ids) = turnRoles start stop ids := by
  induction front with
  | nil => rfl
  | cons id front ih =>
    rw [List.mem_cons, not_or] at h
    rw [List.cons_append, turnRoles, if_neg fun heq => h.1 heq.symm]
    exact ih h.2

theorem turnRoles_of_not_mem {ids : List TokenId} (h : start ∉ ids) :
    turnRoles start stop ids = [] := by
  have hall : turnRoles start stop (ids ++ []) = turnRoles start stop [] := turnRoles_append h []
  rwa [List.append_nil] at hall

theorem turnRoles_turn (hne : stop ≠ start) {role : List TokenId} (hstart : start ∉ role)
    (hstop : stop ∉ role) (ids : List TokenId) :
    turnRoles start stop (start :: (role ++ stop :: ids)) = role :: turnRoles start stop ids := by
  have hrole : (role ++ stop :: ids).takeWhile (· ≠ stop) = role := by
    rw [List.takeWhile_append_of_pos]
    · simp
    · intro id hid
      exact decide_eq_true fun heq => hstop (heq ▸ hid)
  rw [turnRoles, if_pos rfl, hrole, turnRoles_append hstart, turnRoles, if_neg hne]

/-- As many lists of ids as roles, and each decodes to its role. -/
def Writes (tokenizer : Tokenizer) (own : List (List TokenId)) (roles : List Str) : Prop :=
  List.Forall₂ (fun ids role => tokenizer.decode ids false = .ok role) own roles

instance (tokenizer : Tokenizer) (own : List (List TokenId)) (roles : List Str) :
    Decidable (Writes tokenizer own roles) :=
  inferInstanceAs (Decidable (List.Forall₂ (fun ids role => tokenizer.decode ids false = .ok role)
    own roles))

/-- A vocabulary in which the ids of a turn tell where it begins and what its role is. -/
structure TurnMarkers (tokenizer : Tokenizer) (start stop : TokenId) : Prop where
  opens : tokenizer.OpensOnly
  startMarker : tokenizer.Marker startHeader
  endMarker : tokenizer.Marker endHeader
  start_eq : tokenizer.tokenToId.lookup startHeader = some start
  stop_eq : tokenizer.tokenToId.lookup endHeader = some stop
  bos : tokenizer.special.bos ≠ some start
  eos : tokenizer.special.eos ≠ some start

section Encoded

variable {tokenizer : Tokenizer}

instance (tokenizer : Tokenizer) (start stop : TokenId) :
    Decidable (TurnMarkers tokenizer start stop) :=
  decidable_of_iff (tokenizer.OpensOnly ∧ tokenizer.Marker startHeader ∧
      tokenizer.Marker endHeader ∧ tokenizer.tokenToId.lookup startHeader = some start ∧
      tokenizer.tokenToId.lookup endHeader = some stop ∧ tokenizer.special.bos ≠ some start ∧
      tokenizer.special.eos ≠ some start)
    ⟨fun ⟨opens, startMarker, endMarker, hstart, hstop, bos, eos⟩ =>
        ⟨opens, startMarker, endMarker, hstart, hstop, bos, eos⟩,
      fun h => ⟨h.opens, h.startMarker, h.endMarker, h.start_eq, h.stop_eq, h.bos, h.eos⟩⟩

/-- The markers and the roles are spelled in `!` to `~`. -/
theorem markers_selfSpelled : (∀ ch ∈ startHeader, SelfSpelled ch) ∧
    (∀ ch ∈ endHeader, SelfSpelled ch) ∧ ∀ role ∈ acceptedRoles, ∀ ch ∈ role, SelfSpelled ch := by
  have hall : ∀ text ∈ startHeader :: endHeader :: acceptedRoles,
      text.all (fun ch => decide (SelfSpelled ch)) = true := by
    decide +kernel
  have hself : ∀ text ∈ startHeader :: endHeader :: acceptedRoles, ∀ ch ∈ text, SelfSpelled ch :=
    fun text htext ch hch => of_decide_eq_true (List.all_eq_true.mp (hall text htext) ch hch)
  exact ⟨hself _ List.mem_cons_self, hself _ (List.mem_cons_of_mem _ List.mem_cons_self),
    fun role hrole => hself role (List.mem_cons_of_mem _ (List.mem_cons_of_mem _ hrole))⟩

theorem TurnMarkers.stop_ne (hmarkers : TurnMarkers tokenizer start stop)
    (hwf : tokenizer.WellFormed) : stop ≠ start := by
  rintro rfl
  obtain ⟨token, htoken, htext⟩ := hwf.indexed.texts _ _ hmarkers.start_eq
  obtain ⟨token', htoken', htext'⟩ := hwf.indexed.texts _ _ hmarkers.stop_eq
  obtain rfl := Option.some.inj (htoken.symm.trans htoken')
  exact absurd (htext.symm.trans htext') (by decide)

/-- Where no start marker is spelled, no turn is opened. -/
theorem TurnMarkers.start_not_mem (hmarkers : TurnMarkers tokenizer start stop)
    (hwf : tokenizer.WellFormed) {text : Str} {ids : List TokenId}
    (h : tokenizer.Encodes text ids) (hfree : ¬startHeader <:+: text) : start ∉ ids :=
  h.not_mem hwf (by decide) markers_selfSpelled.1 hmarkers.start_eq hfree

/-- One turn, behind a text that opens none. -/
theorem TurnMarkers.turn (hmarkers : TurnMarkers tokenizer start stop)
    (hwf : tokenizer.WellFormed) (hmodel : tokenizer.model = .Gpt2Bpe) {role before rest : Str}
    (hrole : role ∈ acceptedRoles) (hbefore : ¬startHeader <:+: before) {ids : List TokenId}
    (h : tokenizer.Encodes (before ++ (turnHeader role ++ rest)) ids) :
    ∃ own later, (∀ tail, turnRoles start stop (ids ++ tail) =
        own :: turnRoles start stop (later ++ tail)) ∧
      tokenizer.decode own false = .ok role ∧ tokenizer.Encodes (['\n', '\n'] ++ rest) later := by
  obtain ⟨hnoStart, hnoStop, -⟩ := roles_plain role hrole
  have htext : before ++ (turnHeader role ++ rest) =
      before ++ (startHeader ++ (role ++ (endHeader ++ (['\n', '\n'] ++ rest)))) := by
    simp only [turnHeader, List.append_assoc]
  obtain ⟨front, first, back, rfl, hfirst, hfront, hback⟩ :=
    h.cut hmarkers.opens hmarkers.startMarker htext
  obtain ⟨own, second, later, rfl, hsecond, hown, hlater⟩ := hback.cut hmarkers.opens
    hmarkers.endMarker rfl
  obtain rfl := Option.some.inj (hmarkers.start_eq.symm.trans hfirst)
  obtain rfl := Option.some.inj (hmarkers.stop_eq.symm.trans hsecond)
  refine ⟨own, later, fun tail => ?_,
    hown.decode hwf hmodel (markers_selfSpelled.2.2 role hrole), hlater⟩
  have hnotStart := hmarkers.start_not_mem hwf hown (contains_eq_false.mp hnoStart)
  have hnotStop := hown.not_mem hwf (by decide) markers_selfSpelled.2.1 hmarkers.stop_eq
    (contains_eq_false.mp hnoStop)
  rw [List.append_assoc, turnRoles_append (hmarkers.start_not_mem hwf hfront hbefore),
    List.cons_append, List.append_assoc, List.cons_append]
  exact turnRoles_turn (hmarkers.stop_ne hwf) hnotStart hnotStop _

theorem TurnMarkers.closing (hmarkers : TurnMarkers tokenizer start stop)
    (hwf : tokenizer.WellFormed) (hmodel : tokenizer.model = .Gpt2Bpe) {before : Str}
    (hbefore : ¬startHeader <:+: before) (last : ChatMessage) {ids tail : List TokenId}
    (htail : start ∉ tail) (h : tokenizer.Encodes (before ++ Server.closing last) ids) :
    Writes tokenizer (turnRoles start stop (ids ++ tail)) (closingRole last) := by
  unfold Server.closing at h
  unfold closingRole
  split at h
  · rename_i hother
    rw [if_pos hother]
    rw [← List.append_nil (turnHeader assistantRole)] at h
    obtain ⟨own, later, hturns, hdecode, hlater⟩ := hmarkers.turn hwf hmodel (by decide) hbefore h
    have hnone : ¬startHeader <:+: ['\n', '\n'] ++ ([] : Str) :=
      contains_eq_false.mp (by decide +kernel)
    rw [hturns, turnRoles_append (hmarkers.start_not_mem hwf hlater hnone),
      turnRoles_of_not_mem htail]
    exact .cons hdecode .nil
  · rename_i hassistant
    rw [if_neg hassistant]
    rw [List.append_nil] at h
    rw [turnRoles_append (hmarkers.start_not_mem hwf h hbefore), turnRoles_of_not_mem htail]
    exact .nil

/-- By induction on the messages, each in front of a text that opens no turn. -/
theorem TurnMarkers.render (hmarkers : TurnMarkers tokenizer start stop)
    (hwf : tokenizer.WellFormed) (hmodel : tokenizer.model = .Gpt2Bpe) {tail : List TokenId}
    (htail : start ∉ tail) {messages : List ChatMessage} (hne : messages ≠ [])
    (hroles : AcceptedMessages messages)
    (hfree : ∀ message ∈ messages, ¬startHeader <:+: message.content) {before : Str}
    (hbefore : ¬startHeader <:+: before) {ids : List TokenId}
    (h : tokenizer.Encodes (before ++ renderLlama3InstructPrompt messages) ids) :
    Writes tokenizer (turnRoles start stop (ids ++ tail)) (requestedRoles messages) := by
  induction messages generalizing before ids with
  | nil => exact absurd rfl hne
  | cons message rest ih =>
    have hrole := hroles _ List.mem_cons_self
    rw [render_cons] at h
    rw [requestedRoles_cons]
    unfold renderTurn at h
    rw [List.append_assoc, List.append_assoc] at h
    obtain ⟨own, later, hturns, hdecode, hlater⟩ := hmarkers.turn hwf hmodel hrole hbefore h
    rw [hturns]
    refine .cons hdecode ?_
    -- past its opening, the turn is plain text in front of what follows
    have hcontent := turn_plain (hfree _ List.mem_cons_self)
    rw [← List.append_assoc, ← List.append_assoc] at hlater
    cases rest with
    | nil => exact hmarkers.closing hwf hmodel hcontent message htail hlater
    | cons next rest =>
      rw [if_neg (List.cons_ne_nil _ _)] at hlater ⊢
      exact ih (List.cons_ne_nil _ _) (fun m hm => hroles m (List.mem_cons_of_mem _ hm))
        (fun m hm => hfree m (List.mem_cons_of_mem _ hm)) hcontent hlater

/-- The ids that are put around a text open no turn. -/
theorem TurnMarkers.encode (hmarkers : TurnMarkers tokenizer start stop)
    (hwf : tokenizer.WellFormed) (hmodel : tokenizer.model = .Gpt2Bpe) {cls : CharClass}
    {messages : List ChatMessage} (hne : messages ≠ []) (hroles : AcceptedMessages messages)
    (hfree : ∀ message ∈ messages, ¬startHeader <:+: message.content) {addSpecial : Bool}
    {ids : List TokenId}
    (h : tokenizer.encode cls (renderLlama3InstructPrompt messages) addSpecial true = .ok ids) :
    Writes tokenizer (turnRoles start stop ids) (requestedRoles messages) := by
  obtain ⟨body, hbody, h⟩ := Outcome.bind_eq_ok.mp h
  obtain rfl := Outcome.ok.inj h
  have hnotMem : ∀ {added : Bool} {id : Option TokenId}, id ≠ some start →
      start ∉ if added then id.toList else [] := by
    intro added id hid hmem
    split at hmem
    · exact hid (Option.mem_toList.mp hmem)
    · exact List.not_mem_nil hmem
  rw [List.append_assoc, turnRoles_append (hnotMem hmarkers.bos)]
  have hnothing : ¬startHeader <:+: ([] : Str) := contains_eq_false.mp (by decide +kernel)
  exact hmarkers.render hwf hmodel (hnotMem hmarkers.eos) hne hroles hfree hnothing
    (Tokenizer.encodes_of_encodeBody hmodel hbody)

end Encoded

-- ---------------------------------------------------------------------------
-- Which turns can be forged
-- ---------------------------------------------------------------------------

/-- **What a Llama 3 prompt tells of its request**: where no content spells the end of its
turn and the opening of another, the prompt has no other list of messages behind it; and
where none spells the start marker, the turns in its ids are those of the request. -/
theorem render_llama3_faithful (messages : List ChatMessage) (hne : messages ≠ [])
    (hroles : AcceptedMessages messages) :
    (∀ messages', messages' ≠ [] → AcceptedMessages messages' →
      (∀ message ∈ messages ++ messages', message.forges = false) →
      renderLlama3InstructPrompt messages = renderLlama3InstructPrompt messages' →
      messages.map (fun message => (message.trimmedRole, message.content)) =
        messages'.map fun message => (message.trimmedRole, message.content)) ∧
    ∀ (cls : CharClass) (file : Gguf.GgufFile) (tokenizer : Tokenizer) (start stop : TokenId),
      Tokenizer.fromGguf file = .ok tokenizer → tokenizer.model = .Gpt2Bpe →
      TurnMarkers tokenizer start stop →
      (∀ message ∈ messages, contains startHeader message.content = false) →
      ∀ (addSpecial : Bool) (ids : List TokenId),
        tokenizer.encode cls (renderLlama3InstructPrompt messages) addSpecial true = .ok ids →
        Writes tokenizer (turnRoles start stop ids) (requestedRoles messages) := by
  refine ⟨fun messages' hne' hroles' hfree h => ?_, ?_⟩
  · exact render_inj hne hne' hroles hroles' (fun m hm => hfree m (List.mem_append_left _ hm))
      (fun m hm => hfree m (List.mem_append_right _ hm)) h
  · intro cls file tokenizer start stop hfile hmodel hmarkers hfree addSpecial ids h
    exact hmarkers.encode (Tokenizer.fromGguf_wellFormed hfile) hmodel hne hroles
      (fun m hm => contains_eq_false.mp (hfree m hm)) h

def userRole : Str := "user".toList

/-- A user turn and a second one, and one turn whose content spells both. -/
def twoTurns : List ChatMessage := [⟨userRole, ['a']⟩, ⟨userRole, ['b']⟩]
def forgedTurn : List ChatMessage :=
  [⟨userRole, ['a'] ++ eotMarker ++ turnHeader userRole ++ ['b']⟩]

/-- The markers as control tokens, more of them, and the letters of the roles. -/
def chatFile (model : String) (more : List Str) : Gguf.GgufFile where
  version := 3
  tensorCount := 0
  metadataCount := 4
  alignment := 32
  dataStartOffset := 0
  metadata :=
    (((∅ : Gguf.Metadata).insert "tokenizer.ggml.model".toList (.String model.toList)).insert
      "tokenizer.ggml.pre".toList (.String "llama-bpe".toList)).insert
      "tokenizer.ggml.tokens".toList (.Array ((markers ++ letters).map .String))
    |>.insert "tokenizer.ggml.token_type".toList
        (.Array (markers.map (fun _ => .I32 3) ++ letters.map fun _ => .I32 1))
  tensors := []
where
  markers : List Str :=
    ["<unk>".toList, "<s>".toList, "</s>".toList, startHeader, endHeader, eotMarker] ++ more
  letters : List Str :=
    [spmSpace, 'Ċ', 'a', 'b', 'e', 'i', 'n', 'r', 's', 't', 'u'].map fun letter => [letter]

/-- The ids of the two turns, and of the turn that is opened for the reply. -/
def twoTurnsIds : List TokenId :=
  [3, 16, 14, 10, 13, 4, 7, 7, 8, 5, 3, 16, 14, 10, 13, 4, 7, 7, 9, 5,
    3, 8, 14, 14, 11, 14, 15, 8, 12, 15, 4, 7, 7]

theorem render_llama3_faithful_two :
    (∀ messages', messages' ≠ [] → AcceptedMessages messages' →
      (∀ message ∈ messages', message.forges = false) →
      renderLlama3InstructPrompt twoTurns = renderLlama3InstructPrompt messages' →
      [(userRole, ['a']), (userRole, ['b'])] =
        messages'.map fun message => (message.trimmedRole, message.content)) ∧
    ∃ tokenizer, Tokenizer.fromGguf (chatFile "gpt2" []) = .ok tokenizer ∧
      tokenizer.encode Tokenizer.asciiClass (renderLlama3InstructPrompt twoTurns) true true =
        .ok twoTurnsIds ∧
      Writes tokenizer (turnRoles 3 4 twoTurnsIds) [userRole, userRole, assistantRole] := by
  have hrun : (Tokenizer.fromGguf (chatFile "gpt2" []) >>= fun tokenizer =>
      (.ok (decide (tokenizer.model = .Gpt2Bpe ∧ TurnMarkers tokenizer 3 4 ∧
        tokenizer.encode Tokenizer.asciiClass (renderLlama3InstructPrompt twoTurns) true true =
          .ok twoTurnsIds)) : EngineResult _)) = .ok true := by
    decide +kernel
  obtain ⟨tokenizer, hfile, hrun⟩ := Outcome.bind_eq_ok.mp hrun
  obtain ⟨hmodel, hmarkers, hencode⟩ := of_decide_eq_true (Outcome.ok.inj hrun)
  have hfree : ∀ message ∈ twoTurns, message.forges = false := by decide +kernel
  obtain ⟨hinj, hturns⟩ :=
    render_llama3_faithful twoTurns (List.cons_ne_nil _ _) (by decide +kernel)
  refine ⟨fun messages' hne' hroles' hfree' h => ?_, tokenizer, hfile, hencode, ?_⟩
  · have hall : ∀ message ∈ twoTurns ++ messages', message.forges = false :=
      fun m hm => (List.mem_append.mp hm).elim (hfree m) (hfree' m)
    exact (by decide +kernel : _ = twoTurns.map fun message =>
      (message.trimmedRole, message.content)).trans (hinj messages' hne' hroles' hall h)
  · exact hturns _ _ tokenizer 3 4 hfile hmodel hmarkers (by decide +kernel) true _ hencode

/-- In every vocabulary of a kind the turns in the ids of a prompt are those of the request,
where its contents are of a kind. -/
def TurnsSeen (vocabulary : Tokenizer → TokenId → TokenId → Prop) (plain : Str → Prop) : Prop :=
  ∀ (cls : CharClass) (file : Gguf.GgufFile) (tokenizer : Tokenizer) (start stop : TokenId)
    (messages : List ChatMessage) (ids : List TokenId),
    Tokenizer.fromGguf file = .ok tokenizer → vocabulary tokenizer start stop → messages ≠ [] →
    AcceptedMessages messages → (∀ message ∈ messages, plain message.content) →
    tokenizer.encode cls (renderLlama3InstructPrompt messages) true true = .ok ids →
    Writes tokenizer (turnRoles start stop ids) (requestedRoles messages)

theorem not_turnsSeen {vocabulary : Tokenizer → TokenId → TokenId → Prop} {plain : Str → Prop}
    [∀ tokenizer start stop, Decidable (vocabulary tokenizer start stop)] [DecidablePred plain]
    (file : Gguf.GgufFile) (messages : List ChatMessage) (ids : List TokenId)
    (hne : messages ≠ []) (hroles : AcceptedMessages messages)
    (hplain : ∀ message ∈ messages, plain message.content)
    (hrun : (Tokenizer.fromGguf file >>= fun tokenizer =>
      (.ok (decide (vocabulary tokenizer 3 4 ∧
        tokenizer.encode Tokenizer.asciiClass (renderLlama3InstructPrompt messages) true true =
          .ok ids ∧
        ¬Writes tokenizer (turnRoles 3 4 ids) (requestedRoles messages))) : EngineResult _)) =
      .ok true) : ¬TurnsSeen vocabulary plain := by
  intro hseen
  obtain ⟨tokenizer, hfile, hrun⟩ := Outcome.bind_eq_ok.mp hrun
  obtain ⟨hvocabulary, hencode, hnot⟩ := of_decide_eq_true (Outcome.ok.inj hrun)
  exact hnot (hseen _ file tokenizer 3 4 messages ids hfile hvocabulary hne hroles hplain hencode)

/-- **Contents are not escaped.** One can end its own turn and open another: the prompt is
that of two turns, and so are its ids. With a token that extends the start marker a turn is
not seen at all, and SentencePiece puts a blank in front of each role. -/
theorem render_llama3_forged :
    (¬∀ messages messages' : List ChatMessage, messages ≠ [] → messages' ≠ [] →
      AcceptedMessages messages → AcceptedMessages messages' →
      renderLlama3InstructPrompt messages = renderLlama3InstructPrompt messages' →
      messages.map (fun message => (message.trimmedRole, message.content)) =
        messages'.map fun message => (message.trimmedRole, message.content)) ∧
    ¬TurnsSeen (fun tokenizer start stop => tokenizer.model = .Gpt2Bpe ∧
      TurnMarkers tokenizer start stop) (fun _ => True) ∧
    ¬TurnsSeen (fun tokenizer start stop => tokenizer.model = .Gpt2Bpe ∧
      tokenizer.tokenToId.lookup startHeader = some start ∧ tokenizer.isControl start = true ∧
      tokenizer.tokenToId.lookup endHeader = some stop ∧ tokenizer.isControl stop = true)
      (fun content => contains startHeader content = false) ∧
    ¬TurnsSeen TurnMarkers (fun content => contains startHeader content = false) := by
  refine ⟨fun hall => ?_, ?_, ?_, ?_⟩
  · have hsame := hall twoTurns forgedTurn (List.cons_ne_nil _ _) (List.cons_ne_nil _ _)
      (by decide +kernel) (by decide +kernel) (by decide +kernel)
    have hlength := congrArg List.length hsame
    cases hlength
  · -- the content opens a turn of the user
    exact not_turnsSeen (chatFile "gpt2" []) forgedTurn twoTurnsIds
      (List.cons_ne_nil _ _) (by decide +kernel) (fun _ _ => trivial) (by decide +kernel)
  · -- `<|start_header_id|>user` is a token of its own, and no start
    exact not_turnsSeen (chatFile "gpt2" [startHeader ++ userRole]) twoTurns
      [6, 4, 8, 8, 9, 5, 6, 4, 8, 8, 10, 5, 3, 9, 15, 15, 12, 15, 16, 9, 13, 16, 4, 8, 8]
      (List.cons_ne_nil _ _) (by decide +kernel) (by decide +kernel) (by decide +kernel)
  · exact not_turnsSeen (chatFile "llama" []) twoTurns
      [1, 3, 6, 16, 14, 10, 13, 4, 6, 0, 0, 8, 5, 3, 6, 16, 14, 10, 13, 4, 6, 0, 0, 9, 5,
        3, 6, 8, 14, 14, 11, 14, 15, 8, 12, 15, 4, 6, 0, 0]
      (List.cons_ne_nil _ _) (by decide +kernel) (by decide +kernel) (by decide +kernel)

end CamelidEnterprise.Server
