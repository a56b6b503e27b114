import CamelidEnterprise.Engine.Error
import CamelidEnterprise.Foundation.Text

/-!
# Camelid Enterprise — chat prompts

`crates/server/src/in_tree.rs`, from the messages of a chat request to the text the
tokenizer gets. A Llama 3 template is not run: its prompt is put together by
`renderLlama3InstructPrompt`. Any other template is run by a template engine, which
is a parameter here, as is the lower case of a character.
-/

namespace CamelidEnterprise.Server

open Foundation Foundation.Text

/-- `ChatMessage` -/
structure ChatMessage where
  role : Str
  content : Str
deriving DecidableEq, Repr

/-- `ChatTemplate` -/
structure ChatTemplate where
  source : Str
  bosToken : Str
  eosToken : Str
  eotToken : Str
  eomToken : Str
  unkToken : Str
deriving DecidableEq, Repr

/-- `RenderedChatPrompt` -/
structure RenderedChatPrompt where
  text : Str
  addSpecial : Bool
  parseSpecial : Bool
deriving DecidableEq, Repr

/-- What rendering uses that is not of this repository: `char::to_lowercase`, and the
template engine with the roles and contents of the messages. -/
structure ChatRenderer where
  toLowercase : Char → List Char
  render : List (Str × Str) → ChatTemplate → Except Str Str

def startHeader : Str := "<|start_header_id|>".toList
def endHeader : Str := "<|end_header_id|>".toList
def eotMarker : Str := "<|eot_id|>".toList

/-- The role a message is rendered under. -/
def ChatMessage.trimmedRole (message : ChatMessage) : Str := trim message.role

/-- The line that opens a turn. -/
def turnHeader (role : Str) : Str := startHeader ++ role ++ endHeader ++ ['\n', '\n']

/-- One pass of the loop of `render_llama3_instruct_prompt`. -/
def renderTurn (message : ChatMessage) : Str :=
  turnHeader message.trimmedRole ++ message.content ++ eotMarker

def assistantRole : Str := "assistant".toList

/-- `render_llama3_instruct_prompt` -/
def renderLlama3InstructPrompt (messages : List ChatMessage) : Str :=
  messages.flatMap renderTurn ++
    match messages.getLast? with
    | some last => if last.trimmedRole ≠ assistantRole then turnHeader assistantRole else []
    | none => turnHeader assistantRole

/-- `is_llama3_instruct_template` -/
def isLlama3InstructTemplate (template : Str) : Bool :=
  contains startHeader template && contains endHeader template && contains eotMarker template

/-- `is_llama32_metadata_jinja_exact_row_model_id` -/
def isLlama32MetadataJinjaExactRowModelId (renderer : ChatRenderer) (modelId : Str) : Bool :=
  let normalized := (modelId.flatMap renderer.toLowercase).map fun character =>
    if character = '-' ∨ character = '.' ∨ character = ' ' then '_' else character
  contains "llama32_1b_instruct_q8_0".toList normalized ||
    contains "llama_3_2_1b_instruct_q8_0".toList normalized ||
    contains "llama32_3b_instruct_q8_0".toList normalized ||
    contains "llama_3_2_3b_instruct_q8_0".toList normalized

/-- `render_metadata_chat_template` -/
def renderMetadataChatTemplate (renderer : ChatRenderer) (messages : List ChatMessage)
    (template : ChatTemplate) : Except Str Str :=
  renderer.render (messages.map fun message => (message.trimmedRole, message.content)) template

/-- `render_chat_prompt` -/
def renderChatPrompt (renderer : ChatRenderer) (messages : List ChatMessage)
    (template : ChatTemplate) (modelId : Str) : Except Str RenderedChatPrompt :=
  if isLlama3InstructTemplate template.source &&
      !isLlama32MetadataJinjaExactRowModelId renderer modelId then
    .ok ⟨renderLlama3InstructPrompt messages, true, true⟩
  else
    match renderMetadataChatTemplate renderer messages template with
    | .error error => .error error
    | .ok rendered =>
      .ok ⟨rendered, template.bosToken.isEmpty || !template.bosToken.isPrefixOf rendered, true⟩

-- ---------------------------------------------------------------------------
-- What a prompt tells of its messages
-- ---------------------------------------------------------------------------

/-- The roles a chat request may have. -/
def acceptedRoles : List Str := ["system".toList, "user".toList, assistantRole]

/-- Every message has a role the handler accepts. -/
def AcceptedMessages (messages : List ChatMessage) : Prop :=
  ∀ message ∈ messages, message.trimmedRole ∈ acceptedRoles

instance (messages : List ChatMessage) : Decidable (AcceptedMessages messages) :=
  inferInstanceAs (Decidable (∀ message ∈ messages, message.trimmedRole ∈ acceptedRoles))

/-- A content that spells the end of its own turn and the opening of another. -/
def ChatMessage.forges (message : ChatMessage) : Bool :=
  acceptedRoles.any fun role => contains (eotMarker ++ turnHeader role) message.content

/-- The markers, with the first character apart. -/
theorem markers_fresh : (∃ cs, startHeader = '<' :: cs ∧ '<' ∉ cs) ∧
    (∃ cs, endHeader = '<' :: cs ∧ '<' ∉ cs) ∧ ∃ cs, eotMarker = '<' :: cs ∧ '<' ∉ cs :=
  ⟨⟨"|start_header_id|>".toList, rfl, by decide⟩, ⟨"|end_header_id|>".toList, rfl, by decide⟩,
    ⟨"|eot_id|>".toList, rfl, by decide⟩⟩

/-- No role spells a marker. -/
theorem roles_plain : ∀ role ∈ acceptedRoles, contains startHeader role = false ∧
    contains endHeader role = false ∧ contains eotMarker (turnHeader role) = false := by
  decide +kernel

/-- What follows the last turn. -/
def closing (last : ChatMessage) : Str :=
  if last.trimmedRole ≠ assistantRole then turnHeader assistantRole else []

theorem render_cons (message : ChatMessage) (messages : List ChatMessage) :
    renderLlama3InstructPrompt (message :: messages) = renderTurn message ++
      if messages = [] then closing message else renderLlama3InstructPrompt messages := by
  unfold renderLlama3InstructPrompt
  rw [List.flatMap_cons, List.append_assoc]
  cases messages with
  | nil => rfl
  | cons next rest => rw [if_neg (List.cons_ne_nil next rest), List.getLast?_cons_cons]

/-- What stands behind a turn: nothing, or the opening of another. -/
def Opens (rest : Str) : Prop := rest = [] ∨ ∃ role ∈ acceptedRoles, turnHeader role <+: rest

/-- No end marker begins in the opening of a turn. -/
theorem header_plain : ∀ role ∈ acceptedRoles, ∀ k < (turnHeader role).length,
    ∃ pair ∈ ((turnHeader role).drop k).zip eotMarker, pair.1 ≠ pair.2 := by
  decide +kernel

/-- Two beginnings of a text agree as far as both reach. -/
theorem zip_agree {a b s t : Str} (h : a ++ s = b ++ t) : ∀ pair ∈ a.zip b, pair.1 = pair.2 := by
  induction a generalizing b with
  | nil => exact fun pair hpair => absurd hpair List.not_mem_nil
  | cons x a ih =>
    cases b with
    | nil => exact fun pair hpair => absurd hpair List.not_mem_nil
    | cons y b =>
      obtain ⟨rfl, htail⟩ := List.cons.inj h
      rw [List.zip_cons_cons]
      exact List.forall_mem_cons.mpr ⟨rfl, ih htail⟩

/-- Between a content and its end marker there is no room for another one, unless the text
there forges a turn. -/
theorem eq_nil_of_turn {content d rest rest' : Str}
    (hfree : ∀ role ∈ acceptedRoles, ¬eotMarker ++ turnHeader role <:+: content ++ d)
    (hopens : Opens rest) (h : eotMarker ++ rest = d ++ (eotMarker ++ rest')) : d = [] := by
  obtain ⟨-, -, cs, heot, hfresh⟩ := markers_fresh
  rcases split_append h with ⟨e, rfl, hrest⟩ | ⟨e, he, hmarker, hrest⟩
  · -- the whole marker is in front, and what follows it opens a turn
    exfalso
    rcases hopens with rfl | ⟨role, hrole, more, rfl⟩
    · have hnil := (List.append_eq_nil_iff.mp (List.append_eq_nil_iff.mp hrest.symm).2).1
      rw [heot] at hnil
      cases hnil
    rcases split_append hrest with ⟨g, rfl, -⟩ | ⟨g, hg, hheader, hlater⟩
    · exact hfree role hrole ⟨content, g, by simp only [List.append_assoc]⟩
    · have hlen := congrArg List.length hheader
      rw [List.length_append] at hlen
      have hpos := List.length_pos_iff.mpr hg
      obtain ⟨pair, hpair, hne⟩ := header_plain role hrole e.length (by omega)
      rw [hheader, List.drop_left] at hpair
      exact hne (zip_agree hlater.symm pair hpair)
  · cases d with
    | nil => rfl
    | cons x d =>
      -- the marker would begin again inside itself
      obtain ⟨y, e, rfl⟩ := List.exists_cons_of_ne_nil he
      rw [heot] at hmarker hrest
      obtain ⟨-, hcs⟩ := List.cons.inj hmarker
      obtain ⟨rfl, -⟩ := List.cons.inj hrest
      exact absurd (hcs ▸ List.mem_append_right _ List.mem_cons_self) hfresh

/-- A content that forges no turn ends where its end marker begins. -/
theorem content_inj {content content' rest rest' : Str}
    (hfree : ∀ role ∈ acceptedRoles, ¬eotMarker ++ turnHeader role <:+: content)
    (hfree' : ∀ role ∈ acceptedRoles, ¬eotMarker ++ turnHeader role <:+: content')
    (hopens : Opens rest) (hopens' : Opens rest')
    (h : content ++ (eotMarker ++ rest) = content' ++ (eotMarker ++ rest')) :
    content = content' ∧ rest = rest' := by
  have hsame : content = content' := by
    rcases List.append_eq_append_iff.mp h with ⟨d, rfl, hd⟩ | ⟨d, rfl, hd⟩
    · rw [eq_nil_of_turn hfree' hopens hd, List.append_nil]
    · rw [eq_nil_of_turn hfree hopens' hd, List.append_nil]
  subst hsame
  exact ⟨rfl, List.append_cancel_left (List.append_cancel_left h)⟩

/-- The first turn of a prompt can be read off it. -/
theorem renderTurn_inj {message message' : ChatMessage}
    (hrole : message.trimmedRole ∈ acceptedRoles) (hrole' : message'.trimmedRole ∈ acceptedRoles)
    (hfree : message.forges = false) (hfree' : message'.forges = false) {rest rest' : Str}
    (hopens : Opens rest) (hopens' : Opens rest')
    (h : renderTurn message ++ rest = renderTurn message' ++ rest') :
    message.trimmedRole = message'.trimmedRole ∧ message.content = message'.content ∧
      rest = rest' := by
  obtain ⟨-, ⟨endTail, hend, hendFresh⟩, -⟩ := markers_fresh
  have hplain : ∀ role ∈ acceptedRoles, ¬endHeader <:+: role := fun role hmem =>
    contains_eq_false.mp (roles_plain role hmem).2.1
  have hforges : ∀ {m : ChatMessage}, m.forges = false → ∀ role ∈ acceptedRoles,
      ¬eotMarker ++ turnHeader role <:+: m.content := fun hno role hmem =>
    contains_eq_false.mp (Bool.eq_false_iff.mpr (List.any_eq_false.mp hno role hmem))
  unfold renderTurn turnHeader at h
  simp only [List.append_assoc] at h
  have hafter := List.append_cancel_left h
  -- the role ends where its marker begins,
  have hroles : message.trimmedRole = message'.trimmedRole ∧
      ['\n', '\n'] ++ (message.content ++ (eotMarker ++ rest)) =
        ['\n', '\n'] ++ (message'.content ++ (eotMarker ++ rest')) := by
    have hleft := hplain _ hrole
    have hright := hplain _ hrole'
    rw [hend] at hafter hleft hright
    exact cut_unique hendFresh hleft hright hafter
  -- and so does the content
  have hcontents := List.append_cancel_left hroles.2
  exact ⟨hroles.1, content_inj (hforges hfree) (hforges hfree') hopens hopens' hcontents⟩

/-- What stands behind a turn of a prompt. -/
theorem opens_after (message : ChatMessage) {messages : List ChatMessage}
    (hroles : AcceptedMessages messages) :
    Opens (if messages = [] then closing message else renderLlama3InstructPrompt messages) := by
  cases messages with
  | nil =>
    rw [if_pos rfl]
    unfold closing
    split
    · exact .inr ⟨assistantRole, by decide, List.prefix_rfl⟩
    · exact .inl rfl
  | cons next rest =>
    rw [if_neg (List.cons_ne_nil _ _), render_cons]
    unfold renderTurn
    rw [List.append_assoc, List.append_assoc]
    exact .inr ⟨next.trimmedRole, hroles _ List.mem_cons_self, List.prefix_append _ _⟩

/-- After the last turn no turn follows. -/
theorem closing_ne_render {last message : ChatMessage} (messages : List ChatMessage) :
    closing last ≠ renderLlama3InstructPrompt (message :: messages) := by
  intro h
  have hturn : eotMarker <:+: renderLlama3InstructPrompt (message :: messages) := by
    rw [render_cons]
    exact ⟨turnHeader message.trimmedRole ++ message.content, _, rfl⟩
  rw [← h] at hturn
  unfold closing at hturn
  split at hturn
  · exact contains_eq_false.mp (roles_plain assistantRole (by decide)).2.2 hturn
  · exact absurd (List.infix_nil.mp hturn) (by decide)

/-- Without a forged turn in a content a prompt has only one list of messages. -/
theorem render_inj {messages messages' : List ChatMessage} (hne : messages ≠ [])
    (hne' : messages' ≠ []) (hroles : AcceptedMessages messages)
    (hroles' : AcceptedMessages messages')
    (hfree : ∀ message ∈ messages, message.forges = false)
    (hfree' : ∀ message ∈ messages', message.forges = false)
    (h : renderLlama3InstructPrompt messages = renderLlama3InstructPrompt messages') :
    messages.map (fun message => (message.trimmedRole, message.content)) =
      messages'.map fun message => (message.trimmedRole, message.content) := by
  induction messages generalizing messages' with
  | nil => exact absurd rfl hne
  | cons message rest ih =>
    cases messages' with
    | nil => exact absurd rfl hne'
    | cons message' rest' =>
      rw [render_cons, render_cons] at h
      obtain ⟨hrole, hcontent, hrest⟩ :=
        renderTurn_inj (hroles _ List.mem_cons_self) (hroles' _ List.mem_cons_self)
          (hfree _ List.mem_cons_self) (hfree' _ List.mem_cons_self)
          (opens_after message fun m hm => hroles m (List.mem_cons_of_mem _ hm))
          (opens_after message' fun m hm => hroles' m (List.mem_cons_of_mem _ hm)) h
      have htail : rest.map (fun message => (message.trimmedRole, message.content)) =
          rest'.map fun message => (message.trimmedRole, message.content) := by
        cases rest with
        | nil =>
          cases rest' with
          | nil => rfl
          | cons next later =>
            rw [if_pos rfl, if_neg (List.cons_ne_nil next later)] at hrest
            exact absurd hrest (closing_ne_render later)
        | cons next later =>
          cases rest' with
          | nil =>
            rw [if_pos rfl, if_neg (List.cons_ne_nil next later)] at hrest
            exact absurd hrest.symm (closing_ne_render later)
          | cons next' later' =>
            rw [if_neg (List.cons_ne_nil _ _), if_neg (List.cons_ne_nil _ _)] at hrest
            exact ih (List.cons_ne_nil _ _) (List.cons_ne_nil _ _)
              (fun m hm => hroles m (List.mem_cons_of_mem _ hm))
              (fun m hm => hroles' m (List.mem_cons_of_mem _ hm))
              (fun m hm => hfree m (List.mem_cons_of_mem _ hm))
              (fun m hm => hfree' m (List.mem_cons_of_mem _ hm)) hrest
      rw [List.map_cons, List.map_cons, hrole, hcontent, htail]

-- ---------------------------------------------------------------------------
-- What the model sees of a prompt
-- ---------------------------------------------------------------------------

/-- No turn opens between the opening of one and its end. -/
theorem turn_plain {content : Str} (hfree : ¬startHeader <:+: content) :
    ¬startHeader <:+: ['\n', '\n'] ++ content ++ eotMarker := by
  obtain ⟨⟨cs, hstart, hfresh⟩, -, -⟩ := markers_fresh
  have heot : ¬startHeader <:+: eotMarker := contains_eq_false.mp (by decide +kernel)
  rw [hstart] at hfree heot ⊢
  intro h
  rcases infix_append_of_head (by intro x hx; cases hx; exact hfresh) h with h | h
  · -- two line feeds in front of a text hold no beginning of a marker
    simp only [List.cons_append, List.nil_append, List.infix_cons_iff] at h
    rcases h with h | h | h
    · exact absurd (List.cons_prefix_cons.mp h).1 (by decide)
    · exact absurd (List.cons_prefix_cons.mp h).1 (by decide)
    · exact hfree h
  · exact heot h

/-- The turn the model is to write, if the last message leaves it to it. -/
def closingRole (last : ChatMessage) : List Str :=
  if last.trimmedRole ≠ assistantRole then [assistantRole] else []

/-- The turns the request asks for: its messages, and the reply. -/
def requestedRoles (messages : List ChatMessage) : List Str :=
  messages.map ChatMessage.trimmedRole ++
    match messages.getLast? with
    | some last => closingRole last
    | none => [assistantRole]

theorem requestedRoles_cons (message : ChatMessage) (messages : List ChatMessage) :
    requestedRoles (message :: messages) = message.trimmedRole ::
      if messages = [] then closingRole message else requestedRoles messages := by
  cases messages with
  | nil => rfl
  | cons next rest =>
    rw [if_neg (List.cons_ne_nil next rest)]
    unfold requestedRoles
    rw [List.getLast?_cons_cons]
    rfl

end CamelidEnterprise.Server
