import CamelidEnterprise.Gateway.OrgSlots
import CamelidEnterprise.Gateway.Selection
import Mathlib.Data.List.Pairwise
import Mathlib.Data.List.Perm.Subperm

/-!
# Camelid Enterprise — what selection may hold

`ModelSelectionLimits`, `acquire_selection_capacity` and `SelectionPermits` of
`crates/gateway/src/lib.rs`. A generation request of a catalog takes a permit of its organization
and then one of the gateway before it reads its body, and gives both back when it is routed or
refused: the permit of the organization first, as the fields of `SelectionPermits` are dropped.

The calls of `acquire` are those of `OrgSelectionAdmission`; a request is one of them that got its
permit, or any request where there is no authentication. Deadlines and cancellations may come at
any time, and which of the waiting requests gets a permit is left open.

* `selection_capacity` — the bodies fit the budget, an organization has its share, and what is left
  for the others;
* `alone_with_all` — for as long as permits are on their way back, one organization may have all.
-/

namespace CamelidEnterprise.Gateway

open Foundation Foundation.Json Foundation.Http Foundation.Text

-- ---------------------------------------------------------------------------
-- Limits
-- ---------------------------------------------------------------------------

/-- `ModelSelectionLimits`, with what bounds the work of all requests. -/
structure SelectionLimits extends ModelSelectionLimits where
  memoryBudgetBytes : Nat
  bytesPerSelector : Nat
  maxConcurrent : Nat
  reserved : bytesPerSelector = maxBodyBytes * 2
  slots : maxConcurrent = memoryBudgetBytes / bytesPerSelector
  concurrent : 0 < maxConcurrent

/-- `ModelSelectionLimits::new` -/
def SelectionLimits.new (maxBodyBytes memoryBudgetBytes : Nat) (positive : 0 < maxBodyBytes) :
    Except String SelectionLimits :=
  if maxBodyBytes * 2 < 2 ^ 64 then
    if hbudget : memoryBudgetBytes < maxBodyBytes * 2 then
      .error ("model selection memory budget must reserve both the request body and a decoded " ++
        "model id")
    else .ok
      { maxBodyBytes, positive, memoryBudgetBytes
        bytesPerSelector := maxBodyBytes * 2
        maxConcurrent := memoryBudgetBytes / (maxBodyBytes * 2)
        reserved := rfl
        slots := rfl
        concurrent := Nat.div_pos (by omega) (by omega) }
  else .error "max model selection body size is too large to reserve a decoded model id"

namespace SelectionLimits

/-- `default_max_org_selections` -/
def defaultMaxOrgSelections (limits : SelectionLimits) : Nat :=
  if limits.maxConcurrent / 2 = 0 then 1 else limits.maxConcurrent / 2

/-- Every slot is a body and a model id. -/
theorem slots_le_budget (limits : SelectionLimits) :
    limits.maxConcurrent * (limits.maxBodyBytes * 2) ≤ limits.memoryBudgetBytes := by
  rw [limits.slots, ← limits.reserved]
  exact Nat.div_mul_le_self _ _

/-- One organization gets half of the slots, where there is more than one. -/
theorem default_le_half (limits : SelectionLimits) (h : 2 ≤ limits.maxConcurrent) :
    2 * limits.defaultMaxOrgSelections ≤ limits.maxConcurrent := by
  unfold defaultMaxOrgSelections
  rw [if_neg (by omega)]
  omega

end SelectionLimits

-- ---------------------------------------------------------------------------
-- Requests in selection
-- ---------------------------------------------------------------------------

/-- Where a request is between the permit of its organization and the end of its selection. -/
inductive SelectorPhase
  /-- it waits for a slot of the gateway -/
  | waiting
  | reading (body : List UInt8)
  | routed (body : List UInt8) (modelId : Text)
  /-- its selection resolved, and the permits are to be dropped -/
  | resolved
  /-- the permit of the organization is dropped -/
  | leaving
  | gone
deriving DecidableEq

/-- A request in selection, and its call of `acquire` when it made one. -/
structure Selector where
  call : Option Nat
  phase : SelectorPhase

/-- What a request holds of its body. -/
def Selector.memory (selector : Selector) : Nat :=
  match selector.phase with
  | .reading body => body.length
  | .routed body modelId => body.length + byteLen modelId
  | _ => 0

/-- A slot of the gateway is taken. -/
def SelectorPhase.slotted : SelectorPhase → Bool
  | .reading _ => true
  | .routed _ _ => true
  | .resolved => true
  | .leaving => true
  | _ => false

/-- The permit of the organization is held. -/
def SelectorPhase.shares : SelectorPhase → Bool
  | .waiting => true
  | .reading _ => true
  | .routed _ _ => true
  | .resolved => true
  | _ => false

/-- The admission of a gateway to selection: the calls of `acquire`, the free slots, and the
requests. -/
structure SelectorWork where
  admission : Admission
  free : Nat
  selectors : List Selector

/-- What can happen next. -/
inductive SelectorAction
  /-- a call of `acquire` goes on -/
  | organization (action : SlotAction)
  /-- a request starts to wait for a slot -/
  | enter (call : Option Nat)
  | slot (selector : Nat)
  | frame (selector : Nat) (bytes : List UInt8)
  | finished (selector : Nat)
  /-- routed, refused, out of time or cancelled -/
  | resolve (selector : Nat)
  /-- the permit of the organization is dropped -/
  | release (selector : Nat)
  | free (selector : Nat)

namespace SelectorWork

/-- The calls that went on to wait for a slot. -/
def entered (s : SelectorWork) : List Nat := s.selectors.filterMap Selector.call

/-- A request goes on to another phase. -/
def move (s : SelectorWork) (i : Nat) (call : Option Nat) (phase : SelectorPhase) : SelectorWork :=
  { s with selectors := s.selectors.set i ⟨call, phase⟩ }

end SelectorWork

section Model

variable (parser : Parser) (limits : SelectionLimits) (maxOrg : Option Nat)

/-- The steps of the requests; `maxOrg` is the bound of an organization, if they authenticate. -/
inductive SelectorStep : SelectorWork → SelectorAction → Unit → SelectorWork → Prop
  | organization {s : SelectorWork} {action : SlotAction} {admission : Admission} {limit : Nat}
      (hlimit : maxOrg = some limit) (hstep : SlotStep limit s.admission action () admission)
      (hkept : ∀ call, action = .release call → call ∉ s.entered) :
      SelectorStep s (.organization action) () { s with admission }
  | enterShared {s : SelectorWork} {call semaphore : Nat} {organization : Str}
      (hcall : s.admission.calls[call]? = some ⟨organization, .holding semaphore⟩)
      (hfirst : call ∉ s.entered) :
      SelectorStep s (.enter (some call)) ()
        { s with selectors := s.selectors ++ [⟨some call, .waiting⟩] }
  | enter {s : SelectorWork} (hlimit : maxOrg = none) :
      SelectorStep s (.enter none) () { s with selectors := s.selectors ++ [⟨none, .waiting⟩] }
  | slot {s : SelectorWork} {i free : Nat} {call : Option Nat}
      (hselector : s.selectors[i]? = some ⟨call, .waiting⟩) (hfree : s.free = free + 1) :
      SelectorStep s (.slot i) () { s.move i call (.reading []) with free }
  | frame {s : SelectorWork} {i : Nat} {call : Option Nat} {body bytes : List UInt8}
      (hselector : s.selectors[i]? = some ⟨call, .reading body⟩)
      (hlimited : (body ++ bytes).length ≤ limits.maxBodyBytes) :
      SelectorStep s (.frame i bytes) () (s.move i call (.reading (body ++ bytes)))
  | finished {s : SelectorWork} {i : Nat} {call : Option Nat} {body : List UInt8} {modelId : Text}
      (hselector : s.selectors[i]? = some ⟨call, .reading body⟩)
      (hmodel : readModelSelection parser body = some (some modelId)) :
      SelectorStep s (.finished i) () (s.move i call (.routed body modelId))
  | resolve {s : SelectorWork} {i : Nat} {call : Option Nat} {phase : SelectorPhase}
      (hselector : s.selectors[i]? = some ⟨call, phase⟩)
      (hreads : (∃ body, phase = .reading body) ∨ ∃ body modelId, phase = .routed body modelId) :
      SelectorStep s (.resolve i) () (s.move i call .resolved)
  | releaseShared {s : SelectorWork} {i call limit : Nat} {admission : Admission}
      {phase next : SelectorPhase} (hlimit : maxOrg = some limit)
      (hselector : s.selectors[i]? = some ⟨some call, phase⟩)
      (hnext : phase = .waiting ∧ next = .gone ∨ phase = .resolved ∧ next = .leaving)
      (hstep : SlotStep limit s.admission (.release call) () admission) :
      SelectorStep s (.release i) () { s.move i (some call) next with admission }
  | release {s : SelectorWork} {i : Nat} {phase next : SelectorPhase}
      (hselector : s.selectors[i]? = some ⟨none, phase⟩)
      (hnext : phase = .waiting ∧ next = .gone ∨ phase = .resolved ∧ next = .leaving) :
      SelectorStep s (.release i) () (s.move i none next)
  | free {s : SelectorWork} {i : Nat} {call : Option Nat}
      (hselector : s.selectors[i]? = some ⟨call, .leaving⟩) :
      SelectorStep s (.free i) () { s.move i call .gone with free := s.free + 1 }

/-- A gateway that has no requests yet. -/
def selection : Machine SelectorWork SelectorAction Unit where
  start s := s = ⟨.new, limits.maxConcurrent, []⟩
  step := SelectorStep parser limits maxOrg

end Model

-- ---------------------------------------------------------------------------
-- What holds of a state
-- ---------------------------------------------------------------------------

/-- What a request holds of its body fits what was reserved for it. -/
def Selector.Fits (limits : SelectionLimits) (selector : Selector) : Prop :=
  match selector.phase with
  | .reading body => body.length ≤ limits.maxBodyBytes
  | .routed body modelId =>
    body.length ≤ limits.maxBodyBytes ∧ byteLen modelId ≤ limits.maxBodyBytes
  | _ => True

/-- What is read of a JSON text is no longer than the text. -/
structure Compact (parser : Parser) : Prop where
  entries : ∀ {body raws}, parser.entries body = some raws →
    ∀ entry ∈ raws, entry.2.length ≤ body.length
  strings : ∀ {raw s}, parser.document raw = some (.string s) → byteLen s ≤ raw.length

/-- Every slot is free or taken, every permit that is counted on is held, and no two requests are
the same call. -/
structure SelectorWork.Sound (limits : SelectionLimits) (maxOrg : Option Nat) (s : SelectorWork) :
    Prop where
  admission : ∀ limit, maxOrg = some limit → s.admission.Sound limit
  balance : s.free + s.selectors.countP (·.phase.slotted) = limits.maxConcurrent
  once : s.entered.Nodup
  shares : ∀ selector ∈ s.selectors, selector.phase.shares = true → ∀ call,
    selector.call = some call → ∃ organization semaphore,
      s.admission.calls[call]? = some ⟨organization, .holding semaphore⟩
  fits : ∀ selector ∈ s.selectors, selector.Fits limits

section Steps

variable {parser : Parser} {limits : SelectionLimits} {maxOrg : Option Nat} {s : SelectorWork}

/-- A permit that is held stays held until it is given back. -/
theorem holding_kept {limit : Nat} {s s' : Admission} {action : SlotAction} {call semaphore : Nat}
    {organization : Str} (hstep : SlotStep limit s action () s')
    (hcall : s.calls[call]? = some ⟨organization, .holding semaphore⟩)
    (hother : action ≠ .release call) :
    s'.calls[call]? = some ⟨organization, .holding semaphore⟩ := by
  have hin := (List.getElem?_eq_some_iff.mp hcall).1
  have hset : ∀ {other : Nat} {owner : Str} {phase : AcquirePhase} (next : Acquire),
      s.calls[other]? = some ⟨owner, phase⟩ → phase ≠ .holding semaphore →
      (s.calls.set other next)[call]? = some ⟨organization, .holding semaphore⟩ := by
    intro other owner phase next hat hphase
    rw [List.getElem?_set_ne, hcall]
    rintro rfl
    rw [hcall] at hat
    exact hphase (Acquire.mk.inj (Option.some.inj hat)).2.symm
  cases hstep with
  | found hfree hentry => exact (List.getElem?_append_left hin).trans hcall
  | missing hfree hentry hall => exact hcall
  | examine hlock => exact hcall
  | @insert owner hlock =>
    rcases hentry : s.slots.find owner with _ | slot
    · rw [orInsert_new hentry]
      exact (List.getElem?_append_left hin).trans hcall
    · rw [orInsert_found hentry]
      exact (List.getElem?_append_left hin).trans hcall
  | grant hat hfree => exact hset _ hat (by simp)
  | giveUp hat => exact hset _ hat (by simp)
  | @release other _ _ _ hat hfree =>
    show (s.calls.set other _)[call]? = _
    rw [List.getElem?_set_ne, hcall]
    rintro rfl
    exact hother rfl
  | drop hat => exact hset _ hat (by simp)

theorem entered_move {i : Nat} {call : Option Nat} {phase : SelectorPhase}
    (hselector : s.selectors[i]? = some ⟨call, phase⟩) (next : SelectorPhase) :
    (s.move i call next).entered = s.entered := by
  obtain ⟨front, back, hsplit, hset⟩ := set_split hselector
  unfold SelectorWork.entered SelectorWork.move
  dsimp only
  rw [hset, hsplit, List.filterMap_append, List.filterMap_append, List.filterMap_cons,
    List.filterMap_cons]

/-- A request goes on, and takes a slot or gives it back. -/
theorem SelectorWork.Sound.move (hsound : s.Sound limits maxOrg) {i free : Nat} {call : Option Nat}
    {phase next : SelectorPhase} (hselector : s.selectors[i]? = some ⟨call, phase⟩)
    (hfree : free + (if next.slotted = true then 1 else 0) =
      s.free + if phase.slotted = true then 1 else 0)
    (hshares : next.shares = true → phase.shares = true)
    (hfits : Selector.Fits limits ⟨call, next⟩) :
    SelectorWork.Sound limits maxOrg { s.move i call next with free } where
  admission := hsound.admission
  balance := by
    have hcount := countP_set hselector (·.phase.slotted) ⟨call, next⟩
    have hbalance := hsound.balance
    show free + (s.selectors.set i ⟨call, next⟩).countP _ = _
    dsimp only at hcount
    omega
  once := by
    show (s.move i call next).entered.Nodup
    rw [entered_move hselector]
    exact hsound.once
  shares := by
    refine forall_mem_set hsound.shares i fun hnext other hother => ?_
    exact hsound.shares _ (List.mem_of_getElem? hselector) (hshares hnext) other hother
  fits := forall_mem_set hsound.fits i hfits

/-- The calls go on, and no permit is given back that a request counts on. -/
theorem SelectorWork.Sound.organization (hsound : s.Sound limits maxOrg) {limit : Nat}
    {action : SlotAction} {admission : Admission} (hlimit : maxOrg = some limit)
    (hstep : SlotStep limit s.admission action () admission)
    (hkept : ∀ selector ∈ s.selectors, selector.phase.shares = true →
      ∀ call, selector.call = some call → action ≠ .release call) :
    SelectorWork.Sound limits maxOrg { s with admission } where
  admission := by
    rintro other hother
    obtain rfl := Option.some.inj (hlimit.symm.trans hother)
    exact step_sound (hsound.admission limit hlimit) hstep
  balance := hsound.balance
  once := hsound.once
  shares := by
    intro selector hselector hshares call hcall
    obtain ⟨organization, semaphore, hheld⟩ := hsound.shares selector hselector hshares call hcall
    exact ⟨organization, semaphore,
      holding_kept hstep hheld (hkept selector hselector hshares call hcall)⟩
  fits := hsound.fits

/-- A request that starts to wait. -/
theorem SelectorWork.Sound.enter (hsound : s.Sound limits maxOrg) {call : Option Nat}
    (hfirst : ∀ i, call = some i → i ∉ s.entered)
    (hshares : ∀ i, call = some i → ∃ organization semaphore,
      s.admission.calls[i]? = some ⟨organization, .holding semaphore⟩) :
    SelectorWork.Sound limits maxOrg { s with selectors := s.selectors ++ [⟨call, .waiting⟩] } where
  admission := hsound.admission
  balance := by
    dsimp only
    rw [List.countP_append]
    exact hsound.balance
  once := by
    unfold SelectorWork.entered
    dsimp only
    rw [List.filterMap_append]
    cases call with
    | none =>
      rw [List.filterMap_cons_none rfl, List.filterMap_nil, List.append_nil]
      exact hsound.once
    | some i =>
      show (s.entered ++ [i]).Nodup
      exact List.nodup_append.mpr ⟨hsound.once, List.nodup_singleton i, fun j hj k hk => by
        rw [List.mem_singleton.mp hk]
        rintro rfl
        exact hfirst j rfl hj⟩
  shares := by
    intro selector hselector hphase i hcall
    rcases List.mem_append.mp hselector with hold | hnew
    · exact hsound.shares selector hold hphase i hcall
    · rw [List.mem_singleton.mp hnew] at hcall
      exact hshares i hcall
  fits := by
    intro selector hselector
    rcases List.mem_append.mp hselector with hold | hnew
    · exact hsound.fits selector hold
    · rw [List.mem_singleton.mp hnew]
      exact trivial

/-- No two requests are the same call. -/
theorem entered_inj (honce : s.entered.Nodup) {a b : Selector} (ha : a ∈ s.selectors)
    (hb : b ∈ s.selectors) {call : Nat} (hcall : a.call = some call) (hcall' : b.call = some call) :
    a = b := by
  by_contra hne
  have hpair := List.pairwise_filterMap.mp honce
  have hsymm : Std.Symm fun x y : Selector =>
      ∀ c, x.call = some c → ∀ c', y.call = some c' → c ≠ c' :=
    ⟨fun x y hxy c hc c' hc' => (hxy c' hc' c hc).symm⟩
  exact hpair.forall ha hb hne call hcall call hcall' rfl

/-- What is found in a body is no longer than the body. -/
theorem visitMap_compact (hcompact : Compact parser) {bound : Nat} :
    ∀ {entries : List (Text × List UInt8)} {found : Option (Option Text)} {modelId : Text},
      (∀ entry ∈ entries, entry.2.length ≤ bound) →
      (∀ text, found = some (some text) → byteLen text ≤ bound) →
      visitMap parser found entries = some (some modelId) → byteLen modelId ≤ bound := by
  intro entries
  induction entries with
  | nil =>
    intro found modelId _ hfound h
    cases found with
    | none => cases h
    | some found => exact hfound modelId (by rw [← Option.some.inj h]; rfl)
  | cons entry entries ih =>
    obtain ⟨key, raw⟩ := entry
    intro found modelId hall hfound h
    have hrest := fun entry hentry => hall entry (List.mem_cons_of_mem _ hentry)
    unfold visitMap at h
    split at h
    · exact ih hrest hfound h
    split at h
    · cases h
    cases hnext : nextOptionString parser raw with
    | none =>
      rw [hnext] at h
      cases h
    | some value =>
      rw [hnext] at h
      refine ih hrest (fun text htext => ?_) h
      rw [Option.some.inj htext] at hnext
      have hdocument : parser.document raw = some (.string text) := by
        unfold nextOptionString at hnext
        split at hnext
        · cases hnext
        · rename_i string hstring
          rw [hstring, Option.some.inj (Option.some.inj hnext)]
        · cases hnext
      exact Nat.le_trans (hcompact.strings hdocument) (hall (key, raw) List.mem_cons_self)

theorem readModelSelection_compact (hcompact : Compact parser) {body : List UInt8} {modelId : Text}
    (h : readModelSelection parser body = some (some modelId)) : byteLen modelId ≤ body.length := by
  obtain ⟨raws, hraws, h⟩ := Option.bind_eq_some_iff.mp h
  exact visitMap_compact hcompact (hcompact.entries hraws) (fun text htext => by cases htext) h

theorem step_selection (hcompact : Compact parser) {s' : SelectorWork} {action : SelectorAction}
    (hsound : s.Sound limits maxOrg) (hstep : SelectorStep parser limits maxOrg s action () s') :
    s'.Sound limits maxOrg := by
  cases hstep with
  | organization hlimit hstep hkept =>
    refine hsound.organization hlimit hstep fun selector hselector _ call hcall haction => ?_
    exact hkept call haction (List.mem_filterMap.mpr ⟨selector, hselector, hcall⟩)
  | @enterShared call semaphore organization hcall hfirst =>
    refine hsound.enter (fun i hi => ?_) fun i hi => ?_
    · obtain rfl := Option.some.inj hi
      exact hfirst
    · obtain rfl := Option.some.inj hi
      exact ⟨organization, semaphore, hcall⟩
  | enter hlimit => exact hsound.enter (fun i hi => by cases hi) fun i hi => by cases hi
  | slot hselector hfree =>
    refine hsound.move hselector ?_ (fun _ => rfl) (Nat.zero_le _)
    rw [hfree]
    rfl
  | frame hselector hlimited =>
    exact hsound.move hselector rfl (fun _ => rfl) hlimited
  | finished hselector hmodel =>
    have hbody := hsound.fits _ (List.mem_of_getElem? hselector)
    refine hsound.move hselector rfl (fun _ => rfl) ⟨hbody, ?_⟩
    exact Nat.le_trans (readModelSelection_compact hcompact hmodel) hbody
  | resolve hselector hreads =>
    rcases hreads with ⟨body, rfl⟩ | ⟨body, modelId, rfl⟩
    · exact hsound.move hselector rfl (fun _ => rfl) trivial
    · exact hsound.move hselector rfl (fun _ => rfl) trivial
  | @releaseShared i call limit admission phase next hlimit hselector hnext hstep =>
    have hmoved : (s.move i (some call) next).Sound limits maxOrg := by
      rcases hnext with ⟨rfl, rfl⟩ | ⟨rfl, rfl⟩
      · exact hsound.move hselector rfl (fun h => by cases h) trivial
      · exact hsound.move hselector rfl (fun h => by cases h) trivial
    refine hmoved.organization hlimit hstep fun selector hin hshares other hother haction => ?_
    obtain rfl : call = other := by injection haction
    -- the request that gives the permit back counts on it no longer
    have hat : (⟨some call, next⟩ : Selector) ∈ (s.move i (some call) next).selectors := by
      refine List.mem_of_getElem? (i := i) ?_
      exact List.getElem?_set_self (List.getElem?_eq_some_iff.mp hselector).1
    obtain rfl := entered_inj hmoved.once hin hat hother rfl
    rcases hnext with ⟨-, rfl⟩ | ⟨-, rfl⟩
    · cases hshares
    · cases hshares
  | release hselector hnext =>
    rcases hnext with ⟨rfl, rfl⟩ | ⟨rfl, rfl⟩
    · exact hsound.move hselector rfl (fun h => by cases h) trivial
    · exact hsound.move hselector rfl (fun h => by cases h) trivial
  | free hselector => exact hsound.move hselector rfl (fun h => by cases h) trivial

-- ---------------------------------------------------------------------------
-- Who has the slots
-- ---------------------------------------------------------------------------

/-- Parties that are different members of a list, each with the property. -/
theorem length_le_countP {α : Type} {l : List α} {p : α → Bool} {places : List Nat}
    (hnodup : places.Nodup) (hat : ∀ i ∈ places, ∃ a, l[i]? = some a ∧ p a = true) :
    places.length ≤ l.countP p := by
  have hsubset : places ⊆ l.findIdxs p := by
    intro i hi
    obtain ⟨a, ha, hp⟩ := hat i hi
    obtain ⟨hlt, rfl⟩ := List.getElem?_eq_some_iff.mp ha
    exact (List.mem_findIdxs_iff_pos_getElem hlt).mpr hp
  rw [← List.length_findIdxs (s := 0)]
  exact (List.subperm_of_subset hnodup hsubset).length_le

theorem sum_le_countP {α : Type} {l : List α} {p : α → Bool} {f : α → Nat} {bound : Nat}
    (hpart : ∀ a ∈ l, f a ≤ if p a = true then bound else 0) :
    (l.map f).sum ≤ l.countP p * bound := by
  induction l with
  | nil => exact Nat.zero_le _
  | cons a l ih =>
    have hhead := hpart a List.mem_cons_self
    have htail := ih fun b hb => hpart b (List.mem_cons_of_mem _ hb)
    rw [List.map_cons, List.sum_cons, List.countP_cons, Nat.add_mul]
    split
    · rename_i hp
      rw [if_pos hp] at hhead
      omega
    · rename_i hp
      rw [if_neg hp] at hhead
      omega

/-- The organization of a request. -/
def SelectorWork.organizationOf (s : SelectorWork) (selector : Selector) : Option Str :=
  (selector.call.bind fun call => s.admission.calls[call]?).map Acquire.organization

/-- A slot, and the permit that goes with it. -/
def SelectorWork.takes (s : SelectorWork) (organization : Str) (selector : Selector) : Bool :=
  selector.phase.shares && decide (s.organizationOf selector = some organization)

/-- The slots of an organization's permits. -/
def SelectorWork.slotsOf (s : SelectorWork) (organization : Str) : Nat :=
  s.selectors.countP fun selector => selector.phase.slotted && s.takes organization selector

/-- The slots of all other requests, and those whose permit is back. -/
def SelectorWork.slotsBesides (s : SelectorWork) (organization : Str) : Nat :=
  s.selectors.countP fun selector => selector.phase.slotted && !s.takes organization selector

theorem slots_split (s : SelectorWork) (organization : Str) :
    s.slotsOf organization + s.slotsBesides organization =
      s.selectors.countP (·.phase.slotted) := by
  unfold SelectorWork.slotsOf SelectorWork.slotsBesides
  induction s.selectors with
  | nil => rfl
  | cons selector rest ih =>
    simp only [List.countP_cons] at ih ⊢
    cases selector.phase.slotted with
    | false => simpa using ih
    | true =>
      cases s.takes organization selector with
      | false =>
        simp only [Bool.and_false, Bool.false_eq_true, Bool.not_false, Bool.and_self, if_false,
          if_true]
        omega
      | true =>
        simp only [Bool.and_self, Bool.not_true, Bool.and_false, Bool.false_eq_true, if_false,
          if_true]
        omega

theorem memory_le (hsound : s.Sound limits maxOrg) :
    (s.selectors.map Selector.memory).sum ≤ limits.memoryBudgetBytes := by
  have hpart : ∀ selector ∈ s.selectors, selector.memory ≤
      if selector.phase.slotted = true then limits.maxBodyBytes * 2 else 0 := by
    rintro ⟨call, phase⟩ hselector
    have hfits := hsound.fits _ hselector
    cases phase with
    | reading body =>
      have hbody : body.length ≤ limits.maxBodyBytes := hfits
      show body.length ≤ limits.maxBodyBytes * 2
      omega
    | routed body modelId =>
      obtain ⟨hbody, hmodel⟩ := hfits
      show body.length + byteLen modelId ≤ limits.maxBodyBytes * 2
      omega
    | _ => exact Nat.zero_le _
  refine Nat.le_trans (sum_le_countP hpart) (Nat.le_trans (Nat.mul_le_mul_right _ ?_)
    limits.slots_le_budget)
  have hbalance := hsound.balance
  omega

theorem slotsOf_le (hsound : s.Sound limits maxOrg) {limit : Nat} (hlimit : maxOrg = some limit)
    (organization : Str) : s.slotsOf organization ≤ limit := by
  refine Nat.le_trans ?_ (held_le (hsound.admission limit hlimit) organization)
  let mine := s.selectors.filter fun selector =>
    selector.phase.slotted && s.takes organization selector
  have hmine : ∀ selector ∈ mine, ∃ call, selector.call = some call ∧
      ∃ a, s.admission.calls[call]? = some a ∧
        (a.held && decide (a.organization = organization)) = true := by
    intro selector hselector
    obtain ⟨hin, htakes⟩ := List.mem_filter.mp hselector
    simp only [SelectorWork.takes, Bool.and_eq_true, decide_eq_true_eq] at htakes
    obtain ⟨-, hshares, howner⟩ := htakes
    obtain ⟨a, ha, rfl⟩ := Option.map_eq_some_iff.mp howner
    obtain ⟨call, hcall, ha⟩ := Option.bind_eq_some_iff.mp ha
    obtain ⟨owner, semaphore, hheld⟩ := hsound.shares selector hin hshares call hcall
    obtain rfl := Option.some.inj (ha.symm.trans hheld)
    exact ⟨call, hcall, _, ha, by simp [Acquire.held]⟩
  have hcalls : s.slotsOf organization = (mine.filterMap Selector.call).length := by
    have hall : mine.countP (fun selector => selector.call.isSome) = mine.length := by
      refine List.countP_eq_length.mpr fun selector hselector => ?_
      obtain ⟨call, hcall, -⟩ := hmine selector hselector
      rw [hcall]
      rfl
    rw [List.length_filterMap_eq_countP, hall]
    exact List.countP_eq_length_filter
  rw [hcalls]
  refine length_le_countP (hsound.once.sublist (List.filter_sublist.filterMap _))
    fun call hcall => ?_
  obtain ⟨selector, hselector, hcall⟩ := List.mem_filterMap.mp hcall
  obtain ⟨call', hcall', a, ha, hp⟩ := hmine selector hselector
  obtain rfl := Option.some.inj (hcall.symm.trans hcall')
  exact ⟨a, ha, hp⟩

theorem run_selection (hcompact : Compact parser)
    {h : List (Entry SelectorWork SelectorAction Unit)}
    (run : (selection parser limits maxOrg).Run h s) : s.Sound limits maxOrg := by
  refine run.invariant (I := fun s => s.Sound limits maxOrg) (fun s hstart => ?_)
    fun s action result s' hsound hstep => step_selection hcompact hsound hstep
  obtain rfl : s = ⟨.new, limits.maxConcurrent, []⟩ := hstart
  exact ⟨fun _ _ => new_sound, rfl, List.nodup_nil, fun _ h => absurd h List.not_mem_nil,
    fun _ h => absurd h List.not_mem_nil⟩

/-- **What selection may hold.** Whatever comes in and whatever happens: the bodies that are read
and the model ids found in them fit the memory budget; a slot is free or taken; a request that
waits for a slot has the permit of its organization and no memory; the requests of an organization
take no more slots with their permits than its bound. With the default bound, where there is more
than one slot, an organization that finds all slots taken has no more than half of them: the rest
is with requests of others, or on its way back. -/
theorem selection_capacity (hcompact : Compact parser) {maxBodyBytes memoryBudgetBytes : Nat}
    {positive : 0 < maxBodyBytes}
    (hlimits : SelectionLimits.new maxBodyBytes memoryBudgetBytes positive = .ok limits)
    {h : List (Entry SelectorWork SelectorAction Unit)}
    (run : (selection parser limits maxOrg).Run h s) :
    (s.selectors.map Selector.memory).sum ≤ memoryBudgetBytes ∧
    s.free + s.selectors.countP (·.phase.slotted) = memoryBudgetBytes / (maxBodyBytes * 2) ∧
    (∀ selector ∈ s.selectors, selector.phase = .waiting → selector.memory = 0 ∧
      ∀ call, selector.call = some call → ∃ organization semaphore,
        s.admission.calls[call]? = some ⟨organization, .holding semaphore⟩) ∧
    ∀ limit organization, maxOrg = some limit → s.slotsOf organization ≤ limit ∧
      (limit = limits.defaultMaxOrgSelections → maxBodyBytes * 4 ≤ memoryBudgetBytes →
        s.free = 0 → s.slotsOf organization ≤ s.slotsBesides organization ∧
          0 < s.slotsBesides organization) := by
  have hsound := run_selection hcompact run
  obtain ⟨hbudget, hslots⟩ : limits.memoryBudgetBytes = memoryBudgetBytes ∧
      limits.maxConcurrent = memoryBudgetBytes / (maxBodyBytes * 2) := by
    unfold SelectionLimits.new at hlimits
    split at hlimits
    · split at hlimits
      · cases hlimits
      · rw [← Except.ok.inj hlimits]
        exact ⟨rfl, rfl⟩
    · cases hlimits
  have hbalance := hsound.balance
  refine ⟨hbudget ▸ memory_le hsound, hslots ▸ hbalance, fun selector hselector hwaiting => ?_,
    fun limit organization hlimit => ⟨slotsOf_le hsound hlimit organization, ?_⟩⟩
  · refine ⟨?_, hsound.shares selector hselector (by rw [hwaiting]; rfl)⟩
    unfold Selector.memory
    rw [hwaiting]
  · intro hdefault hroom hfull
    have htwo : 2 ≤ limits.maxConcurrent := by
      rw [hslots]
      exact (Nat.le_div_iff_mul_le (by omega)).mpr (by omega)
    have hhalf := limits.default_le_half htwo
    have hmine := slotsOf_le hsound hlimit organization
    have hsplit := slots_split s organization
    rw [hfull, Nat.zero_add] at hbalance
    constructor
    · omega
    · omega

end Steps

-- ---------------------------------------------------------------------------
-- Two slots and one organization
-- ---------------------------------------------------------------------------

theorem sampleParser_compact : Compact Surface.sampleParser where
  entries := by
    intro body raws h entry hentry
    change Surface.sampleEntries body = some raws at h
    unfold Surface.sampleEntries at h
    split at h
    · rename_i hbody
      rw [← Option.some.inj h] at hentry
      rw [hbody, List.mem_singleton.mp hentry]
      decide
    split at h
    · rename_i hbody
      rw [← Option.some.inj h] at hentry
      rw [hbody, List.mem_singleton.mp hentry]
      decide
    split at h
    · rename_i hbody
      rw [← Option.some.inj h] at hentry
      rw [hbody]
      rcases List.mem_pair.mp hentry with rfl | rfl
      · decide
      · decide
    · cases h
  strings := by
    intro raw string h
    change Surface.sampleDocument raw = some (.string string) at h
    unfold Surface.sampleDocument at h
    split at h
    · cases h
    split at h
    · cases h
    split at h
    · cases h
    split at h
    · rename_i hraw
      rw [hraw, ← Document.string.inj (Option.some.inj h)]
      decide
    split at h
    · rename_i hraw
      rw [hraw, ← Document.string.inj (Option.some.inj h)]
      decide
    split at h
    · rename_i hraw
      rw [hraw, ← Document.string.inj (Option.some.inj h)]
      decide
    · cases h

/-- Two slots of a body of 16 bytes. -/
def twoSlots : SelectionLimits where
  maxBodyBytes := 16
  positive := by decide
  memoryBudgetBytes := 64
  bytesPerSelector := 32
  maxConcurrent := 2
  reserved := rfl
  slots := rfl
  concurrent := by decide

def twoSelection : Machine SelectorWork SelectorAction Unit :=
  selection Surface.sampleParser twoSlots (some 1)

/-- The permit of the first request is back. -/
def releasedState : Admission := (heldState.setFree 0 1).move 0 ['a'] (.leaving 0)

/-- A second call of the organization comes. -/
def secondWaits : Admission :=
  { releasedState with calls := [⟨['a'], .leaving 0⟩, ⟨['a'], .waiting 0⟩] }

def secondHeld : Admission := (secondWaits.setFree 0 0).move 1 ['a'] (.holding 0)

/-- The first request is routed and has its slot still; the second reads its body. -/
def crowdedWork : SelectorWork := ⟨secondHeld, 0, [⟨some 0, .leaving⟩, ⟨some 1, .reading []⟩]⟩

theorem step_reachable {s s' : SelectorWork} {action : SelectorAction}
    (h : twoSelection.Reachable s) (hstep : twoSelection.step s action () s') :
    twoSelection.Reachable s' := by
  obtain ⟨history, run⟩ := h
  exact ⟨_, run.snoc hstep⟩

/-- The first request reads its body and is routed. -/
theorem two_routed : twoSelection.Reachable
    ⟨heldState, 1, [⟨some 0, .routed Surface.ownBody Surface.ownName⟩]⟩ := by
  have hstart : twoSelection.Reachable ⟨.new, 2, []⟩ := ⟨[], .nil rfl⟩
  have hswept : twoSelection.Reachable ⟨⟨.empty, [], some ⟨['a'], []⟩, []⟩, 2, []⟩ :=
    step_reachable hstart (.organization rfl (.missing rfl rfl (List.Perm.refl _)) fun _ h => by
      cases h)
  have hasked : twoSelection.Reachable
      ⟨Admission.orInsert ⟨.empty, [], some ⟨['a'], []⟩, []⟩ 1 ['a'], 2, []⟩ :=
    step_reachable hswept (.organization rfl (.insert rfl) fun _ h => by cases h)
  have hheld : twoSelection.Reachable ⟨heldState, 2, []⟩ :=
    step_reachable hasked (.organization rfl (.grant rfl rfl) fun _ h => by cases h)
  have hwaits : twoSelection.Reachable ⟨heldState, 2, [⟨some 0, .waiting⟩]⟩ :=
    step_reachable hheld (.enterShared rfl List.not_mem_nil)
  have hslotted : twoSelection.Reachable ⟨heldState, 1, [⟨some 0, .reading []⟩]⟩ :=
    step_reachable hwaits (.slot (i := 0) rfl rfl)
  have hframe : SelectorStep Surface.sampleParser twoSlots (some 1)
      ⟨heldState, 1, [⟨some 0, .reading []⟩]⟩ (.frame 0 Surface.ownBody) ()
      ⟨heldState, 1, [⟨some 0, .reading ([] ++ Surface.ownBody)⟩]⟩ := .frame rfl (by decide)
  have hread : twoSelection.Reachable ⟨heldState, 1, [⟨some 0, .reading Surface.ownBody⟩]⟩ :=
    step_reachable hslotted hframe
  exact step_reachable hread (.finished (i := 0) rfl rfl)

/-- A second request of the organization takes the other slot before the first gives its own
back. -/
theorem crowdedWork_reachable : twoSelection.Reachable crowdedWork := by
  have hresolved : twoSelection.Reachable ⟨heldState, 1, [⟨some 0, .resolved⟩]⟩ :=
    step_reachable two_routed (.resolve (i := 0) rfl (.inr ⟨_, _, rfl⟩))
  have hreleased : twoSelection.Reachable ⟨releasedState, 1, [⟨some 0, .leaving⟩]⟩ :=
    step_reachable hresolved (.releaseShared (i := 0) rfl rfl (.inr ⟨rfl, rfl⟩) (.release rfl rfl))
  have hslot : releasedState.slots.find ['a'] = some ⟨['a'], 0⟩ := rfl
  have hasked : twoSelection.Reachable ⟨secondWaits, 1, [⟨some 0, .leaving⟩]⟩ :=
    step_reachable hreleased (.organization rfl (.found rfl hslot) fun _ h => by cases h)
  have hheld : twoSelection.Reachable ⟨secondHeld, 1, [⟨some 0, .leaving⟩]⟩ :=
    step_reachable hasked (.organization rfl (.grant rfl rfl) fun _ h => by cases h)
  have hwaits : twoSelection.Reachable
      ⟨secondHeld, 1, [⟨some 0, .leaving⟩, ⟨some 1, .waiting⟩]⟩ :=
    step_reachable hheld (.enterShared rfl (by decide))
  exact step_reachable hwaits (.slot (i := 1) rfl rfl)

/-- All slots are with one organization; one of them is on its way back. -/
theorem selection_capacity_two :
    (crowdedWork.selectors.map Selector.memory).sum ≤ 64 ∧ crowdedWork.slotsOf ['a'] ≤ 1 ∧
    0 < crowdedWork.slotsBesides ['a'] := by
  obtain ⟨history, run⟩ := crowdedWork_reachable
  have hlimits : SelectionLimits.new 16 64 (by decide) = .ok twoSlots := rfl
  obtain ⟨hmemory, -, -, hshare⟩ := selection_capacity sampleParser_compact hlimits run
  obtain ⟨hslots, hroom⟩ := hshare 1 ['a'] rfl
  exact ⟨hmemory, hslots, (hroom rfl (by decide) rfl).2⟩

/-- **Not always room for the others.** The permit of an organization is back before the slot: for
as long, one organization may have all slots, although its bound is half of them. -/
theorem alone_with_all : twoSlots.defaultMaxOrgSelections * 2 ≤ twoSlots.maxConcurrent ∧
    ∃ history s, (selection Surface.sampleParser twoSlots
        (some twoSlots.defaultMaxOrgSelections)).Run history s ∧
      s.free = 0 ∧ ∀ selector ∈ s.selectors, selector.phase.slotted = true ∧
        s.organizationOf selector = some ['a'] := by
  refine ⟨by decide, ?_⟩
  obtain ⟨history, run⟩ := crowdedWork_reachable
  refine ⟨history, crowdedWork, run, rfl, fun selector hselector => ?_⟩
  rcases List.mem_pair.mp hselector with rfl | rfl
  · exact ⟨rfl, rfl⟩
  · exact ⟨rfl, rfl⟩

end CamelidEnterprise.Gateway
