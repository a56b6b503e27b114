import CamelidEnterprise.Engine.Error
import CamelidEnterprise.Foundation.Machine
import CamelidEnterprise.Foundation.Table

/-!
# Camelid Enterprise — selector slots of an organization

`OrgSelectionAdmission` of `crates/gateway/src/lib.rs`: a map from organizations to
semaphores, each behind a reference count. A call of `acquire` clones the reference
while it holds the map's lock and waits on it after it let go of the lock. A call that
finds no entry for its organization first drops the entries nobody else refers to, one
after the other; the calls that wait or hold a permit go on meanwhile.

A semaphore is numbered when it is made, so that an entry made again is another one.
A permit keeps its semaphore: it is given back first and the reference dropped after.
Which of the waiting calls gets a permit is left open.
-/

namespace CamelidEnterprise.Gateway

open Foundation

/-- An entry of the map: an organization and the number of its semaphore. -/
structure Slot where
  organization : Str
  semaphore : Nat
deriving DecidableEq, Repr

/-- Where a call of `acquire` is once it has its reference: it waits, it has a permit,
it is to drop the reference, or it has. -/
inductive AcquirePhase
  | waiting (semaphore : Nat)
  | holding (semaphore : Nat)
  | leaving (semaphore : Nat)
  | returned
deriving DecidableEq, Repr

/-- A call of `acquire`. -/
structure Acquire where
  organization : Str
  phase : AcquirePhase
deriving DecidableEq, Repr

/-- A call inside `slots.retain`: for whom, and the entries it has yet to look at. -/
structure Retain where
  organization : Str
  unexamined : List Str

/-- `OrgSelectionAdmission` and its callers: the map, the free permits of each
semaphore, who is inside the sweep, and the calls that have a reference or had one. -/
structure Admission where
  slots : Table Slot.organization
  semaphores : List Nat
  lock : Option Retain
  calls : List Acquire

namespace AcquirePhase

/-- The semaphore a call refers to. -/
def reference : AcquirePhase → Option Nat
  | .waiting semaphore => some semaphore
  | .holding semaphore => some semaphore
  | .leaving semaphore => some semaphore
  | .returned => none

end AcquirePhase

namespace Admission

/-- `OrgSelectionAdmission::new` -/
def new : Admission := ⟨.empty, [], none, []⟩

/-- How many calls have a permit of a semaphore. -/
def holders (s : Admission) (semaphore : Nat) : Nat :=
  s.calls.countP fun call => decide (call.phase = .holding semaphore)

/-- `Arc::strong_count` -/
def strongCount (s : Admission) (semaphore : Nat) : Nat :=
  s.slots.rows.countP (fun slot => decide (slot.semaphore = semaphore)) +
    s.calls.countP fun call => decide (call.phase.reference = some semaphore)

/-- The entry of an organization, and whether nobody else refers to it. -/
def idle (s : Admission) (organization : Str) : Bool :=
  match s.slots.find organization with
  | some slot => !decide (1 < s.strongCount slot.semaphore)
  | none => false

/-- `retain` at one entry. -/
def examine (s : Admission) (organization : Str) : Table Slot.organization :=
  if s.idle organization then
    s.slots.delete fun slot => decide (slot.organization = organization)
  else s.slots

/-- `entry(..).or_insert_with(..)` and the clone of what is there then. -/
def orInsert (s : Admission) (limit : Nat) (organization : Str) : Admission :=
  match hentry : s.slots.find organization with
  | some slot =>
    { s with lock := none, calls := s.calls ++ [⟨organization, .waiting slot.semaphore⟩] }
  | none =>
    { slots := s.slots.insertNew ⟨organization, s.semaphores.length⟩ hentry
      semaphores := s.semaphores ++ [limit]
      lock := none
      calls := s.calls ++ [⟨organization, .waiting s.semaphores.length⟩] }

/-- A call goes on to another phase. -/
def move (s : Admission) (call : Nat) (organization : Str) (phase : AcquirePhase) : Admission :=
  { s with calls := s.calls.set call ⟨organization, phase⟩ }

/-- The number of free permits of a semaphore. -/
def setFree (s : Admission) (semaphore free : Nat) : Admission :=
  { s with semaphores := s.semaphores.set semaphore free }

end Admission

/-- What can happen next. -/
inductive SlotAction
  /-- `acquire` takes the lock: it finds its entry, or starts the sweep -/
  | acquire (organization : Str)
  /-- the sweep looks at one entry -/
  | examine
  /-- the sweep is over, and the lock is released with a new entry -/
  | insert
  /-- a waiting call gets a permit -/
  | grant (call : Nat)
  /-- a waiting call is cancelled, or its deadline passes -/
  | giveUp (call : Nat)
  /-- a permit is given back: released, or granted to a call that gave up -/
  | release (call : Nat)
  /-- a call drops its reference -/
  | drop (call : Nat)

/-- The steps of the calls. -/
inductive SlotStep (limit : Nat) : Admission → SlotAction → Unit → Admission → Prop
  | found {s : Admission} {organization : Str} {slot : Slot} (hfree : s.lock = none)
      (hentry : s.slots.find organization = some slot) :
      SlotStep limit s (.acquire organization) ()
        { s with calls := s.calls ++ [⟨organization, .waiting slot.semaphore⟩] }
  | missing {s : Admission} {organization : Str} {unexamined : List Str} (hfree : s.lock = none)
      (hentry : s.slots.find organization = none)
      (hall : unexamined.Perm (s.slots.rows.map Slot.organization)) :
      SlotStep limit s (.acquire organization) () { s with lock := some ⟨organization, unexamined⟩ }
  | examine {s : Admission} {organization entry : Str} {unexamined : List Str}
      (hlock : s.lock = some ⟨organization, entry :: unexamined⟩) :
      SlotStep limit s .examine ()
        { s with slots := s.examine entry, lock := some ⟨organization, unexamined⟩ }
  | insert {s : Admission} {organization : Str} (hlock : s.lock = some ⟨organization, []⟩) :
      SlotStep limit s .insert () (s.orInsert limit organization)
  | grant {s : Admission} {call semaphore free : Nat} {organization : Str}
      (hcall : s.calls[call]? = some ⟨organization, .waiting semaphore⟩)
      (hfree : s.semaphores[semaphore]? = some (free + 1)) :
      SlotStep limit s (.grant call) ()
        ((s.setFree semaphore free).move call organization (.holding semaphore))
  | giveUp {s : Admission} {call semaphore : Nat} {organization : Str}
      (hcall : s.calls[call]? = some ⟨organization, .waiting semaphore⟩) :
      SlotStep limit s (.giveUp call) () (s.move call organization (.leaving semaphore))
  | release {s : Admission} {call semaphore free : Nat} {organization : Str}
      (hcall : s.calls[call]? = some ⟨organization, .holding semaphore⟩)
      (hfree : s.semaphores[semaphore]? = some free) :
      SlotStep limit s (.release call) ()
        ((s.setFree semaphore (free + 1)).move call organization (.leaving semaphore))
  | drop {s : Admission} {call semaphore : Nat} {organization : Str}
      (hcall : s.calls[call]? = some ⟨organization, .leaving semaphore⟩) :
      SlotStep limit s (.drop call) () (s.move call organization .returned)

/-- One map, any calls. -/
def admissions (limit : Nat) : Machine Admission SlotAction Unit where
  start s := s = .new
  step := SlotStep limit

/-- The free permits of an organization: those of its entry, or those it would get. -/
def Admission.freePermits (s : Admission) (limit : Nat) (organization : Str) : Nat :=
  match s.slots.find organization with
  | some slot => (s.semaphores[slot.semaphore]?).getD 0
  | none => limit

-- ---------------------------------------------------------------------------
-- What holds of a state
-- ---------------------------------------------------------------------------

/-- Every reference is to the semaphore the map has for its organization, no two
entries share one, and of each entry's semaphore a permit is free or held. -/
structure Admission.Sound (limit : Nat) (s : Admission) : Prop where
  mine : ∀ call ∈ s.calls, ∀ semaphore, call.phase.reference = some semaphore →
    s.slots.find call.organization = some ⟨call.organization, semaphore⟩
  apart : ∀ slot ∈ s.slots.rows, ∀ slot' ∈ s.slots.rows,
    slot.semaphore = slot'.semaphore → slot = slot'
  balance : ∀ slot ∈ s.slots.rows, ∃ free,
    s.semaphores[slot.semaphore]? = some free ∧ free + s.holders slot.semaphore = limit

section Steps

variable {limit : Nat} {s : Admission}

theorem new_sound : Admission.new.Sound limit where
  mine := fun _ hcall => absurd hcall List.not_mem_nil
  apart := fun _ hslot => absurd hslot List.not_mem_nil
  balance := fun _ hslot => absurd hslot List.not_mem_nil

/-- Only a call that holds a permit counts among the holders. -/
theorem holders_append (s : Admission) (slots : Table Slot.organization) (semaphores : List Nat)
    (lock : Option Retain) (organization : Str) (semaphore semaphore' : Nat) :
    Admission.holders ⟨slots, semaphores, lock,
      s.calls ++ [⟨organization, .waiting semaphore⟩]⟩ semaphore' = s.holders semaphore' := by
  unfold Admission.holders
  rw [List.countP_append]
  rfl

/-- A call that comes with the reference of its organization's entry. -/
theorem mine_append {slots : Table Slot.organization} {calls : List Acquire}
    (hmine : ∀ call ∈ calls, ∀ semaphore, call.phase.reference = some semaphore →
      slots.find call.organization = some ⟨call.organization, semaphore⟩)
    {organization : Str} {semaphore : Nat}
    (hentry : slots.find organization = some ⟨organization, semaphore⟩) :
    ∀ call ∈ calls ++ [⟨organization, .waiting semaphore⟩], ∀ semaphore,
      call.phase.reference = some semaphore →
        slots.find call.organization = some ⟨call.organization, semaphore⟩ := by
  intro call hcall other hreference
  rcases List.mem_append.mp hcall with h | h
  · exact hmine call h other hreference
  · obtain rfl := List.mem_singleton.mp h
    obtain rfl := Option.some.inj hreference
    exact hentry

theorem find_organization {slots : Table Slot.organization} {organization : Str} {slot : Slot}
    (hentry : slots.find organization = some slot) : slot = ⟨organization, slot.semaphore⟩ := by
  obtain ⟨-, rfl⟩ := Table.find_eq_some.mp hentry
  rfl

/-- A call that moves on and refers to what it referred to. -/
theorem mine_set (hmine : ∀ call ∈ s.calls, ∀ semaphore, call.phase.reference = some semaphore →
      s.slots.find call.organization = some ⟨call.organization, semaphore⟩)
    {call : Nat} {organization : Str} {phase phase' : AcquirePhase}
    (hcall : s.calls[call]? = some ⟨organization, phase⟩)
    (hphase : ∀ semaphore, phase'.reference = some semaphore → phase.reference = some semaphore) :
    ∀ other ∈ s.calls.set call ⟨organization, phase'⟩, ∀ semaphore,
      other.phase.reference = some semaphore →
        s.slots.find other.organization = some ⟨other.organization, semaphore⟩ := by
  refine forall_mem_set hmine call ?_
  intro semaphore hreference
  exact hmine _ (List.mem_of_getElem? hcall) semaphore (hphase semaphore hreference)

/-- The holders of a semaphore when one call has moved on. -/
theorem holders_move {call : Nat} {organization : Str} {phase : AcquirePhase} (phase' : AcquirePhase)
    (hcall : s.calls[call]? = some ⟨organization, phase⟩) (semaphore : Nat) :
    (s.move call organization phase').holders semaphore +
        (if phase = .holding semaphore then 1 else 0) =
      s.holders semaphore + if phase' = .holding semaphore then 1 else 0 := by
  have hcount := countP_set hcall
    (fun other => decide (other.phase = .holding semaphore)) ⟨organization, phase'⟩
  simp only [decide_eq_true_eq] at hcount
  exact hcount

/-- An entry that is dropped is one nobody refers to. -/
theorem idle_unreferenced {organization : Str} (hidle : s.idle organization = true) {call : Acquire}
    (hcall : call ∈ s.calls) {semaphore : Nat} (hreference : call.phase.reference = some semaphore)
    (hmine : s.slots.find call.organization = some ⟨call.organization, semaphore⟩) :
    call.organization ≠ organization := by
  rintro rfl
  have hlow : s.strongCount semaphore ≤ 1 := by
    unfold Admission.idle at hidle
    rw [hmine] at hidle
    simpa using hidle
  unfold Admission.strongCount at hlow
  have hentry : 0 < s.slots.rows.countP fun slot => decide (slot.semaphore = semaphore) :=
    List.countP_pos_iff.mpr ⟨_, (Table.find_eq_some.mp hmine).1, by simp⟩
  have hcount : 0 < s.calls.countP fun call => decide (call.phase.reference = some semaphore) :=
    List.countP_pos_iff.mpr ⟨call, hcall, by simpa using hreference⟩
  omega

theorem examine_subset {entry : Str} {slot : Slot} (hslot : slot ∈ (s.examine entry).rows) :
    slot ∈ s.slots.rows := by
  unfold Admission.examine at hslot
  split at hslot
  · exact (Table.mem_delete.mp hslot).1
  · exact hslot

/-- The sweep leaves the entry a call refers to. -/
theorem find_examine (hsound : s.Sound limit) (entry : Str) {call : Acquire}
    (hcall : call ∈ s.calls) {semaphore : Nat}
    (hreference : call.phase.reference = some semaphore) :
    (s.examine entry).find call.organization = some ⟨call.organization, semaphore⟩ := by
  have hmine := hsound.mine call hcall semaphore hreference
  unfold Admission.examine
  split
  · rename_i hidle
    rw [Table.find_delete_key, if_neg (idle_unreferenced hidle hcall hreference hmine)]
    exact hmine
  · exact hmine

/-- A semaphore nothing was made for has no holder. -/
theorem holders_new (hsound : s.Sound limit) : s.holders s.semaphores.length = 0 := by
  refine List.countP_eq_zero.mpr fun call hcall => ?_
  intro hholding
  have hphase : call.phase = .holding s.semaphores.length := by simpa using hholding
  have hmine := hsound.mine call hcall s.semaphores.length (by rw [hphase]; rfl)
  obtain ⟨free, hfree, -⟩ := hsound.balance _ (Table.find_eq_some.mp hmine).1
  have hlt := (List.getElem?_eq_some_iff.mp hfree).1
  exact absurd hlt (Nat.lt_irrefl _)

theorem semaphore_lt (hsound : s.Sound limit) {slot : Slot} (hslot : slot ∈ s.slots.rows) :
    slot.semaphore < s.semaphores.length := by
  obtain ⟨free, hfree, -⟩ := hsound.balance slot hslot
  exact (List.getElem?_eq_some_iff.mp hfree).1

theorem orInsert_found {organization : Str} {slot : Slot}
    (hentry : s.slots.find organization = some slot) :
    s.orInsert limit organization =
      { s with lock := none, calls := s.calls ++ [⟨organization, .waiting slot.semaphore⟩] } := by
  unfold Admission.orInsert
  split
  · rename_i other hother
    rw [hentry] at hother
    rw [Option.some.inj hother]
  · rename_i hnone
    rw [hentry] at hnone
    cases hnone

theorem orInsert_new {organization : Str} (hentry : s.slots.find organization = none) :
    s.orInsert limit organization =
      { slots := s.slots.insertNew ⟨organization, s.semaphores.length⟩ hentry
        semaphores := s.semaphores ++ [limit]
        lock := none
        calls := s.calls ++ [⟨organization, .waiting s.semaphores.length⟩] } := by
  unfold Admission.orInsert
  split
  · rename_i other hother
    rw [hentry] at hother
    cases hother
  · rfl

theorem mem_insertNew_slot {organization : Str} (hentry : s.slots.find organization = none)
    (semaphore : Nat) {slot : Slot}
    (hslot : slot ∈ (s.slots.insertNew ⟨organization, semaphore⟩ hentry).rows) :
    slot ∈ s.slots.rows ∨ slot = ⟨organization, semaphore⟩ :=
  Table.mem_insertNew.mp hslot

/-- A new entry has a semaphore of its own, all of whose permits are free. -/
theorem Admission.Sound.insertNew (hsound : s.Sound limit) {organization : Str}
    (hentry : s.slots.find organization = none) :
    Admission.Sound limit
      { slots := s.slots.insertNew ⟨organization, s.semaphores.length⟩ hentry
        semaphores := s.semaphores ++ [limit]
        lock := none
        calls := s.calls ++ [⟨organization, .waiting s.semaphores.length⟩] } where
  mine := by
    refine mine_append (fun call hcall semaphore hreference => ?_) ?_
    · have hmine := hsound.mine call hcall semaphore hreference
      rw [Table.find_insertNew, if_neg]
      · exact hmine
      · intro heq
        have hsame : organization = call.organization := heq
        rw [← hsame, hentry] at hmine
        cases hmine
    · rw [Table.find_insertNew, if_pos rfl]
  apart := by
    intro slot hslot slot' hslot' hsame
    rcases mem_insertNew_slot hentry _ hslot with h | rfl
    · rcases mem_insertNew_slot hentry _ hslot' with h' | rfl
      · exact hsound.apart slot h slot' h' hsame
      · exact absurd hsame (Nat.ne_of_lt (semaphore_lt hsound h))
    · rcases mem_insertNew_slot hentry _ hslot' with h' | rfl
      · exact absurd hsame.symm (Nat.ne_of_lt (semaphore_lt hsound h'))
      · rfl
  balance := by
    intro slot hslot
    rcases mem_insertNew_slot hentry _ hslot with h | rfl
    · obtain ⟨free, hfree, hsum⟩ := hsound.balance slot h
      refine ⟨free, ?_, ?_⟩
      · rw [List.getElem?_append_left (semaphore_lt hsound h)]
        exact hfree
      · rw [holders_append]
        exact hsum
    · refine ⟨limit, List.getElem?_concat_length, ?_⟩
      rw [holders_append, holders_new hsound]
      rfl

/-- A permit that is taken or given back, and the call that did it. -/
theorem Admission.Sound.exchange (hsound : s.Sound limit) {call semaphore before after : Nat}
    {organization : Str} {phase phase' : AcquirePhase}
    (hcall : s.calls[call]? = some ⟨organization, phase⟩)
    (hbefore : s.semaphores[semaphore]? = some before)
    (hphase : phase.reference = some semaphore) (hphase' : phase'.reference = some semaphore)
    (hsum : after + (if phase' = .holding semaphore then 1 else 0) =
      before + if phase = .holding semaphore then 1 else 0) :
    ((s.setFree semaphore after).move call organization phase').Sound limit where
  mine := mine_set (s := s) hsound.mine hcall fun other hother => by
    rw [hphase, ← hphase', hother]
  apart := hsound.apart
  balance := by
    intro slot hslot
    obtain ⟨free, hfree, hbalance⟩ := hsound.balance slot hslot
    have hmoved : ((s.setFree semaphore after).move call organization phase').holders slot.semaphore =
        (s.move call organization phase').holders slot.semaphore := rfl
    have hcount := holders_move phase' hcall slot.semaphore
    rw [hmoved]
    by_cases hsame : semaphore = slot.semaphore
    · subst hsame
      rw [hbefore] at hfree
      obtain rfl := Option.some.inj hfree
      refine ⟨after, List.getElem?_set_self (semaphore_lt hsound hslot), ?_⟩
      omega
    · have hother : ∀ {p : AcquirePhase}, p.reference = some semaphore → ¬p = .holding slot.semaphore := by
        rintro p hp rfl
        exact hsame (Option.some.inj hp).symm
      rw [if_neg (hother hphase), if_neg (hother hphase')] at hcount
      refine ⟨free, ?_, by omega⟩
      show (s.semaphores.set semaphore after)[slot.semaphore]? = some free
      rw [List.getElem?_set_ne hsame]
      exact hfree

/-- A call that moves on without a permit before or after. -/
theorem Admission.Sound.move (hsound : s.Sound limit) {call : Nat} {organization : Str}
    {phase phase' : AcquirePhase} (hcall : s.calls[call]? = some ⟨organization, phase⟩)
    (hreference : ∀ semaphore, phase'.reference = some semaphore → phase.reference = some semaphore)
    (hbefore : ∀ semaphore, phase ≠ .holding semaphore)
    (hafter : ∀ semaphore, phase' ≠ .holding semaphore) :
    (s.move call organization phase').Sound limit where
  mine := mine_set hsound.mine hcall hreference
  apart := hsound.apart
  balance := by
    intro slot hslot
    obtain ⟨free, hfree, hbalance⟩ := hsound.balance slot hslot
    have hcount := holders_move phase' hcall slot.semaphore
    rw [if_neg (hbefore _), if_neg (hafter _)] at hcount
    exact ⟨free, hfree, by omega⟩

theorem step_sound {s' : Admission} {action : SlotAction} (hsound : s.Sound limit)
    (hstep : SlotStep limit s action () s') : s'.Sound limit := by
  cases hstep with
  | @found organization slot hfree hentry =>
    rw [find_organization hentry] at hentry
    refine ⟨mine_append hsound.mine hentry, hsound.apart, fun slot' hslot' => ?_⟩
    obtain ⟨free, hfree, hsum⟩ := hsound.balance slot' hslot'
    exact ⟨free, hfree, by rw [holders_append]; exact hsum⟩
  | missing hfree hentry hall => exact ⟨hsound.mine, hsound.apart, hsound.balance⟩
  | @examine organization entry unexamined hlock =>
    refine ⟨fun call hcall semaphore hreference => find_examine hsound entry hcall hreference,
      fun slot hslot slot' hslot' =>
        hsound.apart slot (examine_subset hslot) slot' (examine_subset hslot'),
      fun slot hslot => hsound.balance slot (examine_subset hslot)⟩
  | @insert organization hlock =>
    rcases hentry : s.slots.find organization with _ | slot
    · rw [orInsert_new hentry]
      exact hsound.insertNew hentry
    · rw [orInsert_found hentry]
      rw [find_organization hentry] at hentry
      refine ⟨mine_append hsound.mine hentry, hsound.apart, fun slot' hslot' => ?_⟩
      obtain ⟨free, hfree, hsum⟩ := hsound.balance slot' hslot'
      exact ⟨free, hfree, by rw [holders_append]; exact hsum⟩
  | grant hcall hfree =>
    refine hsound.exchange hcall hfree rfl rfl ?_
    rw [if_pos rfl, if_neg (by simp)]
  | giveUp hcall =>
    exact hsound.move hcall (fun _ h => h) (fun _ h => by cases h) (fun _ h => by cases h)
  | release hcall hfree =>
    refine hsound.exchange hcall hfree rfl rfl ?_
    rw [if_pos rfl, if_neg (by simp)]
  | drop hcall =>
    exact hsound.move hcall (fun _ h => by cases h) (fun _ h => by cases h) (fun _ h => by cases h)

-- ---------------------------------------------------------------------------
-- What a step leaves alone
-- ---------------------------------------------------------------------------

/-- An entry somebody refers to stays as it is. -/
theorem step_entry (hsound : s.Sound limit) {s' : Admission} {action : SlotAction}
    (hstep : SlotStep limit s action () s') {call : Acquire} (hcall : call ∈ s.calls)
    {semaphore : Nat} (hreference : call.phase.reference = some semaphore) :
    s'.slots.find call.organization = some ⟨call.organization, semaphore⟩ := by
  have hmine := hsound.mine call hcall semaphore hreference
  cases hstep with
  | found hfree hentry => exact hmine
  | missing hfree hentry hall => exact hmine
  | @examine organization entry unexamined hlock => exact find_examine hsound entry hcall hreference
  | @insert organization hlock =>
    rcases hentry : s.slots.find organization with _ | slot
    · rw [orInsert_new hentry, Table.find_insertNew, if_neg]
      · exact hmine
      · intro heq
        have hsame : organization = call.organization := heq
        rw [← hsame, hentry] at hmine
        cases hmine
    · rw [orInsert_found hentry]
      exact hmine
  | grant _ _ => exact hmine
  | giveUp _ => exact hmine
  | release _ _ => exact hmine
  | drop _ => exact hmine

/-- The permits of an idle entry are all free. -/
theorem idle_free (hsound : s.Sound limit) {organization : Str} {slot : Slot}
    (hentry : s.slots.find organization = some slot) (hidle : s.idle organization = true) :
    s.semaphores[slot.semaphore]? = some limit := by
  have hslot := (Table.find_eq_some.mp hentry).1
  obtain ⟨free, hfree, hsum⟩ := hsound.balance slot hslot
  have hnone : s.holders slot.semaphore = 0 := by
    refine List.countP_eq_zero.mpr fun call hcall hholding => ?_
    have hphase : call.phase = .holding slot.semaphore := by simpa using hholding
    have hreference : call.phase.reference = some slot.semaphore := by
      rw [hphase]
      rfl
    have hmine := hsound.mine call hcall _ hreference
    have hsame := hsound.apart _ (Table.find_eq_some.mp hmine).1 slot hslot rfl
    refine idle_unreferenced hidle hcall hreference hmine ?_
    rw [← (Table.find_eq_some.mp hentry).2, ← hsame]
  rw [hfree, ← hsum, hnone, Nat.add_zero]

theorem freePermits_eq (limit : Nat) {s s' : Admission} {organization : Str}
    (hentry : s'.slots.find organization = s.slots.find organization)
    (hsame : ∀ slot, s.slots.find organization = some slot →
      s'.semaphores[slot.semaphore]? = s.semaphores[slot.semaphore]?) :
    s'.freePermits limit organization = s.freePermits limit organization := by
  unfold Admission.freePermits
  rw [hentry]
  cases hslot : s.slots.find organization with
  | none => rfl
  | some slot =>
    show (s'.semaphores[slot.semaphore]?).getD 0 = (s.semaphores[slot.semaphore]?).getD 0
    rw [hsame slot hslot]

/-- A permit of one organization's entry is none of another's. -/
theorem freePermits_exchange (hsound : s.Sound limit) {call semaphore free : Nat}
    {owner organization : Str} {phase phase' : AcquirePhase}
    (hcall : s.calls[call]? = some ⟨owner, phase⟩) (hreference : phase.reference = some semaphore)
    (hother : owner ≠ organization) :
    ((s.setFree semaphore free).move call owner phase').freePermits limit organization =
      s.freePermits limit organization := by
  refine freePermits_eq limit rfl fun slot hslot => ?_
  have hmine := hsound.mine _ (List.mem_of_getElem? hcall) semaphore hreference
  have hne : semaphore ≠ slot.semaphore := by
    intro hsame
    have heq := hsound.apart _ (Table.find_eq_some.mp hmine).1 slot (Table.find_eq_some.mp hslot).1
      hsame
    have horganization := (Table.find_eq_some.mp hslot).2
    rw [← heq] at horganization
    exact hother horganization
  exact List.getElem?_set_ne hne

/-- Only a permit of its own that is granted or given back changes the free permits of
an organization. -/
theorem step_freePermits (hsound : s.Sound limit) {s' : Admission} {action : SlotAction}
    (hstep : SlotStep limit s action () s') (organization : Str)
    (hother : ∀ call, action = .grant call ∨ action = .release call →
      (s.calls[call]?).map Acquire.organization ≠ some organization) :
    s'.freePermits limit organization = s.freePermits limit organization := by
  cases hstep with
  | found hfree hentry => rfl
  | missing hfree hentry hall => rfl
  | @examine owner entry unexamined hlock =>
    by_cases hidle : s.idle entry = true
    · have hdeleted : s.examine entry =
          s.slots.delete fun slot => decide (slot.organization = entry) := if_pos hidle
      by_cases hown : organization = entry
      · subst hown
        -- what it had was all free, and so is what it would get
        have hgone : (s.examine organization).find organization = none := by
          rw [hdeleted, Table.find_delete_key, if_pos rfl]
        unfold Admission.freePermits
        rw [hgone]
        cases hentry : s.slots.find organization with
        | none => rfl
        | some slot =>
          show limit = (s.semaphores[slot.semaphore]?).getD 0
          rw [idle_free hsound hentry hidle]
          rfl
      · refine freePermits_eq limit ?_ fun _ _ => rfl
        show (s.examine entry).find organization = _
        rw [hdeleted, Table.find_delete_key, if_neg hown]
    · have hkept : s.examine entry = s.slots := if_neg hidle
      refine freePermits_eq limit ?_ fun _ _ => rfl
      show (s.examine entry).find organization = _
      rw [hkept]
  | @insert owner hlock =>
    rcases hentry : s.slots.find owner with _ | slot
    · rw [orInsert_new hentry]
      by_cases hown : owner = organization
      · subst hown
        unfold Admission.freePermits
        rw [hentry]
        dsimp only
        rw [Table.find_insertNew, if_pos rfl]
        dsimp only
        rw [List.getElem?_concat_length]
        rfl
      · refine freePermits_eq limit ?_ fun slot hslot => ?_
        · dsimp only
          rw [Table.find_insertNew, if_neg hown]
        · exact List.getElem?_append_left (semaphore_lt hsound (Table.find_eq_some.mp hslot).1)
    · rw [orInsert_found hentry]
      rfl
  | @grant call semaphore free owner hcall hfree =>
    refine freePermits_exchange hsound hcall rfl fun heq => hother call (.inl rfl) ?_
    rw [hcall, heq]
    rfl
  | giveUp hcall => rfl
  | @release call semaphore free owner hcall hfree =>
    refine freePermits_exchange hsound hcall rfl fun heq => hother call (.inr rfl) ?_
    rw [hcall, heq]
    rfl
  | drop hcall => rfl

/-- A call that has a permit. -/
def Acquire.held (call : Acquire) : Bool :=
  match call.phase with
  | .holding _ => true
  | _ => false

/-- How many permits of an organization are held. -/
def Admission.held (s : Admission) (organization : Str) : Nat :=
  s.calls.countP fun call => call.held && decide (call.organization = organization)

theorem held_le (hsound : s.Sound limit) (organization : Str) : s.held organization ≤ limit := by
  have hmine : ∀ call ∈ s.calls, (call.held && decide (call.organization = organization)) = true →
      ∃ semaphore, call.phase = .holding semaphore ∧
        s.slots.find organization = some ⟨organization, semaphore⟩ := by
    intro call hcall hheld
    simp only [Bool.and_eq_true, decide_eq_true_eq] at hheld
    obtain ⟨hheld, rfl⟩ := hheld
    unfold Acquire.held at hheld
    split at hheld
    · rename_i semaphore hphase
      exact ⟨semaphore, hphase, hsound.mine call hcall semaphore (by rw [hphase]; rfl)⟩
    · cases hheld
  cases hentry : s.slots.find organization with
  | none =>
    have hzero : s.held organization = 0 := by
      refine List.countP_eq_zero.mpr fun call hcall hheld => ?_
      obtain ⟨semaphore, -, hfound⟩ := hmine call hcall hheld
      rw [hentry] at hfound
      cases hfound
    omega
  | some slot =>
    obtain ⟨free, -, hsum⟩ := hsound.balance slot (Table.find_eq_some.mp hentry).1
    have hle : s.held organization ≤ s.holders slot.semaphore := by
      refine List.countP_mono_left fun call hcall hheld => ?_
      obtain ⟨semaphore, hphase, hfound⟩ := hmine call hcall hheld
      rw [hentry] at hfound
      obtain rfl := Option.some.inj hfound
      simpa using hphase
    omega

end Steps

-- ---------------------------------------------------------------------------
-- Runs
-- ---------------------------------------------------------------------------

theorem run_slots_sound {limit : Nat} {h : List (Entry Admission SlotAction Unit)} {s : Admission}
    (run : (admissions limit).Run h s) : s.Sound limit := by
  refine run.invariant (fun s hstart => ?_) fun s action result s' hsound hstep => ?_
  · have heq : s = .new := hstart
    rw [heq]
    exact new_sound
  · exact step_sound hsound hstep

/-- **Selector slots.** Whatever the interleaving, no more than `limit` permits of an
organization are held. A semaphore somebody refers to is the one the map has for the
organization, before any step and after it. And the free permits of an organization
change only when one of its own permits is granted or given back. -/
theorem org_selection_admission {limit : Nat} {h : List (Entry Admission SlotAction Unit)}
    {s : Admission} (run : (admissions limit).Run h s) :
    (∀ organization, s.held organization ≤ limit) ∧
    ∀ action s', SlotStep limit s action () s' →
      (∀ call ∈ s.calls, ∀ semaphore, call.phase.reference = some semaphore →
        s.slots.find call.organization = some ⟨call.organization, semaphore⟩ ∧
          s'.slots.find call.organization = some ⟨call.organization, semaphore⟩) ∧
      ∀ organization,
        (∀ call, action = .grant call ∨ action = .release call →
          (s.calls[call]?).map Acquire.organization ≠ some organization) →
        s'.freePermits limit organization = s.freePermits limit organization := by
  have hsound := run_slots_sound run
  refine ⟨held_le hsound, fun action s' hstep => ⟨?_, step_freePermits hsound hstep⟩⟩
  intro call hcall semaphore hreference
  exact ⟨hsound.mine call hcall semaphore hreference, step_entry hsound hstep hcall hreference⟩

/-- One call of one organization, with its permit. -/
def heldState : Admission :=
  ((Admission.orInsert ⟨.empty, [], some ⟨['a'], []⟩, []⟩ 1 ['a']).setFree 0 0).move 0 ['a'] (.holding 0)

theorem org_selection_admission_held :
    heldState.held ['a'] ≤ 1 ∧ heldState.slots.find ['a'] = some ⟨['a'], 0⟩ := by
  have hmissing : SlotStep 1 .new (.acquire ['a']) () ⟨.empty, [], some ⟨['a'], []⟩, []⟩ :=
    .missing rfl rfl (List.Perm.refl _)
  have hinsert : SlotStep 1 ⟨.empty, [], some ⟨['a'], []⟩, []⟩ .insert ()
    (Admission.orInsert ⟨.empty, [], some ⟨['a'], []⟩, []⟩ 1 ['a']) := .insert rfl
  have hgrant : SlotStep 1 (Admission.orInsert ⟨.empty, [], some ⟨['a'], []⟩, []⟩ 1 ['a']) (.grant 0)
    () heldState := .grant rfl rfl
  have run := Machine.Run.snoc (M := admissions 1)
    (.snoc (.snoc (.nil rfl) hmissing) hinsert) hgrant
  obtain ⟨hheld, hsteps⟩ := org_selection_admission run
  refine ⟨hheld ['a'], ?_⟩
  have hrelease : SlotStep 1 heldState (.release 0) ()
    ((heldState.setFree 0 1).move 0 ['a'] (.leaving 0)) := .release rfl rfl
  exact ((hsteps _ _ hrelease).1 ⟨['a'], .holding 0⟩ (by decide) 0 rfl).1

end CamelidEnterprise.Gateway
