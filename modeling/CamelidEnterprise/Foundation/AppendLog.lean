import Mathlib.Algebra.Ring.Nat
import CamelidEnterprise.Foundation.Machine

/-!
# A file that many append to

Writers of one record each share a file and a lock. A writer takes the lock, opens the file to
append, writes the record in as many pieces as it takes, and lets go of the lock; it may fail
before any of this is done, and then the file keeps the front of its record. A lock that was
held when its holder died is poisoned and can be taken all the same.

Whatever the interleaving, the file is the pieces of the writers in the order in which they let
go of the lock, and behind them what the one that has it has written (`run_file`); a record is
accounted for once (`run_accounted`); and all that is left to do can be done (`path_live`).
-/

namespace Foundation.AppendLog

variable {R α : Type}

/-- A writer: before the lock, with it, with the file open and so much written, or done. -/
inductive Writer (R : Type)
  | waiting (record : R)
  | holding (record : R)
  | writing (record : R) (count : Nat)
  | done
deriving DecidableEq, Repr

/-- The file, its lock, and those who write. -/
structure Log (R α : Type) where
  file : List α
  locked : Bool
  poisoned : Bool
  writers : List (Writer R)

inductive Action (R : Type)
  | submit (record : R)
  | acquire (writer : Nat)
  | openFile (writer : Nat)
  | write (writer count : Nat)
  | finish (writer : Nat)
  | fail (writer : Nat) (died : Bool)

/-- What a step shows: a writer that is done, and how much of its record is in the file. -/
inductive Event (R : Type)
  | silent
  | ended (record : R) (count : Nat)

/-- The lock is let go. -/
def Log.release (s : Log R α) (writer : Nat) (died : Bool) : Log R α :=
  { s with locked := false, poisoned := s.poisoned || died, writers := s.writers.set writer .done }

variable (bytes : R → List α)

/-- The steps, of records that are written as these bytes. -/
inductive Step : Log R α → Action R → Event R → Log R α → Prop
  | submit {s : Log R α} {record : R} :
      Step s (.submit record) .silent { s with writers := s.writers ++ [.waiting record] }
  | acquire {s : Log R α} {i : Nat} {record : R} (hfree : s.locked = false)
      (hwriter : s.writers[i]? = some (.waiting record)) :
      -- a poisoned lock is taken like any other
      Step s (.acquire i) .silent
        { s with locked := true, writers := s.writers.set i (.holding record) }
  | openFile {s : Log R α} {i : Nat} {record : R}
      (hwriter : s.writers[i]? = some (.holding record)) :
      Step s (.openFile i) .silent { s with writers := s.writers.set i (.writing record 0) }
  | write {s : Log R α} {i count piece : Nat} {record : R}
      (hwriter : s.writers[i]? = some (.writing record count)) (hpiece : 0 < piece)
      (hleft : count + piece ≤ (bytes record).length) :
      Step s (.write i piece) .silent
        { s with
          file := s.file ++ ((bytes record).drop count).take piece
          writers := s.writers.set i (.writing record (count + piece)) }
  | finish {s : Log R α} {i : Nat} {record : R}
      (hwriter : s.writers[i]? = some (.writing record (bytes record).length)) :
      Step s (.finish i) (.ended record (bytes record).length) (s.release i false)
  | failOpen {s : Log R α} {i : Nat} {died : Bool} {record : R}
      (hwriter : s.writers[i]? = some (.holding record)) :
      Step s (.fail i died) (.ended record 0) (s.release i died)
  | failWrite {s : Log R α} {i count : Nat} {died : Bool} {record : R}
      (hwriter : s.writers[i]? = some (.writing record count)) (hleft : count < (bytes record).length) :
      Step s (.fail i died) (.ended record count) (s.release i died)

/-- A file from its opening on, with what was in it before. -/
def appendLog (before : List α) : Machine (Log R α) (Action R) (Event R) where
  start s := s = ⟨before, false, false, []⟩
  step := Step bytes

-- ---------------------------------------------------------------------------
-- What is counted
-- ---------------------------------------------------------------------------

/-- A writer that has the lock. -/
def Writer.holds : Writer R → Bool
  | holding _ => true
  | writing _ _ => true
  | _ => false

/-- What a writer has put into the file so far. -/
def Writer.put : Writer R → List α
  | writing record count => (bytes record).take count
  | _ => []

/-- The record a writer has still to deal with. -/
def Writer.pending : Writer R → Option R
  | waiting record => some record
  | holding record => some record
  | writing record _ => some record
  | done => none

/-- The writers that have let go of the lock, in that order, and how much each wrote. -/
def ended (history : List (Entry (Log R α) (Action R) (Event R))) : List (R × Nat) :=
  history.filterMap fun entry =>
    match entry.result with
    | .ended record count => some (record, count)
    | .silent => none

/-- The records that were handed in. -/
def submitted (history : List (Entry (Log R α) (Action R) (Event R))) : List R :=
  history.filterMap fun entry =>
    match entry.action with
    | .submit record => some record
    | _ => none

/-- The part of a record that is in the file. -/
def part (entry : R × Nat) : List α := (bytes entry.1).take entry.2

variable {bytes}

@[simp] theorem ended_append (history more : List (Entry (Log R α) (Action R) (Event R))) :
    ended (history ++ more) = ended history ++ ended more := List.filterMap_append

@[simp] theorem submitted_append (history more : List (Entry (Log R α) (Action R) (Event R))) :
    submitted (history ++ more) = submitted history ++ submitted more := List.filterMap_append

-- ---------------------------------------------------------------------------
-- One step
-- ---------------------------------------------------------------------------

section Step

variable {s s' : Log R α} {action : Action R} {event : Event R} {i : Nat} {w : Writer R}

/-- The lock is held by one writer, or by none. -/
def Exclusive (s : Log R α) : Prop := s.writers.countP Writer.holds = if s.locked then 1 else 0

theorem Exclusive.set (h : Exclusive s) (hwriter : s.writers[i]? = some w) (after : Writer R) :
    (s.writers.set i after).countP Writer.holds + (if w.holds = true then 1 else 0) =
      (if s.locked = true then 1 else 0) + if after.holds = true then 1 else 0 := by
  rw [countP_set hwriter Writer.holds after]
  unfold Exclusive at h
  rw [h]

/-- A writer that has the lock has it. -/
theorem Exclusive.locked (h : Exclusive s) (hwriter : s.writers[i]? = some w)
    (hholds : w.holds = true) : s.locked = true := by
  by_contra hfree
  have hnone : s.writers.countP Writer.holds = 0 := by
    unfold Exclusive at h
    rw [h, if_neg hfree]
  exact List.countP_eq_zero.mp hnone w (List.mem_of_getElem? hwriter) hholds

theorem step_exclusive (h : Exclusive s) (hstep : Step bytes s action event s') : Exclusive s' := by
  have hheld : ∀ {i : Nat} {w : Writer R} (died : Bool), s.writers[i]? = some w →
      w.holds = true → Exclusive (s.release i died) := by
    intro i w died hwriter hholds
    have hset := h.set hwriter .done
    rw [if_pos hholds, if_pos (h.locked hwriter hholds)] at hset
    show (s.writers.set i .done).countP Writer.holds = 0
    simpa [Writer.holds] using hset
  cases hstep with
  | submit => simpa [Exclusive, List.countP_append, Writer.holds] using h
  | @acquire i record hfree hwriter =>
    have hset := h.set hwriter (.holding record)
    rw [hfree] at hset
    show (s.writers.set i (.holding record)).countP Writer.holds = 1
    simpa [Writer.holds] using hset
  | @openFile i record hwriter =>
    have hset := h.set hwriter (.writing record 0)
    show (s.writers.set i (.writing record 0)).countP Writer.holds = if s.locked then 1 else 0
    simpa [Writer.holds] using hset
  | @write i count piece record hwriter hpiece hleft =>
    have hset := h.set hwriter (.writing record (count + piece))
    show (s.writers.set i (.writing record (count + piece))).countP Writer.holds =
      if s.locked then 1 else 0
    simpa [Writer.holds] using hset
  | finish hwriter => exact hheld false hwriter rfl
  | failOpen hwriter => exact hheld _ hwriter rfl
  | failWrite hwriter hleft => exact hheld _ hwriter rfl

/-- What the writers put into the file is what the holder put, wherever it stands. -/
theorem Exclusive.put_set (h : Exclusive s) (hwriter : s.writers[i]? = some w)
    (hholds : w.holds = true) (after : Writer R) :
    s.writers.flatMap (Writer.put bytes) = w.put bytes ∧ (s.writers.set i after).flatMap (Writer.put bytes) = after.put bytes := by
  obtain ⟨front, back, hsplit, hset⟩ := set_split hwriter
  have hcount := h
  unfold Exclusive at hcount
  rw [if_pos (h.locked hwriter hholds), hsplit, List.countP_append, List.countP_cons,
    if_pos hholds] at hcount
  have hquiet : ∀ {writers : List (Writer R)}, writers.countP Writer.holds = 0 →
      writers.flatMap (Writer.put bytes) = [] := by
    intro writers hnone
    refine List.flatMap_eq_nil_iff.mpr fun other hother => ?_
    have hno := List.countP_eq_zero.mp hnone other hother
    cases other with
    | writing record count => exact absurd rfl hno
    | _ => rfl
  have hfront : front.flatMap (Writer.put bytes) = [] := hquiet (by omega)
  have hback : back.flatMap (Writer.put bytes) = [] := hquiet (by omega)
  rw [hset, hsplit]
  simp only [List.flatMap_append, List.flatMap_cons, hfront, hback, List.nil_append, List.append_nil,
    and_self]

/-- A writer without the lock has put nothing there, before and after it takes it. -/
theorem put_set_of_nil (hwriter : s.writers[i]? = some w) (hput : w.put bytes = []) {after : Writer R}
    (hafter : after.put bytes = []) :
    (s.writers.set i after).flatMap (Writer.put bytes) = s.writers.flatMap (Writer.put bytes) := by
  obtain ⟨front, back, hsplit, hset⟩ := set_split hwriter
  rw [hset, hsplit]
  simp only [List.flatMap_append, List.flatMap_cons, hput, hafter]

variable (bytes) in
/-- The file is the parts of those that are done, and the part of the one that is not. -/
def Written (before : List α) (done : List (R × Nat)) (s : Log R α) : Prop :=
  s.file = before ++ done.flatMap (part bytes) ++ s.writers.flatMap (Writer.put bytes)

/-- What a step adds to those that are done. -/
def Event.done : Event R → List (R × Nat)
  | silent => []
  | ended record count => [(record, count)]

theorem step_written {before : List α} {done : List (R × Nat)} (hexclusive : Exclusive s)
    (h : Written bytes before done s) (hstep : Step bytes s action event s') :
    Written bytes before (done ++ event.done) s' := by
  unfold Written at h ⊢
  have hrelease : ∀ {i count : Nat} {record : R} {w : Writer R} (died : Bool),
      s.writers[i]? = some w → w.holds = true → w.put bytes = (bytes record).take count →
      (s.release i died).file = before ++ (done ++ [(record, count)]).flatMap (part bytes) ++
        (s.release i died).writers.flatMap (Writer.put bytes) := by
    intro i count record w died hwriter hholds hput
    obtain ⟨hbefore, hafter⟩ := hexclusive.put_set hwriter hholds .done
    show s.file = before ++ (done ++ [(record, count)]).flatMap (part bytes) ++
      (s.writers.set i .done).flatMap (Writer.put bytes)
    rw [h, hbefore, hafter, hput, List.flatMap_append]
    simp [part, Writer.put]
  cases hstep with
  | submit =>
    rw [Event.done, List.append_nil, List.flatMap_append]
    simpa [Writer.put] using h
  | acquire hfree hwriter =>
    rw [Event.done, List.append_nil, put_set_of_nil hwriter rfl rfl]
    exact h
  | openFile hwriter =>
    rw [Event.done, List.append_nil, put_set_of_nil hwriter rfl (by simp [Writer.put])]
    exact h
  | @write i count piece record hwriter hpiece hleft =>
    obtain ⟨hbefore, hafter⟩ := hexclusive.put_set hwriter rfl (.writing record (count + piece))
    rw [Event.done, List.append_nil, hafter, h, hbefore]
    simp only [Writer.put, List.append_assoc, List.take_add]
  | @finish i record hwriter => exact hrelease false hwriter rfl rfl
  | @failOpen i died record hwriter => exact hrelease died hwriter rfl (by simp [Writer.put])
  | @failWrite i count died record hwriter hleft => exact hrelease died hwriter rfl rfl

/-- What a step adds to the records that were handed in. -/
def Action.handed : Action R → List R
  | submit record => [record]
  | _ => []

/-- A writer goes on, and deals with its record or has it still. -/
theorem pending_set (hwriter : s.writers[i]? = some w) (after : Writer R) :
    (w.pending.toList ++ (s.writers.set i after).filterMap Writer.pending).Perm
      (after.pending.toList ++ s.writers.filterMap Writer.pending) := by
  obtain ⟨front, back, hsplit, hset⟩ := set_split hwriter
  have hcons : ∀ (w : Writer R) (back : List (Writer R)),
      (w :: back).filterMap Writer.pending = w.pending.toList ++ back.filterMap Writer.pending := by
    intro w back
    rw [List.filterMap_cons]
    cases w.pending with
    | none => rfl
    | some record => rfl
  rw [hset, hsplit, List.filterMap_append, List.filterMap_append, hcons, hcons]
  -- both are the records of the others, behind those of the two writers
  refine ((List.perm_append_comm_assoc ..).append_left _).trans ?_
  exact (List.perm_append_comm_assoc ..).trans ((List.perm_append_comm_assoc ..).append_left _)

/-- Every record handed in is done, or a writer has it. -/
def Accounted (handed : List R) (done : List (R × Nat)) (s : Log R α) : Prop :=
  handed.Perm (done.map Prod.fst ++ s.writers.filterMap Writer.pending)

theorem step_accounted {handed : List R} {done : List (R × Nat)}
    (h : Accounted handed done s) (hstep : Step bytes s action event s') :
    Accounted (handed ++ action.handed) (done ++ event.done) s' := by
  unfold Accounted at h ⊢
  have hkeep : ∀ {i : Nat} {w : Writer R} (after : Writer R), s.writers[i]? = some w →
      after.pending = w.pending →
      handed.Perm (done.map Prod.fst ++ (s.writers.set i after).filterMap Writer.pending) := by
    intro i w after hwriter hsame
    have hperm := pending_set hwriter after
    rw [hsame] at hperm
    exact h.trans (((List.perm_append_left_iff _).mp hperm).symm.append_left _)
  have hrelease : ∀ {i : Nat} {w : Writer R} {record : R} (count : Nat),
      s.writers[i]? = some w → w.pending = some record →
      handed.Perm ((done ++ [(record, count)]).map Prod.fst ++
        (s.writers.set i .done).filterMap Writer.pending) := by
    intro i w record count hwriter hpending
    have hperm := pending_set hwriter .done
    rw [hpending] at hperm
    rw [List.map_append, List.append_assoc]
    exact h.trans (hperm.symm.append_left _)
  cases hstep with
  | @submit record =>
    simp only [Action.handed, Event.done, List.append_nil, List.filterMap_append, ← List.append_assoc]
    exact h.append_right [record]
  | acquire hfree hwriter =>
    simp only [Action.handed, Event.done, List.append_nil]
    exact hkeep _ hwriter rfl
  | openFile hwriter =>
    simp only [Action.handed, Event.done, List.append_nil]
    exact hkeep _ hwriter rfl
  | write hwriter hpiece hleft =>
    simp only [Action.handed, Event.done, List.append_nil]
    exact hkeep _ hwriter rfl
  | finish hwriter =>
    simp only [Action.handed, List.append_nil]
    exact hrelease _ hwriter rfl
  | failOpen hwriter =>
    simp only [Action.handed, List.append_nil]
    exact hrelease _ hwriter rfl
  | failWrite hwriter hleft =>
    simp only [Action.handed, List.append_nil]
    exact hrelease _ hwriter rfl

/-- A writer that is done has written its record, or fails. -/
theorem step_ended {record : R} {count : Nat}
    (hstep : Step bytes s action (.ended record count) s') :
    count = (bytes record).length ∨ ∃ writer died, action = .fail writer died := by
  cases hstep with
  | finish hwriter => exact .inl rfl
  | failOpen hwriter => exact .inr ⟨_, _, rfl⟩
  | failWrite hwriter hleft => exact .inr ⟨_, _, rfl⟩

variable (bytes) in
/-- How much a writer has still to do. -/
def Writer.work : Writer R → Nat
  | waiting record => (bytes record).length + 3
  | holding record => (bytes record).length + 2
  | writing record count => (bytes record).length - count + 1
  | done => 0

variable (bytes) in
/-- How much is to do in all. -/
def Log.work (s : Log R α) : Nat := (s.writers.map (Writer.work bytes)).sum

variable (bytes) in
theorem work_set (hwriter : s.writers[i]? = some w) (after : Writer R) :
    ((s.writers.set i after).map (Writer.work bytes)).sum + w.work bytes = s.work bytes + after.work bytes := by
  obtain ⟨front, back, hsplit, hset⟩ := set_split hwriter
  unfold Log.work
  rw [hset, hsplit]
  simp only [List.map_append, List.map_cons, List.sum_append, List.sum_cons]
  omega

/-- A step that is no failure, and hands nothing in. -/
def Action.Forward : Action R → Prop
  | submit _ => False
  | fail _ _ => False
  | _ => True

variable (bytes) in
/-- Nobody has written more than there is. -/
def Writer.Within : Writer R → Prop
  | writing record count => count ≤ (bytes record).length
  | _ => True

variable (bytes) in
def Within (s : Log R α) : Prop := ∀ w ∈ s.writers, w.Within bytes

theorem step_within (h : Within bytes s) (hstep : Step bytes s action event s') : Within bytes s' := by
  cases hstep with
  | submit =>
    intro w hw
    rcases List.mem_append.mp hw with hw | hw
    · exact h w hw
    · obtain rfl := List.mem_singleton.mp hw
      exact trivial
  | write hwriter hpiece hleft => exact forall_mem_set h _ hleft
  | openFile hwriter => exact forall_mem_set h _ (Nat.zero_le _)
  | _ => exact forall_mem_set h _ trivial

/-- While there is something to do, there is a step that does some of it. -/
theorem step_live (hexclusive : Exclusive s) (hwithin : Within bytes s) (hwork : s.work bytes ≠ 0) :
    ∃ action event s', Step bytes s action event s' ∧ action.Forward ∧ s'.work bytes < s.work bytes := by
  by_cases hlocked : s.locked = true
  · -- the holder goes on
    unfold Exclusive at hexclusive
    rw [if_pos hlocked] at hexclusive
    obtain ⟨w, hmem, hholds⟩ := List.countP_pos_iff.mp (by omega : 0 < s.writers.countP Writer.holds)
    obtain ⟨i, hwriter⟩ := List.getElem?_of_mem hmem
    cases w with
    | holding record =>
      refine ⟨_, _, _, .openFile hwriter, trivial, ?_⟩
      have hset := work_set bytes hwriter (.writing record 0)
      simp only [Writer.work] at hset
      unfold Log.work at hset ⊢
      dsimp only
      omega
    | writing record count =>
      have hcount : count ≤ (bytes record).length := hwithin _ hmem
      rcases Nat.lt_or_ge count (bytes record).length with hleft | hfull
      · have hpiece : 0 < (bytes record).length - count := by omega
        refine ⟨_, _, _, .write hwriter hpiece (by omega), trivial, ?_⟩
        have hset := work_set bytes hwriter (.writing record (count + ((bytes record).length - count)))
        simp only [Writer.work] at hset
        unfold Log.work at hset ⊢
        dsimp only
        omega
      · obtain rfl : count = (bytes record).length := by omega
        refine ⟨_, _, _, .finish hwriter, trivial, ?_⟩
        have hset := work_set bytes hwriter .done
        simp only [Writer.work] at hset
        unfold Log.work at hset ⊢
        unfold Log.release
        dsimp only
        omega
    | _ => exact absurd hholds (by simp [Writer.holds])
  · -- nobody has the lock: one that waits takes it
    rw [Bool.not_eq_true] at hlocked
    have hwaits : ∃ record, Writer.waiting record ∈ s.writers := by
      by_contra hnone
      refine hwork (List.sum_eq_zero_iff_forall_eq_nat.mpr fun n hn => ?_)
      obtain ⟨w, hmem, rfl⟩ := List.mem_map.mp hn
      cases w with
      | waiting record => exact absurd ⟨record, hmem⟩ hnone
      | done => rfl
      | _ =>
        obtain ⟨i, hwriter⟩ := List.getElem?_of_mem hmem
        exact absurd (hexclusive.locked hwriter rfl) (by simp [hlocked])
    obtain ⟨record, hmem⟩ := hwaits
    obtain ⟨i, hwriter⟩ := List.getElem?_of_mem hmem
    refine ⟨_, _, _, .acquire hlocked hwriter, trivial, ?_⟩
    have hset := work_set bytes hwriter (.holding record)
    simp only [Writer.work] at hset
    unfold Log.work at hset ⊢
    dsimp only
    omega

variable (bytes) in
/-- Steps one after the other. -/
inductive Path : Log R α → List (Entry (Log R α) (Action R) (Event R)) → Log R α → Prop
  | nil {s : Log R α} : Path s [] s
  | cons {s s' s'' : Log R α} {action : Action R} {event : Event R}
      {more : List (Entry (Log R α) (Action R) (Event R))} (hstep : Step bytes s action event s')
      (rest : Path s' more s'') : Path s (⟨s, action, event, s'⟩ :: more) s''

/-- Dead holders or not, all that is left to do can be done. -/
theorem path_live (hexclusive : Exclusive s) (hwithin : Within bytes s) :
    ∃ more s', Path bytes s more s' ∧ s'.work bytes = 0 ∧ ∀ e ∈ more, e.action.Forward := by
  induction hwork : s.work bytes using Nat.strongRecOn generalizing s with
  | ind work ih =>
    by_cases hnone : s.work bytes = 0
    · exact ⟨[], s, .nil, hnone, fun e he => absurd he List.not_mem_nil⟩
    · obtain ⟨action, event, s', hstep, hforward, hless⟩ := step_live hexclusive hwithin hnone
      obtain ⟨more, s'', hpath, hdone, hmore⟩ := ih (s'.work bytes) (hwork ▸ hless)
        (step_exclusive hexclusive hstep) (step_within hwithin hstep) rfl
      refine ⟨_, s'', .cons hstep hpath, hdone, fun e he => ?_⟩
      rcases List.mem_cons.mp he with rfl | he
      · exact hforward
      · exact hmore e he

/-- A step that is no failure leaves a record whole. -/
theorem step_whole (hstep : Step bytes s action event s') (hforward : action.Forward) :
    ∀ entry ∈ event.done, entry.2 = (bytes entry.1).length := by
  intro entry hentry
  cases hstep with
  | finish hwriter =>
    obtain rfl := List.mem_singleton.mp hentry
    rfl
  | failOpen hwriter => exact absurd hforward id
  | failWrite hwriter hleft => exact absurd hforward id
  | _ => exact absurd hentry List.not_mem_nil

end Step

/-- What one step adds. -/
theorem ended_singleton {s s' : Log R α} {action : Action R} (event : Event R) :
    ended [(⟨s, action, event, s'⟩ : Entry (Log R α) (Action R) (Event R))] = event.done := by
  cases event with
  | _ => rfl

theorem path_whole {s s' : Log R α} {more : List (Entry (Log R α) (Action R) (Event R))}
    (hpath : Path bytes s more s') (hforward : ∀ e ∈ more, e.action.Forward) :
    ∀ entry ∈ ended more, entry.2 = (bytes entry.1).length := by
  induction hpath with
  | nil => exact fun entry hentry => absurd hentry List.not_mem_nil
  | @cons s s' s'' action event more hstep hpath ih =>
    intro entry hentry
    rw [← List.singleton_append, ended_append, ended_singleton] at hentry
    rcases List.mem_append.mp hentry with hentry | hentry
    · exact step_whole hstep (hforward _ List.mem_cons_self) entry hentry
    · exact ih (fun e he => hforward e (List.mem_cons_of_mem _ he)) entry hentry

-- ---------------------------------------------------------------------------
-- Runs
-- ---------------------------------------------------------------------------

section Run

variable {before : List α} {h : List (Entry (Log R α) (Action R) (Event R))} {s : Log R α}

theorem run_exclusive (run : (appendLog bytes before).Run h s) : Exclusive s := by
  refine run.invariant ?_ fun _ _ _ _ => step_exclusive
  rintro s rfl
  rfl

theorem run_within (run : (appendLog bytes before).Run h s) : Within bytes s := by
  refine run.invariant ?_ fun _ _ _ _ => step_within
  rintro s rfl w hw
  exact absurd hw List.not_mem_nil

/-- What is in the file. -/
theorem run_file (run : (appendLog bytes before).Run h s) : Written bytes before (ended h) s := by
  refine run.history_induction (P := fun h s => Written bytes before (ended h) s) ?_ ?_
  · rintro s rfl
    simp [Written, ended]
  · intro h s a r s' run ih hstep
    rw [ended_append, ended_singleton]
    exact step_written (run_exclusive run) ih hstep

/-- What has become of the records. -/
theorem run_accounted (run : (appendLog bytes before).Run h s) : Accounted (submitted h) (ended h) s := by
  refine run.history_induction (P := fun h s => Accounted (submitted h) (ended h) s) ?_ ?_
  · rintro s rfl
    exact .refl _
  · intro h s a r s' run ih hstep
    have hhanded : submitted [(⟨s, a, r, s'⟩ : Entry (Log R α) (Action R) (Event R))] = a.handed := by
      cases a with
      | _ => rfl
    rw [ended_append, submitted_append, ended_singleton, hhanded]
    exact step_accounted ih hstep

/-- Where there is nothing left to do, every writer is done. -/
theorem pending_of_work (hwork : s.work bytes = 0) : s.writers.filterMap Writer.pending = [] := by
  refine List.filterMap_eq_nil_iff.mpr fun w hw => ?_
  have hzero : w.work bytes = 0 :=
    List.sum_eq_zero_iff_forall_eq_nat.mp hwork _ (List.mem_map_of_mem hw)
  cases w with
  | done => rfl
  | _ => exact absurd hzero (by simp [Writer.work])

end Run

end Foundation.AppendLog
