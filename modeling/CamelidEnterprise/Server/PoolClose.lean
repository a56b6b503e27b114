import CamelidEnterprise.Server.PoolLive
import Mathlib.Tactic.IntervalCases

/-!
# Camelid Enterprise — the last handle closes the queue

A handle that is dropped reads how many handles there are, closes the queue if it
is the only one, and gives up its count after that. Between the read and the release
another handle can be dropped too, and then both of them count the other.

`Gate` is what of a pool the handles decide: the handles themselves and
`queue.open`. The pool's steps move it by `Gate.Step` (`step_gate`).

* `run_gate` — the queue is never closed under a handle that is alive;
* `run_close` — when the last handle still alive begins its drop, what it finds
  decides whether the queue will be closed;
* `exits` — behind a closed queue, in a fair run, every thread drains and returns;
* `closes_with_last_iff` — what is left of the pool when the handles are gone.
-/

namespace CamelidEnterprise.Worker

open Foundation Foundation.Machine

variable {T : Type}

-- ---------------------------------------------------------------------------
-- The gate
-- ---------------------------------------------------------------------------

/-- The handles, and whether the queue is open. -/
structure Gate where
  handles : List Handle
  isOpen : Bool

def Pool.gate (s : Pool T) : Gate := ⟨s.handles, s.isOpen⟩

/-- What the steps of a pool do to its gate. -/
inductive Gate.Step : Gate → Action T → Gate → Prop
  | stay {g : Gate} {action : Action T} (hother : ∀ handle, action ≠ .readCount handle) :
      Step g action g
  | clone {g : Gate} (halive : .alive ∈ g.handles) :
      Step g .cloneHandle { g with handles := g.handles ++ [.alive] }
  | readShared {g : Gate} {handle : Nat} (halive : g.handles[handle]? = some .alive)
      (hshared : 1 < g.handles.length) :
      Step g (.readCount handle) { g with handles := g.handles.set handle .releasing }
  | readLast {g : Gate} {handle : Nat} (halive : g.handles[handle]? = some .alive)
      (hlast : g.handles.length = 1) :
      Step g (.readCount handle) { g with handles := g.handles.set handle .closing }
  | close {g : Gate} {handle : Nat} (hclosing : g.handles[handle]? = some .closing) :
      Step g (.close handle) ⟨g.handles.set handle .notifying, false⟩
  | notifyAll {g : Gate} {handle : Nat} (hnotifying : g.handles[handle]? = some .notifying) :
      Step g (.notifyAll handle) { g with handles := g.handles.set handle .releasing }
  | release {g : Gate} {handle : Nat} (hreleasing : g.handles[handle]? = some .releasing) :
      Step g (.release handle) { g with handles := g.handles.eraseIdx handle }

theorem step_gate {s s' : Pool T} {action : Action T} {event : Event T}
    (hstep : Step s action event s') : Gate.Step s.gate action s'.gate := by
  cases hstep with
  | post halive =>
    have hgate : s.post.2.gate = s.gate := by
      rcases post_cases s with ⟨-, hpost⟩ | ⟨-, -, hpost⟩ | ⟨-, -, hpost⟩
      · rw [hpost]
        rfl
      · rw [hpost]
        rfl
      · rw [hpost]
        rfl
    rw [hgate]
    exact .stay (by simp)
  | @turn thread hready =>
    have hgate : (s.turn thread).2.gate = s.gate := by
      rcases turn_cases s thread with ⟨job, rest, -, hturn⟩ | ⟨-, -, hturn⟩ | ⟨-, -, hturn⟩
      · rw [hturn]
        rfl
      · rw [hturn]
        rfl
      · rw [hturn]
        rfl
    rw [hgate]
    exact .stay (by simp)
  | cloneHandle halive => exact .clone halive
  | readShared halive hshared => exact .readShared halive hshared
  | readLast halive hlast => exact .readLast halive hlast
  | close hclosing => exact .close hclosing
  | notifyAll hnotifying => exact .notifyAll hnotifying
  | release hreleasing => exact .release hreleasing
  | _ => exact .stay (by simp)

-- ---------------------------------------------------------------------------
-- Safety
-- ---------------------------------------------------------------------------

/-- Who closes the queue is alone, and nobody is alive behind a closed queue. -/
structure Gate.Sound (g : Gate) : Prop where
  closing : .closing ∈ g.handles → g.handles = [.closing]
  notifying : .notifying ∈ g.handles → g.handles = [.notifying] ∧ g.isOpen = false
  alive : .alive ∈ g.handles → g.isOpen = true

/-- What a handle is not moved to it was before. -/
theorem mem_of_mem_set {handles : List Handle} {i : Nat} {new handle : Handle}
    (hmem : handle ∈ handles.set i new) (hne : handle ≠ new) : handle ∈ handles :=
  (List.mem_or_eq_of_mem_set hmem).resolve_right hne

/-- The only handle, moved. -/
theorem set_single {handles : List Handle} {i : Nat} {old new : Handle}
    (hold : handles[i]? = some old) (hlength : handles.length = 1) :
    handles.set i new = [new] := by
  obtain ⟨handle, rfl⟩ := List.length_eq_one_iff.mp hlength
  obtain ⟨hi, -⟩ := List.getElem?_eq_some_iff.mp hold
  obtain rfl : i = 0 := by simpa using hi
  rfl

theorem Gate.Step.sound {g g' : Gate} {action : Action T} (hstep : Gate.Step g action g')
    (sound : g.Sound) : g'.Sound := by
  cases hstep with
  | stay hother => exact sound
  | clone halive =>
    -- somebody is alive, so nobody is closing the queue
    refine ⟨fun hmem => ?_, fun hmem => ?_, fun _ => sound.alive halive⟩
    · have hbefore : .closing ∈ g.handles := by simpa using hmem
      rw [sound.closing hbefore] at halive
      simp at halive
    · have hbefore : .notifying ∈ g.handles := by simpa using hmem
      rw [(sound.notifying hbefore).1] at halive
      simp at halive
  | @readShared handle halive hshared =>
    refine ⟨fun hmem => ?_, fun hmem => ?_, fun _ => sound.alive (List.mem_of_getElem? halive)⟩
    · rw [sound.closing (mem_of_mem_set hmem (by simp))] at hshared
      simp at hshared
    · rw [(sound.notifying (mem_of_mem_set hmem (by simp))).1] at hshared
      simp at hshared
  | @readLast handle halive hlast =>
    have hopen := sound.alive (List.mem_of_getElem? halive)
    rw [set_single halive hlast]
    exact ⟨fun _ => rfl, by simp, fun _ => hopen⟩
  | @close handle hclosing =>
    have hlength : g.handles.length = 1 := by
      rw [sound.closing (List.mem_of_getElem? hclosing)]
      rfl
    rw [set_single hclosing hlength]
    exact ⟨by simp, fun _ => ⟨rfl, rfl⟩, by simp⟩
  | @notifyAll handle hnotifying =>
    have hlength : g.handles.length = 1 := by
      rw [(sound.notifying (List.mem_of_getElem? hnotifying)).1]
      rfl
    rw [set_single hnotifying hlength]
    exact ⟨by simp, by simp, by simp⟩
  | @release handle hreleasing =>
    have hmem := List.mem_of_getElem? hreleasing
    refine ⟨fun hleft => ?_, fun hleft => ?_, fun hleft => ?_⟩
    · rw [sound.closing (List.mem_of_mem_eraseIdx hleft)] at hmem
      simp at hmem
    · rw [(sound.notifying (List.mem_of_mem_eraseIdx hleft)).1] at hmem
      simp at hmem
    · exact sound.alive (List.mem_of_mem_eraseIdx hleft)

variable {slots : Nat} {h : History T} {s : Pool T}

/-- No handle is alive behind a closed queue. -/
theorem run_gate (run : (pool T slots).Run h s) : s.gate.Sound := by
  refine run.invariant (I := fun s => s.gate.Sound) ?_ ?_
  · rintro s rfl
    exact ⟨by simp [spawn, Pool.gate], by simp [spawn, Pool.gate], fun _ => rfl⟩
  · intro s action event s' sound hstep
    exact (step_gate hstep).sound sound

-- ---------------------------------------------------------------------------
-- The last handle alive
-- ---------------------------------------------------------------------------

/-- The last handle alive reads the count. -/
def Gate.LastRead (g : Gate) (action : Action T) : Prop :=
  (∃ handle, action = .readCount handle) ∧ g.handles.count .alive = 1

/-- The queue is closed, or a handle is about to close it. -/
def Gate.Closes (g : Gate) : Prop := g.isOpen = false ∨ .closing ∈ g.handles

variable {g g' : Gate} {action : Action T}

theorem count_set {handles : List Handle} {i : Nat} (new : Handle)
    (halive : handles[i]? = some .alive) (hne : new ≠ .alive) :
    (handles.set i new).count .alive + 1 = handles.count .alive := by
  have hcount := countP_set halive (· == .alive) new
  have hnew : (new == Handle.alive) = false := by simpa using hne
  rw [hnew] at hcount
  exact hcount

theorem mem_eraseIdx {handles : List Handle} {i : Nat} {old handle : Handle}
    (hold : handles[i]? = some old) (hne : handle ≠ old) :
    handle ∈ handles.eraseIdx i ↔ handle ∈ handles := by
  refine ⟨List.mem_of_mem_eraseIdx, fun hmem => ?_⟩
  obtain ⟨j, hj⟩ := List.getElem?_of_mem hmem
  refine List.mem_eraseIdx_iff_getElem?.mpr ⟨j, ?_, hj⟩
  rintro rfl
  rw [hold] at hj
  exact hne (Option.some.inj hj).symm

/-- While a handle is alive the last one has not begun its drop. -/
theorem Gate.Step.alive (hstep : Gate.Step g action g') (halive : .alive ∈ g'.handles) :
    .alive ∈ g.handles ∧ ¬g.LastRead action := by
  cases hstep with
  | stay hother => exact ⟨halive, fun hlast => absurd hlast.1 (by simpa using hother)⟩
  | clone hbefore => exact ⟨hbefore, fun hlast => absurd hlast.1 (by simp)⟩
  | readShared hread hshared =>
    refine ⟨List.mem_of_getElem? hread, fun hlast => ?_⟩
    have hcount := count_set .releasing hread (by simp)
    have hpos := List.count_pos_iff.mpr halive
    have hone := hlast.2
    dsimp only at hpos
    omega
  | readLast hread hlength =>
    refine ⟨List.mem_of_getElem? hread, fun hlast => ?_⟩
    have hcount := count_set .closing hread (by simp)
    have hpos := List.count_pos_iff.mpr halive
    have hone := hlast.2
    dsimp only at hpos
    omega
  | close hclosing =>
    exact ⟨mem_of_mem_set halive (by simp), fun hlast => absurd hlast.1 (by simp)⟩
  | notifyAll hnotifying =>
    exact ⟨mem_of_mem_set halive (by simp), fun hlast => absurd hlast.1 (by simp)⟩
  | release hreleasing =>
    exact ⟨List.mem_of_mem_eraseIdx halive, fun hlast => absurd hlast.1 (by simp)⟩

/-- The step that leaves nobody alive is the read of the last handle, and the queue
will be closed exactly if it found nobody else. -/
theorem Gate.Step.departs (hstep : Gate.Step g action g') (sound : g.Sound)
    (halive : .alive ∈ g.handles) (hgone : .alive ∉ g'.handles) :
    g.LastRead action ∧ (g'.Closes ↔ ∀ handle ∈ g.handles, handle = .alive) := by
  have hopen := sound.alive halive
  cases hstep with
  | stay hother => exact absurd halive hgone
  | clone hbefore => exact absurd (List.mem_append_left _ halive) hgone
  | @readShared handle hread hshared =>
    have hcount := count_set .releasing hread (by simp)
    have hzero := List.count_eq_zero.mpr hgone
    dsimp only at hzero
    refine ⟨⟨⟨handle, rfl⟩, by omega⟩, ?_⟩
    constructor
    · rintro (hclosed | hclosing)
      · rw [hopen] at hclosed
        cases hclosed
      · rw [sound.closing (mem_of_mem_set hclosing (by simp))] at hshared
        simp at hshared
    · intro hall
      -- somebody else is in the middle of its drop
      have hlength := List.count_eq_length.mpr fun handle hmem => (hall handle hmem).symm
      omega
  | @readLast handle hread hlength =>
    have hcount := count_set .closing hread (by simp)
    have hzero := List.count_eq_zero.mpr hgone
    dsimp only at hzero
    refine ⟨⟨⟨handle, rfl⟩, by omega⟩, ?_⟩
    refine iff_of_true (Or.inr ?_) fun other hmem => ?_
    · rw [set_single hread hlength]
      exact List.mem_singleton_self _
    · have hall := List.count_eq_length.mp (show g.handles.count .alive = g.handles.length by omega)
      exact (hall other hmem).symm
  | close hclosing =>
    rw [sound.closing (List.mem_of_getElem? hclosing)] at halive
    simp at halive
  | notifyAll hnotifying =>
    rw [(sound.notifying (List.mem_of_getElem? hnotifying)).1] at halive
    simp at halive
  | release hreleasing => exact absurd ((mem_eraseIdx hreleasing (by simp)).mpr halive) hgone

/-- With nobody alive it is settled whether the queue will be closed. -/
theorem Gate.Step.settled (hstep : Gate.Step g action g') (sound : g.Sound)
    (hgone : .alive ∉ g.handles) : ¬g.LastRead action ∧ (g'.Closes ↔ g.Closes) := by
  refine ⟨fun hlast => ?_, ?_⟩
  · have hzero := List.count_eq_zero.mpr hgone
    have hone := hlast.2
    omega
  cases hstep with
  | stay hother => exact Iff.rfl
  | clone hbefore => exact absurd hbefore hgone
  | readShared hread hshared => exact absurd (List.mem_of_getElem? hread) hgone
  | readLast hread hlength => exact absurd (List.mem_of_getElem? hread) hgone
  | close hclosing => exact iff_of_true (Or.inl rfl) (Or.inr (List.mem_of_getElem? hclosing))
  | notifyAll hnotifying =>
    have hclosed := (sound.notifying (List.mem_of_getElem? hnotifying)).2
    exact iff_of_true (Or.inl hclosed) (Or.inl hclosed)
  | release hreleasing => exact or_congr_right (mem_eraseIdx hreleasing (by simp))

/-- When the last handle alive began its drop, no other was in the middle of its own. -/
def LastAlone (h : History T) : Prop :=
  ∀ e ∈ h, e.before.gate.LastRead e.action → ∀ handle ∈ e.before.handles, handle = .alive

theorem lastAlone_snoc {e : Entry (Pool T) (Action T) (Event T)} :
    LastAlone (h ++ [e]) ↔ LastAlone h ∧
      (e.before.gate.LastRead e.action → ∀ handle ∈ e.before.handles, handle = .alive) := by
  unfold LastAlone
  rw [List.forall_mem_append, List.forall_mem_singleton]

/-- Before the last handle alive begins its drop no step was its read; afterwards that
step has decided whether the queue will be closed. -/
theorem run_close (run : (pool T slots).Run h s) :
    (.alive ∈ s.handles → ∀ e ∈ h, ¬e.before.gate.LastRead e.action) ∧
      (.alive ∉ s.handles → (s.gate.Closes ↔ LastAlone h)) := by
  refine run.history_induction
    (P := fun h s => (.alive ∈ s.handles → ∀ e ∈ h, ¬e.before.gate.LastRead e.action) ∧
      (.alive ∉ s.handles → (s.gate.Closes ↔ LastAlone h))) ?_ ?_
  · rintro s rfl
    exact ⟨fun _ => by simp, fun hgone => absurd (List.mem_singleton_self _) hgone⟩
  · intro h s action event s' run ih hstep
    have hgate := step_gate hstep
    have sound := run_gate run
    refine ⟨fun halive => ?_, fun hgone => ?_⟩
    · obtain ⟨hbefore, hnot⟩ := hgate.alive halive
      rw [List.forall_mem_append, List.forall_mem_singleton]
      exact ⟨ih.1 hbefore, hnot⟩
    · rw [lastAlone_snoc]
      by_cases halive : .alive ∈ s.handles
      · obtain ⟨hread, hcloses⟩ := hgate.departs sound halive hgone
        have halone : LastAlone h := fun e he hlast => absurd hlast (ih.1 halive e he)
        rw [hcloses]
        exact ⟨fun hall => ⟨halone, fun _ => hall⟩, fun hall => hall.2 hread⟩
      · obtain ⟨hnot, hcloses⟩ := hgate.settled sound halive
        rw [hcloses, ih.2 halive]
        exact ⟨fun halone => ⟨halone, fun hread => absurd hread hnot⟩, And.left⟩

theorem closed_iff (run : (pool T slots).Run h s) (hgone : s.handles = []) :
    s.isOpen = false ↔ LastAlone h := by
  have hnone : ∀ handle, handle ∉ s.handles := by simp [hgone]
  rw [← (run_close run).2 (hnone _)]
  exact ⟨Or.inl, fun hcloses => hcloses.resolve_right (hnone _)⟩

-- ---------------------------------------------------------------------------
-- Behind a closed queue
-- ---------------------------------------------------------------------------

theorem awake_ne_waiting (thread : Thread) : thread.awake ≠ .waiting := by
  cases thread with
  | ready => simp [Thread.awake]
  | waiting => simp [Thread.awake]
  | running job => simp [Thread.awake]
  | finished job => simp [Thread.awake]
  | exited => simp [Thread.awake]

theorem waiting_not_mem_set {threads : List Thread} {i : Nat} {new : Thread}
    (hawake : .waiting ∉ threads) (hne : new ≠ .waiting) : .waiting ∉ threads.set i new := by
  intro hmem
  rcases List.mem_or_eq_of_mem_set hmem with hbefore | rfl
  · exact hawake hbefore
  · exact hne rfl

/-- Behind a closed queue nobody sleeps, or somebody is to wake them all. -/
theorem run_awake (run : (pool T slots).Run h s) :
    s.isOpen = false → .notifying ∈ s.handles ∨ .waiting ∉ s.threads := by
  refine run.history_induction
    (P := fun _ s => s.isOpen = false → .notifying ∈ s.handles ∨ .waiting ∉ s.threads) ?_ ?_
  · rintro s rfl hclosed
    cases hclosed
  intro h s action event s' run ih hstep hclosed
  have sound := run_gate run
  -- a step that leaves the handles and moves a thread to where it does not sleep
  have hmoved : ∀ (i : Nat) (new : Thread), new ≠ .waiting → s.isOpen = false →
      .notifying ∈ s.handles ∨ .waiting ∉ s.threads.set i new := fun i new hne hbefore =>
    (ih hbefore).imp_right fun hawake => waiting_not_mem_set hawake hne
  cases hstep with
  | post halive =>
    rcases post_cases s with ⟨hbefore, hpost⟩ | ⟨hopen, -, hpost⟩ | ⟨hopen, -, hpost⟩
    · rw [hpost]
      exact ih hbefore
    · rw [hpost] at hclosed ⊢
      exact ih hclosed
    · rw [hpost] at hclosed ⊢
      exact ih hclosed
  | @turn thread hready =>
    rcases turn_cases s thread with ⟨job, rest, -, hturn⟩ | ⟨-, -, hturn⟩ | ⟨-, hopen, hturn⟩
    · rw [hturn] at hclosed ⊢
      exact hmoved thread _ (by simp) hclosed
    · rw [hturn] at hclosed ⊢
      exact hmoved thread _ (by simp) hclosed
    · rw [hturn] at hclosed
      exact absurd hclosed (by simp [hopen])
  | notifyOne hpending hwaiting => exact hmoved _ _ (by simp) hclosed
  | notifyNobody hpending hnobody => exact Or.inr hnobody
  | wake hwaiting => exact hmoved _ _ (by simp) hclosed
  | complete hrunning => exact hmoved _ _ (by simp) hclosed
  | unwind hrunning => exact hmoved _ _ (by simp) hclosed
  | decrement hfinished => exact hmoved _ _ (by simp) hclosed
  | receive hthrough => exact ih hclosed
  | cloneHandle halive => exact (ih hclosed).imp_left (List.mem_append_left _)
  | readShared halive hshared =>
    have hopen := sound.alive (List.mem_of_getElem? halive)
    exact absurd (hopen.symm.trans hclosed) (by simp)
  | readLast halive hlast =>
    have hopen := sound.alive (List.mem_of_getElem? halive)
    exact absurd (hopen.symm.trans hclosed) (by simp)
  | close hclosing =>
    obtain ⟨hi, -⟩ := List.getElem?_eq_some_iff.mp hclosing
    exact Or.inl (List.mem_set hi _)
  | notifyAll hnotifying =>
    right
    intro hmem
    obtain ⟨thread, -, hwaiting⟩ := List.mem_map.mp hmem
    exact awake_ne_waiting thread hwaiting
  | release hreleasing =>
    exact (ih hclosed).imp_left (mem_eraseIdx hreleasing (by simp)).mpr
  | idle => exact ih hclosed

/-- How much a thread has left to do before it looks at the queue and returns. -/
def Thread.work : Thread → Nat
  | .running _ => 3
  | .finished _ => 2
  | .ready => 1
  | .waiting => 0
  | .exited => 0

/-- More steps than the threads have left once nothing is posted any more. -/
def Pool.work (s : Pool T) : Nat := 3 * s.jobs.length + (s.threads.map Thread.work).sum

theorem work_set {threads : List Thread} {i : Nat} {old : Thread} (hold : threads[i]? = some old)
    (new : Thread) :
    ((threads.set i new).map Thread.work).sum + old.work =
      (threads.map Thread.work).sum + new.work := by
  obtain ⟨front, back, hsplit, hset⟩ := set_split hold
  rw [hset, hsplit]
  simp only [List.map_append, List.map_cons, List.sum_append, List.sum_cons]
  omega

/-- A step of a thread that does not sleep. -/
def Action.OfThread : Action T → Prop
  | .turn _ => True
  | .complete _ _ => True
  | .unwind _ => True
  | .decrement _ => True
  | _ => False

/-- No handle is left, the queue is closed, and nobody sleeps. -/
structure Pool.Abandoned (s : Pool T) : Prop where
  handles : s.handles = []
  closed : s.isOpen = false
  awake : .waiting ∉ s.threads

/-- A step that moves a thread on, to where it does not sleep. -/
theorem Pool.Abandoned.move {s s' : Pool T} {i : Nat} {old new : Thread} {action : Action T}
    (abandoned : s.Abandoned) (hold : s.threads[i]? = some old)
    (hthreads : s'.threads = s.threads.set i new) (hne : new ≠ .waiting)
    (hhandles : s'.handles = s.handles) (hopen : s'.isOpen = s.isOpen)
    (hless : 3 * s'.jobs.length + new.work < 3 * s.jobs.length + old.work) :
    s'.Abandoned ∧ s'.work ≤ s.work ∧ (action.OfThread → s'.work < s.work) := by
  have hwork := work_set hold new
  rw [← hthreads] at hwork
  have hlower : s'.work < s.work := by
    unfold Pool.work
    omega
  refine ⟨⟨hhandles.trans abandoned.handles, hopen.trans abandoned.closed, ?_⟩,
    Nat.le_of_lt hlower, fun _ => hlower⟩
  rw [hthreads]
  exact waiting_not_mem_set abandoned.awake hne

/-- Every step of a thread brings an abandoned pool nearer to its end. -/
theorem step_abandoned {s s' : Pool T} {action : Action T} {event : Event T}
    (hstep : Step s action event s') (abandoned : s.Abandoned) :
    s'.Abandoned ∧ s'.work ≤ s.work ∧ (action.OfThread → s'.work < s.work) := by
  have hnone : ∀ (i : Nat) (handle : Handle), s.handles[i]? ≠ some handle := by
    simp [abandoned.handles]
  have hasleep : ∀ i : Nat, s.threads[i]? ≠ some .waiting := fun i hwaiting =>
    abandoned.awake (List.mem_of_getElem? hwaiting)
  cases hstep with
  | post halive =>
    rw [abandoned.handles] at halive
    cases halive
  | notifyOne hpending hwaiting => exact absurd hwaiting (hasleep _)
  | notifyNobody hpending hnobody =>
    exact ⟨⟨abandoned.handles, abandoned.closed, abandoned.awake⟩, Nat.le_refl _, False.elim⟩
  | wake hwaiting => exact absurd hwaiting (hasleep _)
  | @turn thread hready =>
    rcases turn_cases s thread with ⟨job, rest, hjobs, hturn⟩ | ⟨-, -, hturn⟩ | ⟨-, hopen, -⟩
    · rw [hturn]
      refine abandoned.move hready rfl (by simp) rfl rfl ?_
      rw [hjobs, List.length_cons]
      simp only [Thread.work]
      omega
    · rw [hturn]
      exact abandoned.move hready rfl (by simp) rfl rfl (by simp [Thread.work])
    · rw [abandoned.closed] at hopen
      cases hopen
  | complete hrunning =>
    exact abandoned.move hrunning rfl (by simp) rfl rfl (by simp [Pool.endJob, Thread.work])
  | unwind hrunning =>
    exact abandoned.move hrunning rfl (by simp) rfl rfl (by simp [Pool.endJob, Thread.work])
  | decrement hfinished =>
    exact abandoned.move hfinished rfl (by simp) rfl rfl (by simp [Thread.work])
  | receive hthrough => exact ⟨abandoned, Nat.le_refl _, False.elim⟩
  | cloneHandle halive =>
    rw [abandoned.handles] at halive
    cases halive
  | readShared halive hshared => exact absurd halive (hnone _ _)
  | readLast halive hlast => exact absurd halive (hnone _ _)
  | close hclosing => exact absurd hclosing (hnone _ _)
  | notifyAll hnotifying => exact absurd hnotifying (hnone _ _)
  | release hreleasing => exact absurd hreleasing (hnone _ _)
  | idle => exact ⟨abandoned, Nat.le_refl _, False.elim⟩

variable {x : (pool T slots).Execution}

/-- A thread that neither sleeps nor has returned takes a step. -/
theorem proceeds (fair : Fair x) {n t : Nat} {thread : Thread}
    (hthread : (x.state n).threads[t]? = some thread) (hactive : thread.active = true) :
    ∃ m, n ≤ m ∧ (x.action m).OfThread := by
  cases thread with
  | ready =>
    obtain ⟨m, hm, haction⟩ := comes fair hthread
    exact ⟨m, hm, by rw [haction]; trivial⟩
  | waiting => cases hactive
  | running job =>
    obtain ⟨m, hm, -, ⟨value, haction⟩ | haction⟩ := returns fair hthread
    · exact ⟨m, hm, by rw [haction]; trivial⟩
    · exact ⟨m, hm, by rw [haction]; trivial⟩
  | finished job =>
    obtain ⟨m, hm, haction⟩ := decrements fair hthread
    exact ⟨m, hm, by rw [haction]; trivial⟩
  | exited => cases hactive

/-- Every thread has returned, and left no job behind. -/
def Pool.Drained (s : Pool T) : Prop := s.jobs = [] ∧ ∀ thread ∈ s.threads, thread = .exited

theorem Sound.drained (sound : Sound slots s) (hexited : ∀ thread ∈ s.threads, thread = .exited) :
    s.isOpen = false ∧ s.Drained := by
  obtain ⟨thread, hmem⟩ := List.exists_mem_of_ne_nil _ sound.threads_ne_nil
  obtain ⟨hclosed, hjobs⟩ := sound.exited (hexited thread hmem ▸ hmem)
  exact ⟨hclosed, hjobs, hexited⟩

/-- Behind a closed queue without handles every thread drains and returns. -/
theorem exits (fair : Fair x) {n : Nat} (hgone : (x.state n).handles = [])
    (hclosed : (x.state n).isOpen = false) : ∃ m, n ≤ m ∧ (x.state m).Drained := by
  have hawake : .waiting ∉ (x.state n).threads := by
    refine (run_awake (x.run n) hclosed).resolve_left ?_
    simp [hgone]
  have hprogress : ∀ n, (x.state n).Abandoned →
      ∃ m, n ≤ m ∧ ((∀ thread ∈ (x.state m).threads, thread = .exited) ∨
        (x.action m).OfThread) := by
    intro n abandoned
    by_cases hexited : ∀ thread ∈ (x.state n).threads, thread = .exited
    · exact ⟨n, Nat.le_refl n, Or.inl hexited⟩
    · obtain ⟨thread, hmem, hne⟩ : ∃ thread ∈ (x.state n).threads, thread ≠ .exited := by
        simpa using hexited
      obtain ⟨t, hthread⟩ := List.getElem?_of_mem hmem
      have hactive : thread.active = true := by
        cases thread with
        | ready => rfl
        | waiting => exact absurd hmem abandoned.awake
        | running job => rfl
        | finished job => rfl
        | exited => exact absurd rfl hne
      obtain ⟨m, hm, haction⟩ := proceeds fair hthread hactive
      exact ⟨m, hm, Or.inr haction⟩
  obtain ⟨m, hm, hexited⟩ := x.eventually_of_variant (P := Pool.Abandoned)
    (Q := fun s => ∀ thread ∈ s.threads, thread = .exited) hprogress
    (fun s action event s' hstep abandoned => Or.inr (step_abandoned hstep abandoned)) n
    ⟨hgone, hclosed, hawake⟩
  exact ⟨m, hm, ((run_sound (x.run m)).drained hexited).2⟩

-- ---------------------------------------------------------------------------
-- What is left of the pool
-- ---------------------------------------------------------------------------

theorem Gate.Step.gone (hstep : Gate.Step g action g') (hgone : g.handles = []) : g' = g := by
  have hnone : ∀ (i : Nat) (handle : Handle), g.handles[i]? ≠ some handle := by
    simp [hgone]
  cases hstep with
  | stay hother => rfl
  | clone halive =>
    rw [hgone] at halive
    cases halive
  | readShared halive hshared => exact absurd halive (hnone _ _)
  | readLast halive hlast => exact absurd halive (hnone _ _)
  | close hclosing => exact absurd hclosing (hnone _ _)
  | notifyAll hnotifying => exact absurd hnotifying (hnone _ _)
  | release hreleasing => exact absurd hreleasing (hnone _ _)

/-- Without handles nobody opens or closes the queue. -/
theorem gate_kept {n m : Nat} (hm : n ≤ m) (hgone : (x.state n).handles = []) :
    (x.state m).gate = (x.state n).gate := by
  induction m, hm using Nat.le_induction with
  | base => rfl
  | succ m hm ih =>
    have hstill : (x.state m).gate.handles = [] := by
      rw [ih]
      exact hgone
    exact ((step_gate (x.step m)).gone hstill).trans ih

/-- **The last handle closes the queue, up to one overlap.** In every run the queue is
open while a handle is alive. Once the handles are gone it is closed exactly if the
last handle alive began its drop while no other was in the middle of its own; and
in a fair run the threads drain the queue and return under the same condition. -/
theorem closes_with_last_iff (T : Type) (slots : Nat) :
    (∀ h s, (pool T slots).Run h s →
      (.alive ∈ s.handles → s.isOpen = true) ∧
        (s.handles = [] → (s.isOpen = false ↔ LastAlone h))) ∧
    (∀ x : (pool T slots).Execution, Fair x → ∀ n, (x.state n).handles = [] →
      ((∃ m, n ≤ m ∧ (x.state m).Drained) ↔ LastAlone (x.history n))) := by
  refine ⟨fun h s run => ⟨(run_gate run).alive, closed_iff run⟩, fun x fair n hgone => ?_⟩
  rw [← closed_iff (x.run n) hgone]
  constructor
  · rintro ⟨m, hm, -, hexited⟩
    have hclosed := ((run_sound (x.run m)).drained hexited).1
    have hkept : (x.state m).isOpen = (x.state n).isOpen := congrArg Gate.isOpen (gate_kept hm hgone)
    rw [← hkept]
    exact hclosed
  · exact exits fair hgone

/-- Two handles of a pool of one thread, dropped one after the other. -/
def dropState : Nat → Pool Unit
  | 0 => spawn Unit 1
  | 1 => ⟨[], true, 0, [.ready], 0, [.alive, .alive], 0, fun _ => .empty⟩
  | 2 => ⟨[], true, 0, [.ready], 0, [.alive, .releasing], 0, fun _ => .empty⟩
  | 3 => ⟨[], true, 0, [.ready], 0, [.alive], 0, fun _ => .empty⟩
  | 4 => ⟨[], true, 0, [.ready], 0, [.closing], 0, fun _ => .empty⟩
  | 5 => ⟨[], false, 0, [.ready], 0, [.notifying], 0, fun _ => .empty⟩
  | 6 => ⟨[], false, 0, [.ready], 0, [.releasing], 0, fun _ => .empty⟩
  | 7 => ⟨[], false, 0, [.ready], 0, [], 0, fun _ => .empty⟩
  | _ => ⟨[], false, 0, [.exited], 0, [], 0, fun _ => .empty⟩

def dropAction : Nat → Action Unit
  | 0 => .cloneHandle
  | 1 => .readCount 1
  | 2 => .release 1
  | 3 => .readCount 0
  | 4 => .close 0
  | 5 => .notifyAll 0
  | 6 => .release 0
  | 7 => .turn 0
  | _ => .idle

def dropExecution : (pool Unit 1).Execution where
  state := dropState
  action := dropAction
  result := fun _ => .silent
  start := rfl
  step
    | 0 => Step.cloneHandle (s := spawn Unit 1) (by decide)
    | 1 => Step.readShared (s := dropState 1) rfl (by decide)
    | 2 => Step.release (s := dropState 2) rfl
    | 3 => Step.readLast (s := dropState 3) rfl rfl
    | 4 => Step.close (s := dropState 4) rfl
    | 5 => Step.notifyAll (s := dropState 5) rfl
    | 6 => Step.release (s := dropState 6) rfl
    | 7 => Step.turn (s := dropState 7) rfl
    | _ + 8 => Step.idle

theorem dropExecution_fair : Fair dropExecution := by
  -- from the eighth step on the thread is gone and nobody is to be woken
  have hthread : ∀ (n t : Nat) (thread : Thread), thread ≠ .exited →
      (dropExecution.state (n + 8)).threads[t]? ≠ some thread := by
    intro n t thread hleft hthread
    have hmem : thread ∈ [Thread.exited] := List.mem_of_getElem? hthread
    exact hleft (List.mem_singleton.mp hmem)
  refine ⟨fun t => ?_, fun t job => ?_, fun t job => ?_, ?_⟩
  · exact .of_disabled fun n => ⟨n + 8, by omega, hthread n t _ (by simp)⟩
  · exact .of_disabled fun n => ⟨n + 8, by omega, hthread n t _ (by simp)⟩
  · exact .of_disabled fun n => ⟨n + 8, by omega, hthread n t _ (by simp)⟩
  · exact .of_disabled fun n => ⟨n + 8, by omega, Nat.lt_irrefl 0⟩

/-- Handles dropped one after the other close the queue, and the thread returns. -/
theorem closes_with_last_drops : Fair dropExecution ∧ (dropState 7).isOpen = false ∧
    ∃ m, 7 ≤ m ∧ (dropState m).Drained := by
  have halone : LastAlone (dropExecution.history 7) := by
    intro e he hread
    obtain ⟨n, hn, rfl⟩ := List.mem_map.mp he
    obtain ⟨⟨handle, haction⟩, hcount⟩ := hread
    have hn : n < 7 := List.mem_range.mp hn
    interval_cases n
    · cases haction
    · cases hcount
    · cases haction
    · -- the second handle reads a count of one
      exact List.forall_mem_singleton.mpr rfl
    · cases haction
    · cases haction
    · cases haction
  exact ⟨dropExecution_fair,
    (((closes_with_last_iff Unit 1).1 _ _ (dropExecution.run 7)).2 rfl).mpr halone,
    ((closes_with_last_iff Unit 1).2 dropExecution dropExecution_fair 7 rfl).mpr halone⟩

/-- Two handles read a count of two, and neither closes the queue. -/
theorem handles_gone_open :
    ¬∀ (slots : Nat) (h : History Unit) (s : Pool Unit), (pool Unit slots).Run h s →
      s.handles = [] → s.isOpen = false := by
  intro hcloses
  have run : (pool Unit 1).Run [] (spawn Unit 1) := .nil rfl
  have cloned := run.snoc (Step.cloneHandle (by decide))
  have reading := (cloned.snoc (@Step.readShared _ _ 0 rfl (by decide))).snoc
    (@Step.readShared _ _ 1 rfl (by decide))
  have gone := (reading.snoc (@Step.release _ _ 0 rfl)).snoc (@Step.release _ _ 0 rfl)
  have hclosed := hcloses 1 _ _ gone rfl
  cases hclosed

end CamelidEnterprise.Worker
