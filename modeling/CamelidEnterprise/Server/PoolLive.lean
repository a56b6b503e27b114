import Mathlib.Data.Nat.Find
import Mathlib.Data.Nat.Init
import CamelidEnterprise.Server.PoolRun

/-!
# Camelid Enterprise — every accepted job runs

An infinite run is `Fair` when no thread that can go on is held back for ever, no
job runs for ever, and a poster that put a job in does call `notify_one`. In a fair
run the queue keeps moving (`served`): as long as it holds a job some thread will
take one, because a wake-up cannot be lost. A job therefore reaches the front
(`starts`), and ends (`ends`).

`pool_run` collects what callers of the pool rely on.
-/

namespace CamelidEnterprise.Worker

open Foundation Foundation.Machine

variable {T : Type}

-- ---------------------------------------------------------------------------
-- What a step leaves alone
-- ---------------------------------------------------------------------------

/-- Replacing a thread in another state leaves this one. -/
theorem set_other {threads : List Thread} {i t : Nat} {old moved new : Thread}
    (hold : threads[t]? = some old) (hmoved : threads[i]? = some moved) (hne : moved ≠ old) :
    (threads.set i new)[t]? = some old := by
  have hi : i ≠ t := by
    rintro rfl
    rw [hold] at hmoved
    exact hne (Option.some.inj hmoved).symm
  rw [List.getElem?_set_ne hi]
  exact hold

theorem set_self {threads : List Thread} {i : Nat} {old new : Thread}
    (hold : threads[i]? = some old) : (threads.set i new)[i]? = some new := by
  obtain ⟨hi, -⟩ := List.getElem?_eq_some_iff.mp hold
  exact List.getElem?_set_self hi

/-- A thread stays where it is until its own step, or until it is woken. -/
theorem step_thread {s s' : Pool T} {action : Action T} {event : Event T} {t : Nat} {old : Thread}
    (hstep : Step s action event s') (hold : s.threads[t]? = some old) (hawake : old ≠ .waiting) :
    s'.threads[t]? = some old ∨ (old = .ready ∧ action = .turn t) ∨
      (∃ job value, old = .running job ∧ event = .ended job value ∧
        ((∃ value, action = .complete t value) ∨ action = .unwind t)) ∨
      (∃ job, old = .finished job ∧ action = .decrement t ∧ s'.threads[t]? = some .ready) := by
  -- only a thread's own step moves it: a notification finds a thread that waits
  cases hstep with
  | post halive =>
    rcases post_cases s with ⟨-, hpost⟩ | ⟨-, -, hpost⟩ | ⟨-, -, hpost⟩
    · rw [hpost]
      exact Or.inl hold
    · rw [hpost]
      exact Or.inl hold
    · rw [hpost]
      exact Or.inl hold
  | notifyOne hpending hwaiting => exact Or.inl (set_other hold hwaiting (Ne.symm hawake))
  | notifyNobody hpending hnobody => exact Or.inl hold
  | wake hwaiting => exact Or.inl (set_other hold hwaiting (Ne.symm hawake))
  | @turn thread hready =>
    by_cases hself : thread = t
    · subst hself
      rw [hold] at hready
      exact Or.inr (Or.inl ⟨Option.some.inj hready, rfl⟩)
    · left
      rcases turn_cases s thread with ⟨job, rest, -, hturn⟩ | ⟨-, -, hturn⟩ | ⟨-, -, hturn⟩
      · rw [hturn]
        exact (List.getElem?_set_ne hself).trans hold
      · rw [hturn]
        exact (List.getElem?_set_ne hself).trans hold
      · rw [hturn]
        exact (List.getElem?_set_ne hself).trans hold
  | @complete thread job value hrunning =>
    by_cases hself : thread = t
    · subst hself
      rw [hold] at hrunning
      exact Or.inr (Or.inr (Or.inl
        ⟨job, some value, Option.some.inj hrunning, rfl, Or.inl ⟨value, rfl⟩⟩))
    · exact Or.inl ((List.getElem?_set_ne hself).trans hold)
  | @unwind thread job hrunning =>
    by_cases hself : thread = t
    · subst hself
      rw [hold] at hrunning
      exact Or.inr (Or.inr (Or.inl ⟨job, none, Option.some.inj hrunning, rfl, Or.inr rfl⟩))
    · exact Or.inl ((List.getElem?_set_ne hself).trans hold)
  | @decrement thread job hfinished =>
    by_cases hself : thread = t
    · subst hself
      have hnext : (s.threads.set thread .ready)[thread]? = some .ready := set_self hfinished
      rw [hold] at hfinished
      exact Or.inr (Or.inr (Or.inr ⟨job, Option.some.inj hfinished, rfl, hnext⟩))
    · exact Or.inl ((List.getElem?_set_ne hself).trans hold)
  | receive hthrough => exact Or.inl hold
  | cloneHandle halive => exact Or.inl hold
  | readShared halive hshared => exact Or.inl hold
  | readLast halive hlast => exact Or.inl hold
  | close hclosing => exact Or.inl hold
  | notifyAll hnotifying =>
    -- it wakes whoever waits, and this one does not
    left
    show (s.threads.map Thread.awake)[t]? = some old
    rw [List.getElem?_map, hold, Option.map_some]
    cases old with
    | ready => rfl
    | waiting => exact absurd rfl hawake
    | running job => rfl
    | finished job => rfl
    | exited => rfl
  | release hreleasing => exact Or.inl hold
  | idle => exact Or.inl hold

/-- What an event says about the step that showed it. -/
def Shown (s : Pool T) (event : Event T) (s' : Pool T) : Prop :=
  match event with
  | .accepted job => s'.jobs = s.jobs ++ [job]
  | .started job => s.jobs = job :: s'.jobs ∧ ∃ t : Nat, s'.threads[t]? = some (.running job)
  | .received job result => s'.jobs = s.jobs ∧ (s.channels job).receive = some result
  | _ => s'.jobs = s.jobs

theorem step_shown {s s' : Pool T} {action : Action T} {event : Event T}
    (hstep : Step s action event s') : Shown s event s' := by
  cases hstep with
  | post halive =>
    rcases post_cases s with ⟨-, hpost⟩ | ⟨-, -, hpost⟩ | ⟨-, -, hpost⟩
    · rw [hpost]
      rfl
    · rw [hpost]
      rfl
    · rw [hpost]
      rfl
  | @turn thread hready =>
    rcases turn_cases s thread with ⟨job, rest, hjobs, hturn⟩ | ⟨-, -, hturn⟩ | ⟨-, -, hturn⟩
    · rw [hturn]
      exact ⟨hjobs, thread, set_self hready⟩
    · rw [hturn]
      rfl
    · rw [hturn]
      rfl
  | receive hthrough => exact ⟨rfl, hthrough⟩
  | _ => rfl

/-- The queue only grows at the end, unless a job is started. -/
theorem step_jobs {s s' : Pool T} {action : Action T} {event : Event T}
    (hstep : Step s action event s') :
    (∃ more, s'.jobs = s.jobs ++ more) ∨ ∃ job, event = .started job := by
  have hshown := step_shown hstep
  cases event with
  | accepted job => exact Or.inl ⟨[job], hshown⟩
  | started job => exact Or.inr ⟨job, rfl⟩
  | received job result => exact Or.inl ⟨[], by rw [hshown.1, List.append_nil]⟩
  | silent => exact Or.inl ⟨[], by rw [hshown, List.append_nil]⟩
  | refused job error => exact Or.inl ⟨[], by rw [hshown, List.append_nil]⟩
  | ended job value => exact Or.inl ⟨[], by rw [hshown, List.append_nil]⟩

/-- A thread that gets the lock while a job is queued starts one. -/
theorem turn_starts {s s' : Pool T} {t : Nat} {event : Event T}
    (hstep : Step s (.turn t) event s') (hjobs : s.jobs ≠ []) : ∃ job, event = .started job := by
  cases hstep with
  | turn hready =>
    rcases turn_cases s t with ⟨job, rest, -, hturn⟩ | ⟨hnil, -⟩ | ⟨hnil, -⟩
    · exact ⟨job, by rw [hturn]⟩
    · exact absurd hnil hjobs
    · exact absurd hnil hjobs

theorem decrement_step {s s' : Pool T} {t : Nat} {event : Event T}
    (hstep : Step s (.decrement t) event s') : s'.threads[t]? = some .ready := by
  cases hstep with
  | decrement hfinished => exact set_self hfinished

/-- The step that ends a job is about the job the thread was inside. -/
theorem endJob_step {s s' : Pool T} {t job : Nat} {action : Action T} {event : Event T}
    (hstep : Step s action event s') (hrunning : s.threads[t]? = some (.running job))
    (haction : (∃ value, action = .complete t value) ∨ action = .unwind t) :
    ∃ value, event = .ended job value ∧ s'.threads[t]? = some (.finished job) := by
  rcases haction with ⟨value, rfl⟩ | rfl
  · cases hstep with
    | complete hrunning' =>
      rw [hrunning] at hrunning'
      cases hrunning'
      exact ⟨some value, rfl, set_self hrunning⟩
  · cases hstep with
    | unwind hrunning' =>
      rw [hrunning] at hrunning'
      cases hrunning'
      exact ⟨none, rfl, set_self hrunning⟩

-- ---------------------------------------------------------------------------
-- Fair runs
-- ---------------------------------------------------------------------------

/-- Nothing that can go on is put off for ever: a thread that wants the lock gets
it, a job that runs ends, a thread that finished a job decrements the counter, and
of the posters that have put a job in one reaches `notify_one`. -/
structure Fair {slots : Nat} (x : (pool T slots).Execution) : Prop where
  turn : ∀ t, x.WeaklyFair (fun s => s.threads[t]? = some .ready) fun action => action = .turn t
  endJob : ∀ t job, x.WeaklyFair (fun s => s.threads[t]? = some (.running job)) fun action =>
    (∃ value, action = .complete t value) ∨ action = .unwind t
  decrement : ∀ t job, x.WeaklyFair (fun s => s.threads[t]? = some (.finished job)) fun action =>
    action = .decrement t
  notifyOne : x.WeaklyFair (fun s => 0 < s.notifications) fun action => action = .notifyOne

variable {slots : Nat} {x : (pool T slots).Execution}

/-- A thread on its way to the lock gets it. -/
theorem comes (fair : Fair x) {n t : Nat} (hready : (x.state n).threads[t]? = some .ready) :
    ∃ m, n ≤ m ∧ x.action m = .turn t := by
  obtain ⟨m, hm, -, haction⟩ := (fair.turn t).leadsTo hready (by
    intro m _ hstill
    rcases step_thread (x.step m) hstill (by simp) with hkept | ⟨-, haction⟩ |
      ⟨job, value, hrunning, -⟩ | ⟨job, hfinished, -⟩
    · exact Or.inr hkept
    · exact Or.inl haction
    · cases hrunning
    · cases hfinished)
  exact ⟨m, hm, haction⟩

/-- A thread inside a job comes out of it. -/
theorem returns (fair : Fair x) {n t job : Nat}
    (hrunning : (x.state n).threads[t]? = some (.running job)) :
    ∃ m, n ≤ m ∧ (x.state m).threads[t]? = some (.running job) ∧
      ((∃ value, x.action m = .complete t value) ∨ x.action m = .unwind t) :=
  (fair.endJob t job).leadsTo hrunning (by
    intro m _ hstill
    rcases step_thread (x.step m) hstill (by simp) with hkept | ⟨hready, -⟩ |
      ⟨job', value, -, -, haction⟩ | ⟨job', hfinished, -⟩
    · exact Or.inr hkept
    · cases hready
    · exact Or.inl haction
    · cases hfinished)

/-- A thread that finished a job takes it off the counter. -/
theorem decrements (fair : Fair x) {n t job : Nat}
    (hfinished : (x.state n).threads[t]? = some (.finished job)) :
    ∃ m, n ≤ m ∧ x.action m = .decrement t := by
  obtain ⟨m, hm, -, haction⟩ := (fair.decrement t job).leadsTo hfinished (by
    intro m _ hstill
    rcases step_thread (x.step m) hstill (by simp) with hkept | ⟨hready, -⟩ |
      ⟨job', value, hrunning, -⟩ | ⟨job', -, haction, -⟩
    · exact Or.inr hkept
    · cases hready
    · cases hrunning
    · exact Or.inl haction)
  exact ⟨m, hm, haction⟩

/-- A running job ends. -/
theorem ends (fair : Fair x) {n t job : Nat}
    (hrunning : (x.state n).threads[t]? = some (.running job)) :
    ∃ m value, n ≤ m ∧ x.result m = .ended job value := by
  obtain ⟨m, hm, hstill, haction⟩ := returns fair hrunning
  obtain ⟨value, hended, -⟩ := endJob_step (x.step m) hstill haction
  exact ⟨m, value, hm, hended⟩

/-- While the queue holds a job, a thread will take one. -/
theorem served (fair : Fair x) {n : Nat} (hjobs : (x.state n).jobs ≠ []) :
    ∃ m job, n ≤ m ∧ x.result m = .started job := by
  by_contra hnever
  have hnone : ∀ m, n ≤ m → ∀ job, x.result m ≠ .started job := fun m hm job hstarted =>
    hnever ⟨m, job, hm, hstarted⟩
  -- nothing leaves the queue any more
  have hqueued : ∀ m, n ≤ m → (x.state m).jobs ≠ [] := by
    intro m hm
    induction m, hm using Nat.le_induction with
    | base => exact hjobs
    | succ m hm ih =>
      rcases step_jobs (x.step m) with ⟨more, hgrown⟩ | ⟨job, hstarted⟩
      · rw [hgrown]
        simp [ih]
      · exact absurd hstarted (hnone m hm job)
  -- so nobody comes to the lock,
  have hready : ∀ m, n ≤ m → ∀ t : Nat, (x.state m).threads[t]? ≠ some .ready := by
    intro m hm t hready
    obtain ⟨m', hm', haction⟩ := comes fair hready
    have hstep := x.step m'
    rw [haction] at hstep
    obtain ⟨job, hstarted⟩ := turn_starts hstep (hqueued m' (by omega))
    exact hnone m' (by omega) job hstarted
  -- nobody is between a job and the decrement,
  have hfinished : ∀ m, n ≤ m → ∀ t job : Nat, (x.state m).threads[t]? ≠ some (.finished job) := by
    intro m hm t job hfinished
    obtain ⟨m', hm', haction⟩ := decrements fair hfinished
    have hstep := x.step m'
    rw [haction] at hstep
    exact hready (m' + 1) (by omega) t (decrement_step hstep)
  -- and nobody is inside a job
  have hrunning : ∀ m, n ≤ m → ∀ t job : Nat, (x.state m).threads[t]? ≠ some (.running job) := by
    intro m hm t job hrunning
    obtain ⟨m', hm', hstill, haction⟩ := returns fair hrunning
    obtain ⟨value, -, hnext⟩ := endJob_step (x.step m') hstill haction
    exact hfinished (m' + 1) (by omega) t job hnext
  -- everybody sleeps, so by the invariant a poster is on its way to wake somebody
  have hasleep : ∀ m, n ≤ m → ∀ thread ∈ (x.state m).threads, thread = .waiting := by
    intro m hm thread hmem
    have hsound := run_sound (x.run m)
    obtain ⟨t, ht⟩ := List.getElem?_of_mem hmem
    cases thread with
    | ready => exact absurd ht (hready m hm t)
    | waiting => rfl
    | running job => exact absurd ht (hrunning m hm t job)
    | finished job => exact absurd ht (hfinished m hm t job)
    | exited => exact absurd (hsound.exited hmem).2 (hqueued m hm)
  have hpending : ∀ m, n ≤ m → 0 < (x.state m).notifications := by
    intro m hm
    rcases (run_sound (x.run m)).wake (hqueued m hm) with hpending | ⟨thread, hmem, hactive⟩
    · exact hpending
    · rw [hasleep m hm thread hmem] at hactive
      cases hactive
  obtain ⟨m, hm, haction⟩ := fair.notifyOne n hpending
  -- it wakes one of them, who then comes to the lock
  have hstep := x.step m
  rw [haction] at hstep
  have hwoken := hready (m + 1) (by omega)
  generalize x.state (m + 1) = s' at hstep hwoken
  generalize x.result m = event at hstep
  cases hstep with
  | notifyOne hpending hwaiting => exact hwoken _ (set_self hwaiting)
  | notifyNobody hpending hnobody =>
    obtain ⟨thread, hmem⟩ := List.exists_mem_of_ne_nil _ (run_sound (x.run m)).threads_ne_nil
    exact hnobody (hasleep m hm thread hmem ▸ hmem)

/-- The next time a thread takes a job. -/
theorem next_start (fair : Fair x) {n : Nat} (hjobs : (x.state n).jobs ≠ []) :
    ∃ m, n ≤ m ∧ (∃ job, x.result m = .started job) ∧
      ∀ i, n ≤ i → i < m → ∀ job, x.result i ≠ .started job := by
  classical
  have hsome : ∃ d job, x.result (n + d) = .started job := by
    obtain ⟨m, job, hm, hstarted⟩ := served fair hjobs
    exact ⟨m - n, job, by rwa [show n + (m - n) = m by omega]⟩
  refine ⟨n + Nat.find hsome, by omega, Nat.find_spec hsome, ?_⟩
  intro i hi hlt job hstarted
  refine Nat.find_min hsome (m := i - n) (by omega) ⟨job, ?_⟩
  rwa [show n + (i - n) = i by omega]

/-- Until then every queued job keeps its place. -/
theorem jobs_kept {n m k job : Nat} (hm : n ≤ m)
    (hnone : ∀ i, n ≤ i → i < m → ∀ job, x.result i ≠ .started job)
    (hplace : (x.state n).jobs[k]? = some job) : (x.state m).jobs[k]? = some job := by
  induction m, hm using Nat.le_induction with
  | base => exact hplace
  | succ m hm ih =>
    have hbefore := ih fun i hi hlt => hnone i hi (by omega)
    rcases step_jobs (x.step m) with ⟨more, hgrown⟩ | ⟨job', hstarted⟩
    · obtain ⟨hk, -⟩ := List.getElem?_eq_some_iff.mp hbefore
      rw [hgrown, List.getElem?_append_left hk]
      exact hbefore
    · exact absurd hstarted (hnone m hm (by omega) job')

/-- A queued job is started, whatever its place: by induction on the jobs in front. -/
theorem starts (fair : Fair x) {job : Nat} : ∀ (k n : Nat), (x.state n).jobs[k]? = some job →
    ∃ m t : Nat, n ≤ m ∧ x.result m = .started job ∧
      (x.state (m + 1)).threads[t]? = some (.running job) := by
  intro k
  induction k with
  | zero =>
    intro n hplace
    have hjobs : (x.state n).jobs ≠ [] := by
      intro hnil
      rw [hnil] at hplace
      cases hplace
    obtain ⟨m, hm, ⟨first, hstarted⟩, hnone⟩ := next_start fair hjobs
    have hfront := jobs_kept hm hnone hplace
    have hstep := x.step m
    rw [hstarted] at hstep
    obtain ⟨hcons, t, hrunning⟩ := step_shown hstep
    rw [hcons] at hfront
    obtain rfl : first = job := by simpa using hfront
    exact ⟨m, t, hm, hstarted, hrunning⟩
  | succ k ih =>
    intro n hplace
    have hjobs : (x.state n).jobs ≠ [] := by
      intro hnil
      rw [hnil] at hplace
      cases hplace
    obtain ⟨m, hm, ⟨first, hstarted⟩, hnone⟩ := next_start fair hjobs
    have hbehind := jobs_kept hm hnone hplace
    have hstep := x.step m
    rw [hstarted] at hstep
    obtain ⟨hcons, -⟩ := step_shown hstep
    -- one job fewer in front
    rw [hcons, List.getElem?_cons_succ] at hbehind
    obtain ⟨m', t, hm', hresult, hrunning⟩ := ih (m + 1) hbehind
    exact ⟨m', t, by omega, hresult, hrunning⟩

-- ---------------------------------------------------------------------------
-- What callers rely on
-- ---------------------------------------------------------------------------

/-- Once a handle has closed the queue it stays closed. -/
theorem closed_of_close {h : History T} {s : Pool T} (run : (pool T slots).Run h s) :
    (∃ e ∈ h, ∃ handle, e.action = .close handle) → s.isOpen = false := by
  refine run.history_induction
    (P := fun h s => (∃ e ∈ h, ∃ handle, e.action = .close handle) → s.isOpen = false) ?_ ?_
  · rintro s rfl ⟨e, he, -⟩
    cases he
  · rintro h s action event s' - ih hstep ⟨e, he, handle, hclose⟩
    rcases List.mem_append.mp he with hearlier | hlast
    · have hclosed := ih ⟨e, hearlier, handle, hclose⟩
      cases hstep with
      | post halive =>
        rcases post_cases s with ⟨-, hpost⟩ | ⟨hopen, -, -⟩ | ⟨hopen, -, -⟩
        · rw [hpost]
          exact hclosed
        · rw [hclosed] at hopen
          cases hopen
        · rw [hclosed] at hopen
          cases hopen
      | @turn thread hready =>
        rcases turn_cases s thread with ⟨job, rest, -, hturn⟩ | ⟨-, -, hturn⟩ | ⟨-, -, hturn⟩
        · rw [hturn]
          exact hclosed
        · rw [hturn]
          exact hclosed
        · rw [hturn]
          exact hclosed
      | close hclosing => rfl
      | _ => exact hclosed
    · rw [List.mem_singleton.mp hlast] at hclose
      obtain rfl : action = .close handle := hclose
      cases hstep with
      | close hclosing => rfl

/-- Between the end of a job and the decrement. -/
def Thread.isFinished : Thread → Bool
  | .finished _ => true
  | _ => false

/-- What a run of the pool guarantees. -/
structure Guarantee (slots : Nat) (h : History T) (s : Pool T) : Prop where
  /-- at most `slots` jobs run and at most `QUEUE_DEPTH` wait -/
  bounded : s.running.length ≤ max slots 1 ∧ s.jobs.length ≤ queueDepth
  /-- the jobs started are the jobs accepted, in the same order, up to those that wait -/
  inOrder : jobsOf acceptedJob h = jobsOf startedJob h ++ s.jobs
  /-- no job is accepted twice, so none is started twice -/
  once : (jobsOf acceptedJob h).Nodup
  /-- a started job runs in one thread, or has ended once -/
  runs : (jobsOf endedJob h ++ s.running).Perm (jobsOf startedJob h)
  /-- a refused job never runs -/
  refused : ∀ job ∈ jobsOf refusedJob h, job ∉ jobsOf startedJob h
  /-- after the close every job is refused as `Unavailable` -/
  closed : ∀ front e middle e' back handle, h = front ++ e :: middle ++ e' :: back →
    e.action = .close handle → e'.action = .post → ∃ job, e'.result = .refused job .Unavailable
  /-- so is one that is offered now, by whoever still has the pool -/
  shut : (∃ e ∈ h, ∃ handle, e.action = .close handle) →
    s.post = (.refused s.posted .Unavailable, { s with posted := s.posted + 1 })
  /-- the caller of `run` gets what its own job sent, or `Unavailable` if it panicked -/
  received : ∀ front e back job result, h = front ++ e :: back →
    e.result = .received job result →
      (∃ value, result = .ok value ∧ Told front job (some value)) ∨
        (result = .error .Unavailable ∧ Told front job none)
  /-- the counter does not wrap, and counts the jobs that wait or run, and those that
  finished and are still to be taken off -/
  counted : (∀ e ∈ h, ∀ thread, e.action = .decrement thread → 0 < e.before.depth) ∧
    s.depth = s.jobs.length + s.running.length + s.threads.countP Thread.isFinished

theorem countP_busy (threads : List Thread) :
    threads.countP Thread.busy =
      (threads.filterMap Thread.job).length + threads.countP Thread.isFinished := by
  induction threads with
  | nil => rfl
  | cons thread threads ih =>
    rw [List.countP_cons, List.countP_cons, List.filterMap_cons, ih]
    cases thread with
    | ready => rfl
    | waiting => rfl
    | running job =>
      simp only [Thread.busy, Thread.isFinished, Thread.job, List.length_cons]
      simp
      omega
    | finished job =>
      simp only [Thread.busy, Thread.isFinished, Thread.job]
      simp
      omega
    | exited => rfl

theorem run_guarantee {h : History T} {s : Pool T} (run : (pool T slots).Run h s) :
    Guarantee slots h s := by
  have sound := run_sound run
  have ledger := run_ledger run
  refine ⟨⟨?_, sound.bound⟩, ledger.order, ?_, ledger.running, ?_, ?_,
    fun hclose => if_pos (closed_of_close run hclose), ?_, ?_, ?_⟩
  · rw [← sound.width]
    exact List.length_filterMap_le _ _
  · exact (List.nodup_append.mp ledger.distinct).1
  · intro job hrefused hstarted
    have haccepted : job ∈ jobsOf acceptedJob h := by
      rw [ledger.order]
      exact List.mem_append_left _ hstarted
    exact (List.nodup_append.mp ledger.distinct).2.2 _ haccepted _ hrefused rfl
  · -- a post behind a close finds the pool closed, and is the first of `post_cases`
    rintro front e middle e' back handle rfl hclose hpost
    obtain ⟨run', hstep⟩ := run.split rfl
    have hclosed := closed_of_close run' ⟨e, by simp, handle, hclose⟩
    have hpostStep : Step e'.before e'.action e'.result e'.after := hstep
    rw [hpost] at hpostStep
    generalize e'.after = s' at hpostStep
    generalize e'.result = event at hpostStep ⊢
    cases hpostStep with
    | post halive =>
      rcases post_cases e'.before with ⟨-, hpost⟩ | ⟨hopen, -, -⟩ | ⟨hopen, -, -⟩
      · exact ⟨_, by rw [hpost]⟩
      · rw [hclosed] at hopen
        cases hopen
      · rw [hclosed] at hopen
        cases hopen
  · -- what comes through the channel is what the ledger says went in
    rintro front e back job result rfl hreceived
    obtain ⟨run', hstep⟩ := run.split rfl
    have hreceive : Step e.before e.action e.result e.after := hstep
    rw [hreceived] at hreceive
    obtain ⟨hvalue, hdropped⟩ := (run_ledger run').channels job
    have hresult := (step_shown hreceive).2
    cases hchannel : e.before.channels job with
    | empty =>
      rw [hchannel] at hresult
      cases hresult
    | sent value =>
      rw [hchannel] at hresult
      exact Or.inl ⟨value, (Option.some.inj hresult).symm, (hvalue value).mp hchannel⟩
    | dropped =>
      rw [hchannel] at hresult
      exact Or.inr ⟨(Option.some.inj hresult).symm, hdropped.mp hchannel⟩
  · intro e he thread hdecrement
    obtain ⟨front, back, rfl⟩ := List.append_of_mem he
    obtain ⟨run', hstep⟩ := run.split rfl
    have hdecrementStep : Step e.before e.action e.result e.after := hstep
    rw [hdecrement] at hdecrementStep
    generalize e.after = s' at hdecrementStep
    generalize e.result = event at hdecrementStep
    cases hdecrementStep with
    | decrement hfinished => exact depth_pos (run_sound run') hfinished
  · rw [sound.depth_eq, countP_busy]
    unfold Pool.running
    omega

/-- **What callers of the pool rely on**, for every width: every run of it keeps
`Guarantee`, and in a fair infinite run every accepted job is started and ends, and
from then on the caller of `run` can read its channel. -/
theorem pool_run (T : Type) (slots : Nat) :
    (∀ h s, (pool T slots).Run h s → Guarantee slots h s) ∧
    (∀ x : (pool T slots).Execution, Fair x → ∀ n job, x.result n = .accepted job →
      ∃ m k value, n < m ∧ m < k ∧ x.result m = .started job ∧ x.result k = .ended job value ∧
        ∀ i, k < i → ∃ result, ((x.state i).channels job).receive = some result) := by
  refine ⟨fun h s run => run_guarantee run, fun x fair n job haccepted => ?_⟩
  -- it is queued,
  have hstep := x.step n
  rw [haccepted] at hstep
  have hqueue : (x.state (n + 1)).jobs = (x.state n).jobs ++ [job] := step_shown hstep
  obtain ⟨k, hplace⟩ := List.getElem?_of_mem (show job ∈ (x.state (n + 1)).jobs by simp [hqueue])
  -- started,
  obtain ⟨m, t, hm, hstarted, hrunning⟩ := starts fair k (n + 1) hplace
  -- and ends
  obtain ⟨m', value, hm', hended⟩ := ends fair hrunning
  refine ⟨m, m', value, by omega, by omega, hstarted, hended, fun i hi => ?_⟩
  have htold : Told (x.history i) job value :=
    ⟨x.entry m', List.mem_map.mpr ⟨m', List.mem_range.mpr hi, rfl⟩, hended⟩
  obtain ⟨hvalue, hdropped⟩ := (run_ledger (x.run i)).channels job
  cases value with
  | some value =>
    rw [(hvalue value).mpr htold]
    exact ⟨_, rfl⟩
  | none =>
    rw [hdropped.mpr htold]
    exact ⟨_, rfl⟩

/-- The channels of the sample's two jobs: the first panicked, and then the second returned. -/
def panickedChannels : Nat → Channel Unit := Function.update (fun _ => .empty) 0 .dropped
def sampleChannels : Nat → Channel Unit := Function.update panickedChannels 1 (.sent ())

/-- A pool of two threads and two jobs: posted and run at once, and then nothing more. -/
def sampleState : Nat → Pool Unit
  | 0 => spawn Unit 2
  | 1 => ⟨[0], true, 1, [.ready, .ready], 1, [.alive], 1, fun _ => .empty⟩
  | 2 => ⟨[0, 1], true, 2, [.ready, .ready], 2, [.alive], 2, fun _ => .empty⟩
  | 3 => ⟨[1], true, 2, [.running 0, .ready], 2, [.alive], 2, fun _ => .empty⟩
  | 4 => ⟨[], true, 2, [.running 0, .running 1], 2, [.alive], 2, fun _ => .empty⟩
  | 5 => ⟨[], true, 2, [.running 0, .running 1], 1, [.alive], 2, fun _ => .empty⟩
  | 6 => ⟨[], true, 2, [.running 0, .running 1], 0, [.alive], 2, fun _ => .empty⟩
  | 7 => ⟨[], true, 2, [.finished 0, .running 1], 0, [.alive], 2, panickedChannels⟩
  | 8 => ⟨[], true, 2, [.finished 0, .finished 1], 0, [.alive], 2, sampleChannels⟩
  | 9 => ⟨[], true, 1, [.ready, .finished 1], 0, [.alive], 2, sampleChannels⟩
  | 10 => ⟨[], true, 0, [.ready, .ready], 0, [.alive], 2, sampleChannels⟩
  | 11 => ⟨[], true, 0, [.waiting, .ready], 0, [.alive], 2, sampleChannels⟩
  | _ => ⟨[], true, 0, [.waiting, .waiting], 0, [.alive], 2, sampleChannels⟩

def sampleAction : Nat → Action Unit
  | 0 | 1 => .post
  | 2 => .turn 0
  | 3 => .turn 1
  | 4 | 5 => .notifyOne
  | 6 => .unwind 0
  | 7 => .complete 1 ()
  | 8 => .decrement 0
  | 9 => .decrement 1
  | 10 => .turn 0
  | 11 => .turn 1
  | _ => .idle

def sampleEvent : Nat → Event Unit
  | 0 => .accepted 0
  | 1 => .accepted 1
  | 2 => .started 0
  | 3 => .started 1
  | 6 => .ended 0 none
  | 7 => .ended 1 (some ())
  | _ => .silent

def sampleExecution : (pool Unit 2).Execution where
  state := sampleState
  action := sampleAction
  result := sampleEvent
  start := rfl
  step
    | 0 => Step.post (s := spawn Unit 2) (by decide)
    | 1 => Step.post (s := sampleState 1) (by decide)
    | 2 => Step.turn (s := sampleState 2) rfl
    | 3 => Step.turn (s := sampleState 3) rfl
    | 4 => Step.notifyNobody (s := sampleState 4) (by decide) (by decide)
    | 5 => Step.notifyNobody (s := sampleState 5) (by decide) (by decide)
    | 6 => Step.unwind (s := sampleState 6) rfl
    | 7 => Step.complete (s := sampleState 7) rfl
    | 8 => Step.decrement (s := sampleState 8) rfl
    | 9 => Step.decrement (s := sampleState 9) rfl
    | 10 => Step.turn (s := sampleState 10) rfl
    | 11 => Step.turn (s := sampleState 11) rfl
    | _ + 12 => Step.idle

theorem sampleExecution_fair : Fair sampleExecution := by
  -- from the twelfth step on the threads sleep and nobody is to wake them
  have hthread : ∀ (n t : Nat) (thread : Thread), thread ≠ .waiting →
      (sampleExecution.state (n + 12)).threads[t]? ≠ some thread := by
    intro n t thread hawake hthread
    have hmem : thread ∈ [Thread.waiting, Thread.waiting] := List.mem_of_getElem? hthread
    exact hawake (by simpa using hmem)
  refine ⟨fun t => ?_, fun t job => ?_, fun t job => ?_, ?_⟩
  · exact .of_disabled fun n => ⟨n + 12, by omega, hthread n t _ (by simp)⟩
  · exact .of_disabled fun n => ⟨n + 12, by omega, hthread n t _ (by simp)⟩
  · exact .of_disabled fun n => ⟨n + 12, by omega, hthread n t _ (by simp)⟩
  · exact .of_disabled fun n => ⟨n + 12, by omega, Nat.lt_irrefl 0⟩

/-- Both jobs of the sample run are started and end, the one that panics too. -/
theorem pool_run_sample : Fair sampleExecution ∧
    Guarantee 2 (sampleExecution.history 12) (sampleExecution.state 12) ∧
    ∀ job < 2, ∃ m k value, job < m ∧ m < k ∧ sampleExecution.result m = .started job ∧
      sampleExecution.result k = .ended job value := by
  obtain ⟨hkept, hlive⟩ := pool_run Unit 2
  have haccepted : ∀ job < 2, sampleExecution.result job = .accepted job := fun
    | 0, _ => rfl
    | 1, _ => rfl
  refine ⟨sampleExecution_fair, hkept _ _ (sampleExecution.run 12), fun job hjob => ?_⟩
  obtain ⟨m, k, value, hm, hk, hstarted, hended, -⟩ :=
    hlive sampleExecution sampleExecution_fair job job (haccepted job hjob)
  exact ⟨m, k, value, hm, hk, hstarted, hended⟩

end CamelidEnterprise.Worker
