import CamelidEnterprise.Server.Pool
import Mathlib.Data.List.Perm.Basic

/-!
# Camelid Enterprise — what the worker pool keeps

Two invariants, whatever the interleaving. `Sound` is about the pool alone: the
bounds, the counter, and that a queued job has somebody who will look at the queue
— a thread that is not asleep, or a poster that has yet to wake one. `Ledger` ties
the pool to what happened: the jobs accepted are the jobs started, in that order,
followed by those still queued, and a job that was started is in one thread or has
ended once.

* `step_sound`, `step_ledger` — one step;
* `run_sound`, `run_ledger` — every run.
-/

namespace CamelidEnterprise.Worker

open Foundation

variable {T : Type}

-- ---------------------------------------------------------------------------
-- Threads
-- ---------------------------------------------------------------------------

/-- Counted by the depth counter. -/
def Thread.busy : Thread → Bool
  | .running _ => true
  | .finished _ => true
  | _ => false

/-- Not asleep and not gone: it will look at the queue again. -/
def Thread.active : Thread → Bool
  | .ready => true
  | .running _ => true
  | .finished _ => true
  | _ => false

/-- The job a thread is inside. -/
def Thread.job : Thread → Option Nat
  | .running job => some job
  | _ => none

/-- The jobs that run. -/
def Pool.running (s : Pool T) : List Nat := s.threads.filterMap Thread.job

@[simp] theorem awake_busy (thread : Thread) : thread.awake.busy = thread.busy := by
  cases thread with
  | ready => rfl
  | waiting => rfl
  | running job => rfl
  | finished job => rfl
  | exited => rfl

@[simp] theorem awake_job (thread : Thread) : thread.awake.job = thread.job := by
  cases thread with
  | ready => rfl
  | waiting => rfl
  | running job => rfl
  | finished job => rfl
  | exited => rfl

theorem awake_active {thread : Thread} (h : thread.active = true) : thread.awake = thread := by
  cases thread with
  | ready => rfl
  | waiting => cases h
  | running job => rfl
  | finished job => rfl
  | exited => cases h

@[simp] theorem awake_eq_exited {thread : Thread} : thread.awake = .exited ↔ thread = .exited := by
  cases thread with
  | ready => simp [Thread.awake]
  | waiting => simp [Thread.awake]
  | running job => simp [Thread.awake]
  | finished job => simp [Thread.awake]
  | exited => simp [Thread.awake]

-- ---------------------------------------------------------------------------
-- The pool alone
-- ---------------------------------------------------------------------------

/-- What holds of a pool at any time. -/
structure Sound (slots : Nat) (s : Pool T) : Prop where
  width : s.threads.length = max slots 1
  bound : s.jobs.length ≤ queueDepth
  depth_eq : s.depth = s.jobs.length + s.threads.countP Thread.busy
  wake : s.jobs ≠ [] → 0 < s.notifications ∨ ∃ thread ∈ s.threads, thread.active = true
  exited : .exited ∈ s.threads → s.isOpen = false ∧ s.jobs = []

theorem Sound.threads_ne_nil {slots : Nat} {s : Pool T} (sound : Sound slots s) :
    s.threads ≠ [] := by
  intro hnil
  have hwidth := sound.width
  rw [hnil, List.length_nil] at hwidth
  omega

theorem spawn_sound (slots : Nat) : Sound slots (spawn T slots) where
  width := by simp [spawn]
  bound := by simp [spawn]
  depth_eq := by simp [spawn, List.countP_replicate, Thread.busy]
  wake := by simp [spawn]
  exited := by simp [spawn, List.mem_replicate]

/-- What `post` can do: refuse after the close, refuse when the queue is full, or
put the job in. -/
theorem post_cases (s : Pool T) :
    (s.isOpen = false ∧
      s.post = (.refused s.posted .Unavailable, { s with posted := s.posted + 1 })) ∨
    (s.isOpen = true ∧ queueDepth ≤ s.jobs.length ∧
      s.post = (.refused s.posted .Full, { s with posted := s.posted + 1 })) ∨
    (s.isOpen = true ∧ s.jobs.length < queueDepth ∧
      s.post = (.accepted s.posted,
        { s with
          jobs := s.jobs ++ [s.posted]
          depth := s.depth + 1
          notifications := s.notifications + 1
          posted := s.posted + 1 })) := by
  unfold Pool.post
  cases hopen : s.isOpen with
  | false => exact Or.inl ⟨rfl, if_pos rfl⟩
  | true =>
    rw [if_neg (by simp)]
    by_cases hfull : queueDepth ≤ s.jobs.length
    · exact Or.inr (Or.inl ⟨rfl, hfull, if_pos hfull⟩)
    · exact Or.inr (Or.inr ⟨rfl, Nat.lt_of_not_le hfull, if_neg hfull⟩)

/-- What a thread with the lock can do: take the first job, return, or sleep. -/
theorem turn_cases (s : Pool T) (thread : Nat) :
    (∃ job rest, s.jobs = job :: rest ∧
      s.turn thread = (.started job,
        { s with jobs := rest, threads := s.threads.set thread (.running job) })) ∨
    (s.jobs = [] ∧ s.isOpen = false ∧
      s.turn thread = (.silent, { s with threads := s.threads.set thread .exited })) ∨
    (s.jobs = [] ∧ s.isOpen = true ∧
      s.turn thread = (.silent, { s with threads := s.threads.set thread .waiting })) := by
  unfold Pool.turn
  cases hjobs : s.jobs with
  | cons job rest => exact Or.inl ⟨job, rest, rfl, rfl⟩
  | nil =>
    cases hopen : s.isOpen with
    | false => exact Or.inr (Or.inl ⟨rfl, rfl, by simp [← hjobs]⟩)
    | true => exact Or.inr (Or.inr ⟨rfl, rfl, by simp [← hjobs]⟩)

theorem sound_post {slots : Nat} {s : Pool T} (sound : Sound slots s) : Sound slots s.post.2 := by
  rcases post_cases s with ⟨-, hpost⟩ | ⟨-, -, hpost⟩ | ⟨hopen, hroom, hpost⟩
  · rw [hpost]
    exact ⟨sound.width, sound.bound, sound.depth_eq, sound.wake, sound.exited⟩
  · rw [hpost]
    exact ⟨sound.width, sound.bound, sound.depth_eq, sound.wake, sound.exited⟩
  · rw [hpost]
    refine ⟨sound.width, ?_, ?_, ?_, ?_⟩
    · show (s.jobs ++ [s.posted]).length ≤ queueDepth
      rw [List.length_append, List.length_singleton]
      omega
    · have hdepth := sound.depth_eq
      show s.depth + 1 = (s.jobs ++ [s.posted]).length + s.threads.countP Thread.busy
      rw [List.length_append, List.length_singleton]
      omega
    · intro _
      -- the poster itself is on its way to `notify_one`
      left
      show 0 < s.notifications + 1
      omega
    · intro hexited
      have hclosed := (sound.exited hexited).1
      rw [hopen] at hclosed
      cases hclosed

theorem sound_turn {slots : Nat} {s : Pool T} {thread : Nat} (sound : Sound slots s)
    (hready : s.threads[thread]? = some .ready) : Sound slots (s.turn thread).2 := by
  obtain ⟨front, back, hthreads, hset⟩ := set_split hready
  have hwidth := sound.width
  have hdepth := sound.depth_eq
  have hexited := sound.exited
  rw [hthreads] at hwidth hdepth hexited
  rcases turn_cases s thread with ⟨job, rest, hjobs, hturn⟩ | ⟨hjobs, hclosed, hturn⟩ |
    ⟨hjobs, hopen, hturn⟩
  · rw [hturn, hset]
    have hbound := sound.bound
    rw [hjobs] at hbound hdepth hexited
    rw [List.length_cons] at hbound hdepth
    refine ⟨by simpa using hwidth, ?_, ?_, ?_, ?_⟩
    · show rest.length ≤ queueDepth
      omega
    · simp only [List.countP_append, List.countP_cons, Thread.busy] at hdepth ⊢
      simp at hdepth ⊢
      omega
    · intro _
      exact Or.inr ⟨.running job, by simp, rfl⟩
    · intro hmem
      exact absurd (hexited (by simpa using hmem)).2 (by simp)
  · rw [hturn, hset]
    refine ⟨by simpa using hwidth, sound.bound, ?_, ?_, fun _ => ⟨hclosed, hjobs⟩⟩
    · simpa [Thread.busy] using hdepth
    · intro hne
      exact absurd hjobs hne
  · rw [hturn, hset]
    refine ⟨by simpa using hwidth, sound.bound, ?_, ?_, ?_⟩
    · simpa [Thread.busy] using hdepth
    · intro hne
      exact absurd hjobs hne
    · intro hmem
      exact hexited (by simpa using hmem)

/-- A step that moves one thread from `old` to `new`, neither of which has left, and
leaves the queue alone. -/
theorem sound_move {slots : Nat} {s s' : Pool T} {thread : Nat} {old new : Thread}
    (sound : Sound slots s) (hold : s.threads[thread]? = some old)
    (hthreads : s'.threads = s.threads.set thread new) (hjobs : s'.jobs = s.jobs)
    (hopen : s'.isOpen = s.isOpen)
    (hdepth : s'.depth + (if old.busy then 1 else 0) = s.depth + if new.busy then 1 else 0)
    (hactive : new.active = true) :
    Sound slots s' := by
  obtain ⟨front, back, hsplit, hset⟩ := set_split hold
  have hwidth := sound.width
  have hcount := sound.depth_eq
  rw [hsplit] at hwidth hcount
  rw [hset] at hthreads
  refine ⟨?_, ?_, ?_, ?_, ?_⟩
  · rw [hthreads]
    simpa using hwidth
  · rw [hjobs]
    exact sound.bound
  · rw [hthreads, hjobs]
    simp only [List.countP_append, List.countP_cons] at hcount ⊢
    omega
  · intro _
    exact Or.inr ⟨new, by simp [hthreads], hactive⟩
  · intro hmem
    rw [hopen, hjobs]
    apply sound.exited
    rw [hsplit]
    rw [hthreads] at hmem
    have hnew : Thread.exited ≠ new := by
      rintro rfl
      cases hactive
    simp only [List.mem_append, List.mem_cons, hnew, false_or] at hmem ⊢
    rcases hmem with hmem | hmem
    · exact Or.inl hmem
    · exact Or.inr (Or.inr hmem)

/-- A finished job is still counted, so the counter cannot wrap when it goes. -/
theorem depth_pos {slots : Nat} {s : Pool T} (sound : Sound slots s) {thread job : Nat}
    (hfinished : s.threads[thread]? = some (.finished job)) : 0 < s.depth := by
  have hbusy : 0 < s.threads.countP Thread.busy :=
    List.countP_pos_iff.mpr ⟨.finished job, List.mem_of_getElem? hfinished, rfl⟩
  have hdepth := sound.depth_eq
  omega

theorem step_sound {slots : Nat} {s s' : Pool T} {action : Action T} {event : Event T}
    (sound : Sound slots s) (hstep : Step s action event s') : Sound slots s' := by
  cases hstep with
  | post halive => exact sound_post sound
  | notifyOne hpending hwaiting =>
    exact sound_move sound hwaiting rfl rfl rfl rfl rfl
  | notifyNobody hpending hnobody =>
    refine ⟨sound.width, sound.bound, sound.depth_eq, ?_, sound.exited⟩
    intro hjobs
    -- nobody sleeps and nobody has left, so everybody is active
    right
    obtain ⟨thread, hmem⟩ := List.exists_mem_of_ne_nil _ sound.threads_ne_nil
    refine ⟨thread, hmem, ?_⟩
    cases thread with
    | ready => rfl
    | waiting => exact absurd hmem hnobody
    | running job => rfl
    | finished job => rfl
    | exited => exact absurd (sound.exited hmem).2 hjobs
  | wake hwaiting => exact sound_move sound hwaiting rfl rfl rfl rfl rfl
  | turn hready => exact sound_turn sound hready
  | complete hrunning => exact sound_move sound hrunning rfl rfl rfl rfl rfl
  | unwind hrunning => exact sound_move sound hrunning rfl rfl rfl rfl rfl
  | decrement hfinished =>
    refine sound_move sound hfinished rfl rfl rfl ?_ rfl
    have hpos := depth_pos sound hfinished
    show fetchSub s.depth + 1 = s.depth + 0
    unfold fetchSub
    rw [if_neg (by omega)]
    omega
  | receive hthrough => exact sound
  | cloneHandle halive => exact ⟨sound.width, sound.bound, sound.depth_eq, sound.wake, sound.exited⟩
  | readShared halive hshared =>
    exact ⟨sound.width, sound.bound, sound.depth_eq, sound.wake, sound.exited⟩
  | readLast halive hlast =>
    exact ⟨sound.width, sound.bound, sound.depth_eq, sound.wake, sound.exited⟩
  | close hclosing =>
    exact ⟨sound.width, sound.bound, sound.depth_eq, sound.wake,
      fun hmem => ⟨rfl, (sound.exited hmem).2⟩⟩
  | notifyAll hnotifying =>
    refine ⟨?_, sound.bound, ?_, ?_, ?_⟩
    · show (s.threads.map Thread.awake).length = _
      rw [List.length_map]
      exact sound.width
    · show s.depth = s.jobs.length + (s.threads.map Thread.awake).countP Thread.busy
      have hbusy : Thread.busy ∘ Thread.awake = Thread.busy := funext awake_busy
      rw [List.countP_map, hbusy]
      exact sound.depth_eq
    · intro hjobs
      rcases sound.wake hjobs with hpending | ⟨thread, hmem, hactive⟩
      · exact Or.inl hpending
      · refine Or.inr ⟨thread, List.mem_map.mpr ⟨thread, hmem, awake_active hactive⟩, hactive⟩
    · intro hmem
      obtain ⟨thread, hthread, hexited⟩ := List.mem_map.mp hmem
      rw [awake_eq_exited.mp hexited] at hthread
      exact sound.exited hthread
  | release hreleasing =>
    exact ⟨sound.width, sound.bound, sound.depth_eq, sound.wake, sound.exited⟩
  | idle => exact sound

theorem run_sound {slots : Nat} {h : List (Entry (Pool T) (Action T) (Event T))} {s : Pool T}
    (run : (pool T slots).Run h s) : Sound slots s := by
  refine run.invariant (I := Sound slots) ?_ ?_
  · rintro s rfl
    exact spawn_sound slots
  · intro s action event s' sound hstep
    exact step_sound sound hstep

-- ---------------------------------------------------------------------------
-- The pool and what happened
-- ---------------------------------------------------------------------------

/-- The jobs a history accepted, in order. -/
def acceptedJob : Event T → Option Nat
  | .accepted job => some job
  | _ => none

/-- The jobs it refused. -/
def refusedJob : Event T → Option Nat
  | .refused job _ => some job
  | _ => none

/-- The jobs a thread took from the queue. -/
def startedJob : Event T → Option Nat
  | .started job => some job
  | _ => none

/-- The jobs that returned or panicked. -/
def endedJob : Event T → Option Nat
  | .ended job _ => some job
  | _ => none

/-- A history of the pool. -/
abbrev History (T : Type) := List (Entry (Pool T) (Action T) (Event T))

/-- The jobs some kind of event was about, in order. -/
def jobsOf (kind : Event T → Option Nat) (h : History T) : List Nat :=
  h.filterMap fun e => kind e.result

theorem jobsOf_snoc (kind : Event T → Option Nat) (h : History T)
    (e : Entry (Pool T) (Action T) (Event T)) :
    jobsOf kind (h ++ [e]) = jobsOf kind h ++ (kind e.result).toList := by
  unfold jobsOf
  rw [List.filterMap_append]
  cases hkind : kind e.result with
  | none => simp [hkind]
  | some job => simp [hkind]

/-- The job sent this value, or none. -/
def Told (h : History T) (job : Nat) (value : Option T) : Prop :=
  ∃ e ∈ h, e.result = .ended job value

theorem told_snoc {h : History T} {e : Entry (Pool T) (Action T) (Event T)} {job : Nat}
    {value : Option T} :
    Told (h ++ [e]) job value ↔ Told h job value ∨ e.result = .ended job value := by
  unfold Told
  simp only [List.mem_append, List.mem_singleton]
  constructor
  · rintro ⟨e', he' | rfl, hresult⟩
    · exact Or.inl ⟨e', he', hresult⟩
    · exact Or.inr hresult
  · rintro (⟨e', he', hresult⟩ | hresult)
    · exact ⟨e', Or.inl he', hresult⟩
    · exact ⟨e, Or.inr rfl, hresult⟩

theorem Told.mem_ended {h : History T} {job : Nat} {value : Option T} (htold : Told h job value) :
    job ∈ jobsOf endedJob h := by
  obtain ⟨e, he, hresult⟩ := htold
  exact List.mem_filterMap.mpr ⟨e, he, by rw [hresult]; rfl⟩

/-- How the pool and its history agree. -/
structure Ledger (h : History T) (s : Pool T) : Prop where
  order : jobsOf acceptedJob h = jobsOf startedJob h ++ s.jobs
  running : (jobsOf endedJob h ++ s.running).Perm (jobsOf startedJob h)
  distinct : (jobsOf acceptedJob h ++ jobsOf refusedJob h).Nodup
  fresh : ∀ job ∈ jobsOf acceptedJob h ++ jobsOf refusedJob h, job < s.posted
  channels : ∀ job, (∀ value, s.channels job = .sent value ↔ Told h job (some value)) ∧
    (s.channels job = .dropped ↔ Told h job none)

theorem spawn_ledger (slots : Nat) : Ledger [] (spawn T slots) where
  order := rfl
  running := by simp [jobsOf, Pool.running, spawn, List.filterMap_replicate, Thread.job]
  distinct := List.nodup_nil
  fresh := by simp [jobsOf]
  channels job := by simp [spawn, Told]

/-- A step that is about no job and moves no job between threads. -/
theorem ledger_quiet {h : History T} {s s' : Pool T} {action : Action T} {event : Event T}
    (ledger : Ledger h s) (haccepted : acceptedJob event = none)
    (hrefused : refusedJob event = none) (hstarted : startedJob event = none)
    (hended : endedJob event = none) (hjobs : s'.jobs = s.jobs)
    (hrunning : s'.running = s.running) (hposted : s'.posted = s.posted)
    (hchannels : s'.channels = s.channels) : Ledger (h ++ [⟨s, action, event, s'⟩]) s' := by
  have htold : ∀ job value, Told (h ++ [⟨s, action, event, s'⟩]) job value ↔ Told h job value := by
    intro job value
    rw [told_snoc, or_iff_left]
    rintro rfl
    cases hended
  refine ⟨?_, ?_, ?_, ?_, ?_⟩
  · simpa [jobsOf_snoc, haccepted, hstarted, hjobs] using ledger.order
  · simpa [jobsOf_snoc, hended, hstarted, hrunning] using ledger.running
  · simpa [jobsOf_snoc, haccepted, hrefused] using ledger.distinct
  · simpa [jobsOf_snoc, haccepted, hrefused, hposted] using ledger.fresh
  · intro job
    simpa [htold, hchannels] using ledger.channels job

/-- Moving a thread between two states that hold no job. -/
theorem running_set {s s' : Pool T} {thread : Nat} {old new : Thread}
    (hold : s.threads[thread]? = some old) (hthreads : s'.threads = s.threads.set thread new)
    (hjob : old.job = none) (hjob' : new.job = none) : s'.running = s.running := by
  obtain ⟨front, back, hsplit, hset⟩ := set_split hold
  unfold Pool.running
  rw [hthreads, hset, hsplit]
  simp [hjob, hjob']

theorem ledger_post {h : History T} {s : Pool T} (ledger : Ledger h s) :
    Ledger (h ++ [⟨s, .post, s.post.1, s.post.2⟩]) s.post.2 := by
  -- the number of the new job is larger than all before it
  have hnew : s.posted ∉ jobsOf acceptedJob h ++ jobsOf refusedJob h := fun hmem =>
    Nat.lt_irrefl _ (ledger.fresh _ hmem)
  have hmem : ∀ job, job ∈ jobsOf acceptedJob h ++ jobsOf refusedJob h → job < s.posted + 1 :=
    fun job hjob => Nat.lt_succ_of_lt (ledger.fresh job hjob)
  have hrefuse : ∀ error, Ledger
      (h ++ [⟨s, .post, .refused s.posted error, { s with posted := s.posted + 1 }⟩])
      { s with posted := s.posted + 1 } := by
    intro error
    refine ⟨?_, ?_, ?_, ?_, ?_⟩
    · simpa [jobsOf_snoc, acceptedJob, startedJob] using ledger.order
    · simpa [jobsOf_snoc, endedJob, startedJob, Pool.running] using ledger.running
    · simp only [jobsOf_snoc, acceptedJob, refusedJob, Option.toList_none, Option.toList_some,
        List.append_nil]
      rw [← List.append_assoc]
      exact (List.perm_append_singleton _ _).nodup_iff.mpr
        (List.nodup_cons.mpr ⟨hnew, ledger.distinct⟩)
    · intro job hjob
      simp only [jobsOf_snoc, acceptedJob, refusedJob, Option.toList_none, Option.toList_some,
        List.append_nil] at hjob
      rw [← List.append_assoc, List.mem_append, List.mem_singleton] at hjob
      rcases hjob with hjob | rfl
      · exact hmem job hjob
      · exact Nat.lt_succ_self _
    · intro job
      simpa [told_snoc] using ledger.channels job
  rcases post_cases s with ⟨-, hpost⟩ | ⟨-, -, hpost⟩ | ⟨-, -, hpost⟩
  · rw [hpost]
    exact hrefuse _
  · rw [hpost]
    exact hrefuse _
  · rw [hpost]
    have hperm : (jobsOf acceptedJob h ++ [s.posted] ++ jobsOf refusedJob h).Perm
        (s.posted :: (jobsOf acceptedJob h ++ jobsOf refusedJob h)) := by
      rw [List.append_assoc]
      exact List.perm_middle
    refine ⟨?_, ?_, ?_, ?_, ?_⟩
    · simp [jobsOf_snoc, acceptedJob, startedJob, ledger.order]
    · simpa [jobsOf_snoc, endedJob, startedJob, Pool.running] using ledger.running
    · simp only [jobsOf_snoc, acceptedJob, refusedJob, Option.toList_none, Option.toList_some,
        List.append_nil]
      exact hperm.nodup_iff.mpr (List.nodup_cons.mpr ⟨hnew, ledger.distinct⟩)
    · intro job hjob
      simp only [jobsOf_snoc, acceptedJob, refusedJob, Option.toList_none, Option.toList_some,
        List.append_nil] at hjob
      rcases List.mem_cons.mp (hperm.mem_iff.mp hjob) with rfl | hjob
      · exact Nat.lt_succ_self _
      · exact hmem job hjob
    · intro job
      simpa [told_snoc] using ledger.channels job

theorem ledger_turn {h : History T} {s : Pool T} {thread : Nat} (ledger : Ledger h s)
    (hready : s.threads[thread]? = some .ready) :
    Ledger (h ++ [⟨s, .turn thread, (s.turn thread).1, (s.turn thread).2⟩]) (s.turn thread).2 := by
  rcases turn_cases s thread with ⟨job, rest, hjobs, hturn⟩ | ⟨-, -, hturn⟩ | ⟨-, -, hturn⟩
  · rw [hturn]
    obtain ⟨front, back, hsplit, hset⟩ := set_split hready
    have horder := ledger.order
    have hrunning := ledger.running
    unfold Pool.running at hrunning
    rw [hsplit] at hrunning
    refine ⟨?_, ?_, ?_, ?_, ?_⟩
    · simpa [jobsOf_snoc, acceptedJob, startedJob, hjobs] using horder
    · -- the first job of the queue is now inside the thread
      simp only [jobsOf_snoc, endedJob, startedJob, Option.toList_none, Option.toList_some,
        List.append_nil, Pool.running, hset, List.filterMap_append, List.filterMap_cons,
        Thread.job] at hrunning ⊢
      have hmiddle := @List.perm_middle _ job (jobsOf endedJob h ++ front.filterMap Thread.job)
        (back.filterMap Thread.job)
      rw [List.append_assoc, List.append_assoc] at hmiddle
      calc jobsOf endedJob h ++ (front.filterMap Thread.job ++ job :: back.filterMap Thread.job)
          |>.Perm (job :: (jobsOf endedJob h ++ (front.filterMap Thread.job ++
            back.filterMap Thread.job))) := hmiddle
        _ |>.Perm (job :: jobsOf startedJob h) := hrunning.cons job
        _ |>.Perm (jobsOf startedJob h ++ [job]) := (List.perm_append_singleton _ _).symm
    · simpa [jobsOf_snoc, acceptedJob, refusedJob] using ledger.distinct
    · simpa [jobsOf_snoc, acceptedJob, refusedJob] using ledger.fresh
    · intro job'
      simpa [told_snoc] using ledger.channels job'
  · rw [hturn]
    exact ledger_quiet ledger rfl rfl rfl rfl rfl (running_set hready rfl rfl rfl) rfl rfl
  · rw [hturn]
    exact ledger_quiet ledger rfl rfl rfl rfl rfl (running_set hready rfl rfl rfl) rfl rfl

/-- A job is accepted once, so it is started once. -/
theorem Ledger.started_nodup {h : History T} {s : Pool T} (ledger : Ledger h s) :
    (jobsOf startedJob h).Nodup := by
  have hdistinct := (List.nodup_append.mp ledger.distinct).1
  rw [ledger.order] at hdistinct
  exact (List.nodup_append.mp hdistinct).1

/-- A job that runs has not ended. -/
theorem Ledger.not_ended {h : History T} {s : Pool T} (ledger : Ledger h s) {thread job : Nat}
    (hrunning : s.threads[thread]? = some (.running job)) : job ∉ jobsOf endedJob h := by
  have hnodup := ledger.running.nodup_iff.mpr ledger.started_nodup
  have hmem : job ∈ s.running :=
    List.mem_filterMap.mpr ⟨.running job, List.mem_of_getElem? hrunning, rfl⟩
  intro hended
  exact (List.nodup_append.mp hnodup).2.2 _ hended _ hmem rfl

theorem ledger_endJob {h : History T} {s : Pool T} {thread job : Nat} {action : Action T}
    {value : Option T} (ledger : Ledger h s)
    (hrunning : s.threads[thread]? = some (.running job)) :
    Ledger (h ++ [⟨s, action, .ended job value, s.endJob thread job value⟩])
      (s.endJob thread job value) := by
  obtain ⟨front, back, hsplit, hset⟩ := set_split hrunning
  have hnot := ledger.not_ended hrunning
  have hperm := ledger.running
  unfold Pool.running at hperm
  rw [hsplit] at hperm
  refine ⟨?_, ?_, ?_, ?_, ?_⟩
  · simpa [jobsOf_snoc, acceptedJob, startedJob, Pool.endJob] using ledger.order
  · simp only [jobsOf_snoc, endedJob, startedJob, Option.toList_none, Option.toList_some,
      List.append_nil, Pool.running, Pool.endJob, hset, List.filterMap_append, List.filterMap_cons,
      Thread.job] at hperm ⊢
    rw [List.append_assoc]
    refine List.Perm.trans (List.Perm.append_left _ ?_) hperm
    show (job :: (front.filterMap Thread.job ++ back.filterMap Thread.job)).Perm _
    exact List.perm_middle.symm
  · simpa [jobsOf_snoc, acceptedJob, refusedJob] using ledger.distinct
  · simpa [jobsOf_snoc, acceptedJob, refusedJob, Pool.endJob] using ledger.fresh
  · intro job'
    simp only [told_snoc, Pool.endJob, Function.update_apply, Event.ended.injEq]
    by_cases hjob : job' = job
    · -- the first and only word of this job
      subst hjob
      have huntold : ∀ value', ¬Told h job' value' := fun value' htold => hnot htold.mem_ended
      cases value with
      | some value => simp [huntold]
      | none => simp [huntold]
    · simpa [hjob, Ne.symm hjob] using ledger.channels job'

theorem step_ledger {h : History T} {s s' : Pool T} {action : Action T} {event : Event T}
    (ledger : Ledger h s) (hstep : Step s action event s') :
    Ledger (h ++ [⟨s, action, event, s'⟩]) s' := by
  cases hstep with
  | post halive => exact ledger_post ledger
  | notifyOne hpending hwaiting =>
    exact ledger_quiet ledger rfl rfl rfl rfl rfl (running_set hwaiting rfl rfl rfl) rfl rfl
  | notifyNobody hpending hnobody => exact ledger_quiet ledger rfl rfl rfl rfl rfl rfl rfl rfl
  | wake hwaiting =>
    exact ledger_quiet ledger rfl rfl rfl rfl rfl (running_set hwaiting rfl rfl rfl) rfl rfl
  | turn hready => exact ledger_turn ledger hready
  | complete hrunning => exact ledger_endJob ledger hrunning
  | unwind hrunning => exact ledger_endJob ledger hrunning
  | decrement hfinished =>
    exact ledger_quiet ledger rfl rfl rfl rfl rfl (running_set hfinished rfl rfl rfl) rfl rfl
  | receive hthrough => exact ledger_quiet ledger rfl rfl rfl rfl rfl rfl rfl rfl
  | cloneHandle halive => exact ledger_quiet ledger rfl rfl rfl rfl rfl rfl rfl rfl
  | readShared halive hshared => exact ledger_quiet ledger rfl rfl rfl rfl rfl rfl rfl rfl
  | readLast halive hlast => exact ledger_quiet ledger rfl rfl rfl rfl rfl rfl rfl rfl
  | close hclosing => exact ledger_quiet ledger rfl rfl rfl rfl rfl rfl rfl rfl
  | notifyAll hnotifying =>
    refine ledger_quiet ledger rfl rfl rfl rfl rfl ?_ rfl rfl
    show (s.threads.map Thread.awake).filterMap Thread.job = s.threads.filterMap Thread.job
    have hjob : Thread.job ∘ Thread.awake = Thread.job := funext awake_job
    rw [List.filterMap_map, hjob]
  | release hreleasing => exact ledger_quiet ledger rfl rfl rfl rfl rfl rfl rfl rfl
  | idle => exact ledger_quiet ledger rfl rfl rfl rfl rfl rfl rfl rfl

theorem run_ledger {slots : Nat} {h : History T} {s : Pool T} (run : (pool T slots).Run h s) :
    Ledger h s := by
  refine run.history_induction (P := Ledger) ?_ ?_
  · rintro s rfl
    exact spawn_ledger slots
  · intro h s action event s' _ ledger hstep
    exact step_ledger ledger hstep

end CamelidEnterprise.Worker
