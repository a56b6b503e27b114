import CamelidEnterprise.Server.PoolRun

/-!
# Camelid Enterprise — what a refusal says about the load

`QUEUE_DEPTH` counts the jobs admitted beyond the ones already running, so that a
pool is meant to admit `slots + QUEUE_DEPTH` jobs before it refuses. `post` looks at
the queue only. A job that was put in leaves the queue when a thread has been woken
and has taken the lock, so what a full queue says depends on how far the threads are.

* `post_full_iff` — when `post` answers `Full`;
* `capacity_iff` — with a full queue the counter is at `slots + QUEUE_DEPTH` exactly
  if no thread is on its way to the queue;
* `full_at_capacity_iff` — the same for every `post` of every run.
-/

namespace CamelidEnterprise.Worker

open Foundation

variable {T : Type} {slots : Nat} {s : Pool T}

-- ---------------------------------------------------------------------------
-- One post
-- ---------------------------------------------------------------------------

theorem post_full_iff :
    (∃ job, s.post.1 = .refused job .Full) ↔ s.isOpen = true ∧ queueDepth ≤ s.jobs.length := by
  rcases post_cases s with ⟨hclosed, hpost⟩ | ⟨hopen, hfull, hpost⟩ | ⟨hopen, hroom, hpost⟩
  · rw [hpost, hclosed]
    simp
  · rw [hpost]
    exact ⟨fun _ => ⟨hopen, hfull⟩, fun _ => ⟨s.posted, rfl⟩⟩
  · rw [hpost]
    constructor
    · rintro ⟨job, hjob⟩
      cases hjob
    · rintro ⟨-, hfull⟩
      exact absurd hroom (Nat.not_lt_of_le hfull)

/-- The queue is full, so the counter says how many threads have taken a job. -/
theorem capacity_iff (sound : Sound slots s) (hfull : queueDepth ≤ s.jobs.length) :
    max slots 1 + queueDepth ≤ s.depth ↔ ∀ thread ∈ s.threads, thread.busy = true := by
  have hdepth := sound.depth_eq
  have hwidth := sound.width
  have hbound := sound.bound
  have hcount := List.countP_le_length (p := Thread.busy) (l := s.threads)
  rw [← List.countP_eq_length]
  omega

-- ---------------------------------------------------------------------------
-- Every post of a run
-- ---------------------------------------------------------------------------

variable {h : History T} {e : Entry (Pool T) (Action T) (Event T)}

/-- **When a full queue means full capacity.** A `post` of a run answers `Full` only
with `slots + QUEUE_DEPTH` jobs on the counter exactly if, where it finds the queue
open and full, every thread has taken a job. -/
theorem full_at_capacity_iff (run : (pool T slots).Run h s) (he : e ∈ h) (hpost : e.action = .post) :
    ((∃ job, e.result = .refused job .Full) → max slots 1 + queueDepth ≤ e.before.depth) ↔
      (e.before.isOpen = true → queueDepth ≤ e.before.jobs.length →
        ∀ thread ∈ e.before.threads, thread.busy = true) := by
  obtain ⟨front, back, rfl⟩ := List.append_of_mem he
  obtain ⟨run', hstep⟩ := run.split rfl
  have sound := run_sound run'
  have hresult : e.result = e.before.post.1 := by
    have hpostStep : Step e.before e.action e.result e.after := hstep
    rw [hpost] at hpostStep
    generalize e.after = s' at hpostStep
    generalize e.result = event at hpostStep ⊢
    cases hpostStep with
    | post halive => rfl
  rw [hresult, post_full_iff]
  constructor
  · intro hcapacity hopen hfull
    exact (capacity_iff sound hfull).mp (hcapacity ⟨hopen, hfull⟩)
  · rintro hbusy ⟨hopen, hfull⟩
    exact (capacity_iff sound hfull).mpr (hbusy hopen hfull)

-- ---------------------------------------------------------------------------
-- Posts in a row
-- ---------------------------------------------------------------------------

/-- Jobs offered one after the other, before anybody else takes a step. -/
def Pool.offer (s : Pool T) : Nat → Pool T
  | 0 => s
  | n + 1 => (s.offer n).post.2

theorem post_handles (s : Pool T) : s.post.2.handles = s.handles := by
  rcases post_cases s with ⟨-, hpost⟩ | ⟨-, -, hpost⟩ | ⟨-, -, hpost⟩
  · rw [hpost]
  · rw [hpost]
  · rw [hpost]

theorem offer_handles (s : Pool T) (n : Nat) : (s.offer n).handles = s.handles := by
  induction n with
  | zero => rfl
  | succ n ih => exact (post_handles _).trans ih

theorem offer_run (run : (pool T slots).Run h s) (halive : .alive ∈ s.handles) (n : Nat) :
    ∃ h', (pool T slots).Run h' (s.offer n) := by
  induction n with
  | zero => exact ⟨h, run⟩
  | succ n ih =>
    obtain ⟨h', run'⟩ := ih
    refine ⟨_, run'.snoc (Step.post ?_)⟩
    rw [offer_handles]
    exact halive

/-- One job runs and eight wait: the tenth is refused with nine on the counter. -/
theorem full_at_capacity_running :
    ∃ h s, ∃ e ∈ h, (pool Unit 1).Run h s ∧ (∃ job, e.result = .refused job .Full) ∧
      max 1 1 + queueDepth ≤ e.before.depth := by
  have run : (pool Unit 1).Run [] (spawn Unit 1) := .nil rfl
  have taken := (run.snoc (Step.post (by decide))).snoc (@Step.turn _ _ 0 rfl)
  obtain ⟨h', run'⟩ := offer_run taken (by decide) 8
  have refused := run'.snoc (Step.post (by decide))
  refine ⟨_, _, _, List.mem_append_right _ (List.mem_singleton_self _), refused, ⟨9, rfl⟩, ?_⟩
  exact (full_at_capacity_iff refused (List.mem_append_right _ (List.mem_singleton_self _))
    rfl).mpr (fun _ _ => by decide) ⟨9, rfl⟩

/-- Nine jobs are offered before the only thread gets the lock: the ninth is refused
with eight on the counter. -/
theorem full_below_capacity :
    ¬∀ (slots : Nat) (h : History Unit) (s : Pool Unit), (pool Unit slots).Run h s → ∀ e ∈ h,
      (∃ job, e.result = .refused job .Full) → max slots 1 + queueDepth ≤ e.before.depth := by
  intro hcapacity
  have run : (pool Unit 1).Run [] (spawn Unit 1) := .nil rfl
  obtain ⟨h', run'⟩ := offer_run run (by decide) 8
  have refused := run'.snoc (Step.post (by decide))
  have hnine := hcapacity 1 _ _ refused _ (List.mem_append_right _ (List.mem_singleton_self _))
    ⟨8, rfl⟩
  have height : ((spawn Unit 1).offer 8).depth = 8 := rfl
  change 1 + 8 ≤ ((spawn Unit 1).offer 8).depth at hnine
  omega

end CamelidEnterprise.Worker
