import Mathlib.Tactic.Cases
import CamelidEnterprise.Platform.Quota

/-!
# Camelid Enterprise — what the shared quota guarantees

Any number of pods configured with one window take the steps of `deployment` in
any order. The invariant (`Sound`) ties the counters to the admissions that were
handed out:

* for the current window and every later one, a counter is at least the number of
  admissions of its organization in that window — time only moves on to windows
  nothing was admitted in, and a sweep deletes rows that lie at least one whole
  window back (`retention_old`);
* an admission is handed out only below the stored limit, so the admissions of a
  window never exceed a bound on the limits stored while it was current.

`quota_run` is what the callers of `admit` and `sweep` can rely on.
-/

namespace CamelidEnterprise.PlatformStore

open Foundation Foundation.Rounding

-- ---------------------------------------------------------------------------
-- Windows
-- ---------------------------------------------------------------------------

/-- The window a moment lies in contains it. -/
theorem windowStart_spec {window : Int} (hpos : 0 < window) (now : Int) :
    windowStart now window * microsPerSecond ≤ now ∧
      now < (windowStart now window + window) * microsPerSecond := by
  unfold windowStart microsPerSecond
  have hw : 0 < window * 1000000 := by omega
  have hlo := Int.ediv_mul_le now (Int.ne_of_gt hw)
  have hhi := Int.lt_ediv_add_one_mul_self now hw
  constructor
  · calc now / (window * 1000000) * window * 1000000
        = now / (window * 1000000) * (window * 1000000) := by ring
      _ ≤ now := hlo
  · calc now < (now / (window * 1000000) + 1) * (window * 1000000) := hhi
      _ = (now / (window * 1000000) * window + window) * 1000000 := by ring

theorem windowStart_mono {window now later : Int} (hpos : 0 < window) (h : now ≤ later) :
    windowStart now window ≤ windowStart later window := by
  unfold windowStart microsPerSecond
  exact Int.mul_le_mul_of_nonneg_right (Int.ediv_le_ediv (by omega) h) hpos.le

/-- What is old enough to sweep belongs to a window before the current one. -/
theorem retention_old {window : Int} (hpos : 0 < window) (hmax : window ≤ i64Max)
    {startedAt now start : Int} (hstarted : startedAt ≤ now)
    (hold : start < startedAt / microsPerSecond - sweepRetention window) :
    start < windowStart now window := by
  have hretention : window ≤ sweepRetention window := by
    unfold sweepRetention retentionWindows
    rw [le_min_iff]
    exact ⟨by omega, hmax⟩
  have hend := (windowStart_spec hpos now).2
  unfold microsPerSecond at hold hend
  omega

-- ---------------------------------------------------------------------------
-- The table of counters
-- ---------------------------------------------------------------------------

theorem count_insert (store : Store) (key key' : WindowKey) (n : Int) :
    Store.count { store with windows := store.windows.insert key n } key' =
      if key' = key then n else store.count key' := by
  unfold Store.count
  split
  · rename_i heq
    rw [heq, AList.lookup_insert, Option.getD_some]
  · rename_i hne
    rw [AList.lookup_insert_ne hne]

theorem lookup_removeRows {windows : AList fun _ : WindowKey => Int} {keys : List WindowKey}
    {key : WindowKey} (h : key ∉ keys) :
    (removeRows windows keys).lookup key = windows.lookup key := by
  induction keys generalizing windows with
  | nil => rfl
  | cons head tail ih =>
    rw [List.mem_cons, not_or] at h
    obtain ⟨hhead, htail⟩ := h
    show (removeRows (windows.erase head) tail).lookup key = windows.lookup key
    rw [ih htail, AList.lookup_erase_ne hhead]

/-- What `ADMIT_SQL` can do: count one more request of an organization that is
below the limit or has no counter yet, or return a refusal and leave every table
as it was. -/
theorem admitSql_cases (store : Store) (organization : Str) (window : Int) :
    let key : WindowKey := ⟨organization, windowStart store.now window⟩
    let answer := admitSql store organization window
    (∃ config, store.config = some config ∧ answer.1.admitted = true ∧
      (store.windows.lookup key = none ∨ store.count key < config.requestLimit) ∧
      answer.2 = { store with windows := store.windows.insert key (store.count key + 1) }) ∨
    (answer.1.admitted = false ∧ answer.2 = store ∧
      (answer.1.requestLimit = none ↔ store.config = none)) := by
  intro key answer
  have hanswer : answer = admitSql store organization window := rfl
  unfold admitSql at hanswer
  cases hconfig : store.config with
  | none =>
    rw [hconfig] at hanswer
    rw [hanswer]
    exact Or.inr ⟨rfl, rfl, by simp⟩
  | some config =>
    simp only [hconfig] at hanswer
    cases hlookup : store.windows.lookup key with
    | none =>
      -- the organization's first request in this window
      have hcount : store.count key = 0 := by
        rw [Store.count, hlookup, Option.getD_none]
      simp only [key] at hlookup
      simp only [hlookup] at hanswer
      rw [hanswer, hcount]
      exact Or.inl ⟨config, rfl, rfl, Or.inl rfl, rfl⟩
    | some requestCount =>
      have hcount : store.count key = requestCount := by
        rw [Store.count, hlookup, Option.getD_some]
      simp only [key] at hlookup
      simp only [hlookup] at hanswer
      split at hanswer
      · rename_i hbelow
        rw [hanswer, hcount]
        exact Or.inl ⟨config, rfl, rfl, Or.inr hbelow, rfl⟩
      · rw [hanswer]
        exact Or.inr ⟨rfl, rfl, by simp⟩

/-- A counter at the limit refuses. -/
theorem admitSql_spent {store : Store} {organization : Str} {window requestCount : Int}
    {config : QuotaConfig} (hconfig : store.config = some config)
    (hlookup : store.windows.lookup ⟨organization, windowStart store.now window⟩ =
      some requestCount) (hspent : config.requestLimit ≤ requestCount) :
    admitSql store organization window =
      (⟨false, windowStart store.now window + window - (store.now : ℚ) / microsPerSecond,
        some config.requestLimit⟩, store) := by
  unfold admitSql
  simp only [hconfig, hlookup]
  rw [if_neg (not_lt.mpr hspent)]

-- ---------------------------------------------------------------------------
-- Admissions of a history
-- ---------------------------------------------------------------------------

/-- A step of a deployment's history. -/
abbrev Event := Entry Store Action Result

/-- The step admitted a request of this organization in this window. -/
def admits (window : Nat) (key : WindowKey) (event : Event) : Bool :=
  match event.action, event.result with
  | .admitRequest organization _, .admission (.ok ()) =>
    decide ((⟨organization, windowStart event.before.now window⟩ : WindowKey) = key)
  | _, _ => false

/-- How many requests a history admitted for an organization in a window. -/
def admissions (window : Nat) (history : List Event) (key : WindowKey) : Nat :=
  history.countP (admits window key)

theorem admissions_concat (window : Nat) (history : List Event) (event : Event)
    (key : WindowKey) :
    admissions window (history ++ [event]) key =
      admissions window history key + if admits window key event then 1 else 0 := by
  rw [admissions, List.countP_append, List.countP_singleton]
  rfl

/-- `bound` is at least every limit that was stored while this window was current. -/
def BoundsLimits (window : Nat) (history : List Event) (key : WindowKey) (bound : Nat) : Prop :=
  ∀ event ∈ history, windowStart event.before.now window = key.windowStartEpoch →
    ∀ config, event.before.config = some config → config.requestLimit ≤ bound

/-- The invariant of a deployment, over the history that led to the store. -/
structure Sound (window : Nat) (history : List Event) (store : Store) : Prop where
  configured : ∀ config, store.config = some config →
    config.windowSeconds = window ∧ 0 < config.requestLimit
  counted : ∀ key : WindowKey, windowStart store.now window ≤ key.windowStartEpoch →
    (admissions window history key : Int) ≤ store.count key
  swept : ∀ sweep, store.sweep = some sweep → ∀ key ∈ sweep.deleted,
    key.windowStartEpoch < windowStart store.now window
  opened : ∀ sweep, store.sweep = some sweep →
    sweep.startedAt ≤ store.now ∧ sweep.retention = sweepRetention window
  bounded : ∀ key bound, BoundsLimits window history key bound →
    admissions window history key ≤ bound

theorem Sound.start {window : Nat} {store : Store} (h : store.Fresh) : Sound window [] store := by
  obtain ⟨hconfig, hwindows, hsweep⟩ := h
  refine ⟨?_, ?_, ?_, ?_, ?_⟩
  · intro config hsome
    rw [hconfig] at hsome
    cases hsome
  · intro key _
    rw [Store.count, hwindows, AList.lookup_empty, Option.getD_none]
    exact Int.le_refl 0
  · intro sweep hsome
    rw [hsweep] at hsome
    cases hsome
  · intro sweep hsome
    rw [hsweep] at hsome
    cases hsome
  · intro key bound _
    exact Nat.zero_le bound

theorem BoundsLimits.of_concat {window : Nat} {history : List Event} {event : Event}
    {key : WindowKey} {bound : Nat} (h : BoundsLimits window (history ++ [event]) key bound) :
    BoundsLimits window history key bound :=
  fun e he => h e (List.mem_append_left _ he)

/-- A step that admits nothing, and touches only what the invariant allows. -/
theorem Sound.quiet {window : Nat} {history : List Event} {event : Event} {store after : Store}
    (hsound : Sound window history store) (hquiet : ∀ key, admits window key event = false)
    (hconfigured : ∀ config, after.config = some config →
      config.windowSeconds = window ∧ 0 < config.requestLimit)
    (hlater : windowStart store.now window ≤ windowStart after.now window)
    (hcount : ∀ key : WindowKey, windowStart after.now window ≤ key.windowStartEpoch →
      store.count key ≤ after.count key)
    (hswept : ∀ sweep, after.sweep = some sweep → ∀ key ∈ sweep.deleted,
      key.windowStartEpoch < windowStart after.now window)
    (hopened : ∀ sweep, after.sweep = some sweep →
      sweep.startedAt ≤ after.now ∧ sweep.retention = sweepRetention window) :
    Sound window (history ++ [event]) after := by
  have hsame : ∀ key, admissions window (history ++ [event]) key =
      admissions window history key := by
    intro key
    rw [admissions_concat, hquiet key]
    rfl
  refine ⟨hconfigured, ?_, hswept, hopened, ?_⟩
  · intro key hkey
    rw [hsame key]
    exact le_trans (hsound.counted key (le_trans hlater hkey)) (hcount key hkey)
  · intro key bound hbound
    rw [hsame key]
    exact hsound.bounded key bound hbound.of_concat

/-- An admission, whether its answer arrives or not. -/
theorem Sound.admitStep {window : Nat} {history : List Event} {store : Store}
    {organization : Str} {answered : Bool} {result : Except QuotaRefusal Unit}
    (hsound : Sound window history store)
    (hresult : result = .ok () → (admitSql store organization window).1.admitted = true) :
    Sound window (history ++ [⟨store, .admitRequest organization answered, .admission result,
      (admitSql store organization window).2⟩]) (admitSql store organization window).2 := by
  set current : WindowKey := ⟨organization, windowStart store.now window⟩ with hcurrent
  rcases admitSql_cases store organization window with
    ⟨config, hconfig, -, hbelow, hafter⟩ | ⟨hrefused, hafter, -⟩
  · -- the counter of the current window goes up by one
    rw [← hcurrent] at hbelow hafter
    rw [hafter]
    have hlimit := (hsound.configured config hconfig).2
    have hcount : (admissions window history current : Int) ≤ store.count current :=
      hsound.counted current (le_refl _)
    have hroom : (admissions window history current : Int) < config.requestLimit := by
      rcases hbelow with hnone | hbelow
      · have hzero : store.count current = 0 := by
          rw [Store.count, hnone, Option.getD_none]
        omega
      · exact lt_of_le_of_lt hcount hbelow
    refine ⟨hsound.configured, ?_, hsound.swept, hsound.opened, ?_⟩
    · intro key hkey
      have hold := hsound.counted key hkey
      rw [admissions_concat, count_insert]
      by_cases heq : key = current
      · rw [if_pos heq, heq]
        push_cast
        split <;> omega
      · have hother : ∀ event : Event, event.action = .admitRequest organization answered →
            event.before = store → admits window key event = false := by
          intro event haction hbefore
          unfold admits
          rw [haction, hbefore]
          split
          · rename_i org _ horg _
            obtain ⟨rfl, -⟩ := Action.admitRequest.inj horg
            exact decide_eq_false fun h => heq h.symm
          · rfl
        rw [hother _ rfl rfl, if_neg heq]
        exact hold
    · intro key bound hbound
      have hold := hsound.bounded key bound hbound.of_concat
      rw [admissions_concat]
      split
      · -- the limit that let this request in is one of those bounded
        rename_i hadmits
        have hkey : current = key := by
          unfold admits at hadmits
          split at hadmits
          · rename_i org _ horg _
            obtain ⟨rfl, -⟩ := Action.admitRequest.inj horg
            exact of_decide_eq_true hadmits
          · cases hadmits
        have hle := hbound _ (List.mem_append_right _ List.mem_cons_self)
          (by rw [← hkey]) config hconfig
        rw [← hkey]
        omega
      · exact hold
  · -- refused: nothing is written, and nothing is handed out
    rw [hafter]
    refine hsound.quiet ?_ hsound.configured (le_refl _) (fun _ _ => le_refl _) hsound.swept
      hsound.opened
    intro key
    unfold admits
    split
    · rename_i hok
      have hcontra := hresult (Result.admission.inj hok)
      rw [hrefused] at hcontra
      cases hcontra
    · rfl

/-- A pod with the stored window changes at most the limit. -/
theorem configureQuota_spec {window limit : Nat} {store : Store}
    (hstored : ∀ config, store.config = some config →
      config.windowSeconds = window ∧ 0 < config.requestLimit)
    (hlimit : 0 < limit) (mode : QuotaWindowChange) :
    let after := (configureQuota store limit window mode).2
    after.now = store.now ∧ after.windows = store.windows ∧ after.sweep = store.sweep ∧
      ∀ config, after.config = some config →
        config.windowSeconds = window ∧ 0 < config.requestLimit := by
  have hlimit' : (0 : Int) < limit := by exact_mod_cast hlimit
  unfold configureQuota
  cases hconfig : store.config with
  | none =>
    refine ⟨rfl, rfl, rfl, ?_⟩
    intro config hsome
    obtain rfl := Option.some.inj hsome
    exact ⟨rfl, hlimit'⟩
  | some stored =>
    obtain ⟨hwindow, hpos⟩ := hstored stored hconfig
    simp only [hwindow, ne_eq, not_true_eq_false, if_false]
    split
    · refine ⟨rfl, rfl, rfl, ?_⟩
      intro config hsome
      exact hstored config hsome
    · refine ⟨rfl, rfl, rfl, ?_⟩
      intro config hsome
      obtain rfl := Option.some.inj hsome
      exact ⟨rfl, hlimit'⟩

theorem not_admits_of_action {window : Nat} {event : Event}
    (h : ∀ organization answered, event.action ≠ .admitRequest organization answered) (key : WindowKey) :
    admits window key event = false := by
  unfold admits
  split
  · rename_i organization answered haction _
    exact absurd haction (h organization answered)
  · rfl

/-- **Key lemma.** Every step of every pod keeps the deployment sound. -/
theorem Sound.step {window : Nat} (hpos : 0 < window) (hmax : (window : Int) ≤ i64Max)
    {history : List Event} {store after : Store} {action : Action} {result : Result}
    (hsound : Sound window history store) (hstep : Step window store action result after) :
    Sound window (history ++ [⟨store, action, result, after⟩]) after := by
  have hpos' : (0 : Int) < window := by exact_mod_cast hpos
  cases hstep with
  | @tick now hclock =>
    have hlater : windowStart store.now window ≤ windowStart now window :=
      windowStart_mono hpos' hclock
    refine hsound.quiet (not_admits_of_action (by intros; simp)) hsound.configured hlater
      (fun _ _ => le_refl _) ?_ ?_
    · intro sweep hsome key hkey
      exact lt_of_lt_of_le (hsound.swept sweep hsome key hkey) hlater
    · intro sweep hsome
      obtain ⟨hstarted, hretention⟩ := hsound.opened sweep hsome
      exact ⟨le_trans hstarted hclock, hretention⟩
  | @admitRequest organization =>
    refine hsound.admitStep ?_
    intro hok
    unfold readAdmission at hok
    split at hok
    · assumption
    · split at hok <;> cases hok
  | @admitLost organization =>
    refine hsound.admitStep ?_
    intro hok
    cases hok
  | @configure limit mode hlimit =>
    obtain ⟨hnow, hwindows, hsweep, hconfigured⟩ :=
      configureQuota_spec hsound.configured hlimit mode
    refine hsound.quiet (not_admits_of_action (by intros; simp)) hconfigured
      (by rw [hnow]) ?_ ?_ ?_
    · intro key _
      rw [Store.count, Store.count, hwindows]
    · rw [hnow, hsweep]
      exact hsound.swept
    · rw [hnow, hsweep]
      exact hsound.opened
  | @sweepSkipped sweep hheld =>
    exact hsound.quiet (not_admits_of_action (by intros; simp)) hsound.configured (le_refl _)
      (fun _ _ => le_refl _) hsound.swept hsound.opened
  | sweepBegin hfree =>
    refine hsound.quiet (not_admits_of_action (by intros; simp)) hsound.configured (le_refl _)
      (fun _ _ => le_refl _) ?_ ?_
    · intro sweep hsome key hkey
      obtain rfl := Option.some.inj hsome
      cases hkey
    · intro sweep hsome
      obtain rfl := Option.some.inj hsome
      exact ⟨le_refl _, rfl⟩
  | @sweepBatch sweep batch hheld hopen hbatch hmatch hlimit =>
    obtain ⟨hstarted, hretention⟩ := hsound.opened sweep hheld
    refine hsound.quiet (not_admits_of_action (by intros; simp)) hsound.configured (le_refl _)
      (fun _ _ => le_refl _) ?_ ?_
    · intro sweep' hsome key hkey
      obtain rfl := Option.some.inj hsome
      rcases List.mem_append.mp hkey with hkey | hkey
      · exact hsound.swept sweep hheld key hkey
      · -- the statement picked the row by its age
        have hold := (List.mem_filter.mp (hmatch key hkey)).2
        rw [Bool.and_eq_true, decide_eq_true_eq, hretention] at hold
        exact retention_old hpos' hmax hstarted hold.1
    · intro sweep' hsome
      obtain rfl := Option.some.inj hsome
      exact ⟨hstarted, hretention⟩
  | @sweepCommit sweep hheld hdone =>
    refine hsound.quiet (not_admits_of_action (by intros; simp)) hsound.configured (le_refl _) ?_
      ?_ ?_
    · intro key hkey
      have hkept : key ∉ sweep.deleted := fun hmem =>
        absurd (hsound.swept sweep hheld key hmem) (not_lt.mpr hkey)
      show store.count key ≤ ((removeRows store.windows sweep.deleted).lookup key).getD 0
      rw [lookup_removeRows hkept]
      exact le_refl _
    · intro sweep' hsome
      cases hsome
    · intro sweep' hsome
      cases hsome
  | sweepAbort =>
    refine hsound.quiet (not_admits_of_action (by intros; simp)) hsound.configured (le_refl _)
      (fun _ _ => le_refl _) ?_ ?_
    · intro sweep' hsome
      cases hsome
    · intro sweep' hsome
      cases hsome
  | dropConfig =>
    refine hsound.quiet (not_admits_of_action (by intros; simp)) ?_ (le_refl _)
      (fun _ _ => le_refl _) hsound.swept hsound.opened
    intro config hsome
    cases hsome

-- ---------------------------------------------------------------------------
-- Retry-After
-- ---------------------------------------------------------------------------

/-- The seconds from a moment to the end of its window, as the database computes
them. -/
def remainingSeconds (now window : Int) : ℚ :=
  windowStart now window + window - (now : ℚ) / microsPerSecond

/-- What a refusal reports for that many seconds. -/
def retryAfterNanos (seconds : ℚ) : Nat := fromSecsF64 (max 0 (min u32Max (toDouble seconds)))

theorem remainingSeconds_bounds {window : Int} (hpos : 0 < window) (now : Int) :
    1 / 10 ^ 6 ≤ remainingSeconds now window ∧ remainingSeconds now window ≤ window := by
  obtain ⟨hlo, hhi⟩ := windowStart_spec hpos now
  unfold remainingSeconds microsPerSecond at *
  have hlo' : ((windowStart now window * 1000000 : Int) : ℚ) ≤ now := by exact_mod_cast hlo
  have hhi' : (now : ℚ) + 1 ≤ ((windowStart now window + window) * 1000000 : Int) := by
    exact_mod_cast hhi
  push_cast at hlo' hhi' ⊢
  constructor
  · linarith
  · linarith

theorem fromSecsF64_natCast (seconds : Nat) : fromSecsF64 seconds = seconds * 10 ^ 9 := by
  have hexact : (seconds : ℚ) * 10 ^ 9 = ((seconds * 10 ^ 9 : Nat) : Int) := by push_cast; ring
  have hround : roundHalfEven ((seconds : ℚ) * 10 ^ 9) = ((seconds * 10 ^ 9 : Nat) : Int) :=
    le_antisymm (roundHalfEven_le hexact.le) (le_roundHalfEven hexact.ge)
  rw [fromSecsF64, hround, Int.toNat_natCast]

theorem retryAfterNanos_pos {x : ℚ} (hx : 1 / 10 ^ 6 ≤ x) : 0 < retryAfterNanos x := by
  have hpos : 0 < x := lt_of_lt_of_le (by norm_num) hx
  have hnear := (abs_le.mp (toDouble_near hpos)).1
  -- rounding leaves more than a nanosecond of a microsecond
  have hdouble : 1 / 10 ^ 9 ≤ toDouble x := by linarith
  have hclamped : ((1 : Int) : ℚ) ≤ max 0 (min u32Max (toDouble x)) * 10 ^ 9 := by
    have hmin : (1 : ℚ) / 10 ^ 9 ≤ min u32Max (toDouble x) :=
      le_min (by unfold u32Max; norm_num) hdouble
    have hmax := le_trans hmin (le_max_right 0 (min u32Max (toDouble x)))
    push_cast
    linarith
  have hround := le_roundHalfEven hclamped
  unfold retryAfterNanos fromSecsF64
  omega

theorem retryAfterNanos_le {x : ℚ} (hx : 0 < x) {window : Nat} (h : x ≤ window) :
    retryAfterNanos x ≤ window * 10 ^ 9 := by
  have hclamped : max 0 (min u32Max (toDouble x)) ≤ window := by
    refine max_le (Nat.cast_nonneg window) ?_
    by_cases hwide : (window : Int) < 2 ^ 53
    · -- the window is itself a double
      have hle := toDouble_le hx hwide (by exact_mod_cast h)
      exact le_trans (min_le_right _ _) (by exact_mod_cast hle)
    · have hle : (2 : ℚ) ^ 53 ≤ window := by exact_mod_cast not_lt.mp hwide
      refine le_trans (min_le_left _ _) (le_trans ?_ hle)
      unfold u32Max
      norm_num
  have hnanos : max 0 (min u32Max (toDouble x)) * 10 ^ 9 ≤ ((window * 10 ^ 9 : Nat) : Int) := by
    push_cast
    linarith
  have hround := roundHalfEven_le hnanos
  unfold retryAfterNanos fromSecsF64
  omega

/-- Up to the clamp a refusal names the end of the window to the microsecond. -/
theorem retryAfterNanos_near {x : ℚ} (hx : 0 < x) (h : x ≤ u32Max) :
    |(retryAfterNanos x : ℚ) / 10 ^ 9 - x| < 1 / 10 ^ 6 := by
  have hpos := toDouble_pos hx
  have hle : toDouble x ≤ u32Max := by
    have hint : ((2 ^ 32 - 1 : Int) : ℚ) = u32Max := by unfold u32Max; norm_num
    rw [← hint]
    exact toDouble_le hx (by norm_num) (by rw [hint]; exact h)
  have hclamp : max 0 (min u32Max (toDouble x)) = toDouble x := by
    rw [min_eq_right hle, max_eq_right hpos.le]
  have hround := abs_le.mp (roundHalfEven_near (toDouble x * 10 ^ 9))
  have hdouble := abs_le.mp (toDouble_near hx)
  have hnonneg : 0 ≤ roundHalfEven (toDouble x * 10 ^ 9) :=
    le_roundHalfEven (by push_cast; positivity)
  have hcast : ((retryAfterNanos x : Nat) : ℚ) = roundHalfEven (toDouble x * 10 ^ 9) := by
    unfold retryAfterNanos fromSecsF64
    rw [hclamp]
    exact_mod_cast Int.toNat_of_nonneg hnonneg
  unfold u32Max at h
  rw [hcast, abs_lt]
  constructor
  · linarith [hround.1, hdouble.1]
  · linarith [hround.2, hdouble.2]

/-- Beyond it a refusal names the clamp, whatever the end of the window is. -/
theorem retryAfterNanos_clamped {x : ℚ} (h : 2 ^ 32 ≤ x) :
    retryAfterNanos x = (2 ^ 32 - 1) * 10 ^ 9 := by
  have hnear := (abs_le.mp (toDouble_near (lt_of_lt_of_le (by norm_num) h))).1
  have hclamp : max 0 (min u32Max (toDouble x)) = ((2 ^ 32 - 1 : Nat) : ℚ) := by
    have hle : u32Max ≤ toDouble x := by
      unfold u32Max
      linarith
    rw [min_eq_left hle, max_eq_right (by unfold u32Max; norm_num)]
    unfold u32Max
    norm_num
  rw [retryAfterNanos, hclamp, fromSecsF64_natCast]

-- ---------------------------------------------------------------------------
-- Whole runs
-- ---------------------------------------------------------------------------

theorem run_sound {window : Nat} (hpos : 0 < window) (hmax : (window : Int) ≤ i64Max)
    {history : List Event} {store : Store} (run : (deployment window).Run history store) :
    Sound window history store :=
  run.history_induction (fun _ hfresh => Sound.start hfresh)
    fun _ _ _ _ _ _ hsound hstep => hsound.step hpos hmax hstep

/-- An admission is handed out only below the limit stored at that moment. -/
theorem admission_below_limit {window : Nat} {front : List Event} {store after : Store}
    {organization : Str} {answered : Bool} (hsound : Sound window front store)
    (hstep : Step window store (.admitRequest organization answered) (.admission (.ok ())) after) :
    ∃ config, store.config = some config ∧
      (admissions window front ⟨organization, windowStart store.now window⟩ : Int) <
        config.requestLimit := by
  generalize hresult : Result.admission (.ok ()) = result at hstep
  cases hstep with
  | admitLost => cases hresult
  | admitRequest =>
    rcases admitSql_cases store organization window with
      ⟨config, hconfig, -, hbelow, -⟩ | ⟨hrefused, -, -⟩
    · have hcount := hsound.counted ⟨organization, windowStart store.now window⟩ (le_refl _)
      refine ⟨config, hconfig, ?_⟩
      rcases hbelow with hnone | hbelow
      · -- no counter yet, and a stored limit is positive
        have hlimit := (hsound.configured config hconfig).2
        rw [Store.count, hnone, Option.getD_none] at hcount
        exact lt_of_le_of_lt hcount hlimit
      · exact lt_of_le_of_lt hcount hbelow
    · have hrow := Result.admission.inj hresult
      rw [readAdmission, hrefused, if_neg Bool.false_ne_true] at hrow
      split at hrow <;> cases hrow

/-- A refusal's time is read off the row of the statement that refused. -/
theorem retryAfter_of_step {window : Nat} {store after : Store} {action : Action}
    {retryAfter : Nat}
    (hstep : Step window store action (.admission (.error (.Exceeded retryAfter))) after) :
    retryAfter = retryAfterNanos (remainingSeconds store.now window) := by
  generalize hresult : Result.admission (.error (.Exceeded retryAfter)) = result at hstep
  cases hstep with
  | @admitRequest organization =>
    have hrow := Result.admission.inj hresult
    have hremaining : (admitSql store organization window).1.retryAfterSeconds =
        remainingSeconds store.now window := by
      unfold admitSql
      dsimp only
      split
      · rfl
      · split
        · rfl
        · split <;> rfl
    unfold readAdmission at hrow
    split at hrow
    · cases hrow
    · split at hrow
      · cases hrow
      · rw [hremaining] at hrow
        exact QuotaRefusal.Exceeded.inj (Except.error.inj hrow)
  | admitLost => cases Result.admission.inj hresult
  | tick => cases hresult
  | configure => cases hresult
  | sweepSkipped => cases hresult
  | sweepBegin => cases hresult
  | sweepBatch => cases hresult
  | sweepCommit => cases hresult
  | sweepAbort => cases hresult
  | dropConfig => cases hresult

/-- What a sweep takes away is never a row of the window that is current then. -/
theorem sweepCommit_keeps {window : Nat} {front : List Event} {store after : Store}
    {result : Result} (hsound : Sound window front store)
    (hstep : Step window store .sweepCommit result after) (organization : Str) :
    after.windows.lookup ⟨organization, windowStart store.now window⟩ =
      store.windows.lookup ⟨organization, windowStart store.now window⟩ := by
  cases hstep with
  | @sweepCommit sweep hheld hdone =>
    refine lookup_removeRows ?_
    intro hmem
    exact lt_irrefl _ (hsound.swept sweep hheld _ hmem)

/-- Without a configuration row an admission is unavailable and writes nothing. -/
theorem admit_unconfigured {window : Nat} {store after : Store} {organization : Str}
    {answered : Bool} {result : Result} (hnone : store.config = none)
    (hstep : Step window store (.admitRequest organization answered) result after) :
    (∃ error, result = .admission (.error (.Unavailable error))) ∧ after = store := by
  have hsql : admitSql store organization window =
      (⟨false, remainingSeconds store.now window, none⟩, store) := by
    unfold admitSql
    rw [hnone]
    rfl
  cases hstep with
  | admitRequest =>
    rw [hsql]
    exact ⟨⟨_, rfl⟩, rfl⟩
  | admitLost =>
    rw [hsql]
    exact ⟨⟨_, rfl⟩, rfl⟩

/-- **The shared quota.** In every run of pods configured with one window:
an admission finds the window's count below the limit stored at that moment; so
the admissions of a window are at most any bound on the limits stored while it was
current; a sweep leaves the current window's rows; without a configuration row
nothing is admitted or written; and a refusal says a time in `(0, window]` that,
short of the clamp at `u32::MAX` seconds, leads to the end of the current window to
within a microsecond. -/
theorem quota_run {window : Nat} (hpos : 0 < window) (hmax : (window : Int) ≤ i64Max)
    {history : List Event} {store : Store} (run : (deployment window).Run history store) :
    (∀ front event back, history = front ++ event :: back → ∀ organization answered,
      event.action = .admitRequest organization answered → event.result = .admission (.ok ()) →
      ∃ config, event.before.config = some config ∧
        (admissions window front ⟨organization, windowStart event.before.now window⟩ : Int) <
          config.requestLimit) ∧
    (∀ key bound, BoundsLimits window history key bound →
      admissions window history key ≤ bound) ∧
    (∀ event ∈ history, event.action = .sweepCommit → ∀ organization,
      let key : WindowKey := ⟨organization, windowStart event.before.now window⟩
      event.after.windows.lookup key = event.before.windows.lookup key) ∧
    (∀ event ∈ history, ∀ organization answered, event.action = .admitRequest organization answered →
      event.before.config = none →
      (∃ error, event.result = .admission (.error (.Unavailable error))) ∧
        event.after = event.before) ∧
    ∀ event ∈ history, ∀ retryAfter, event.result = .admission (.error (.Exceeded retryAfter)) →
      0 < retryAfter ∧ retryAfter ≤ window * 10 ^ 9 ∧
      (windowStart event.before.now window + window - (event.before.now : ℚ) / microsPerSecond ≤
        u32Max →
        |((event.before.now : ℚ) / microsPerSecond + (retryAfter : ℚ) / 10 ^ 9) -
          (windowStart event.before.now window + window)| < 1 / 10 ^ 6) := by
  have hpos' : (0 : Int) < window := by exact_mod_cast hpos
  refine ⟨?_, (run_sound hpos hmax run).bounded, ?_, ?_, ?_⟩
  · intro front event back hcut organization answered haction hresult
    obtain ⟨hfront, hstep⟩ := run.split hcut
    rw [haction, hresult] at hstep
    exact admission_below_limit (run_sound hpos hmax hfront) hstep
  · intro event hevent haction organization key
    obtain ⟨front, back, hcut⟩ := List.append_of_mem hevent
    obtain ⟨hfront, hstep⟩ := run.split hcut
    rw [haction] at hstep
    exact sweepCommit_keeps (run_sound hpos hmax hfront) hstep organization
  · intro event hevent organization answered haction hnone
    have hstep := run.step_of_mem hevent
    rw [haction] at hstep
    exact admit_unconfigured hnone hstep
  · intro event hevent retryAfter hresult
    have hstep := run.step_of_mem hevent
    rw [hresult] at hstep
    set now := event.before.now
    have hretry : retryAfter = retryAfterNanos (remainingSeconds now window) :=
      retryAfter_of_step hstep
    obtain ⟨hlo, hhi⟩ := remainingSeconds_bounds hpos' now
    have hx : 0 < remainingSeconds now window := lt_of_lt_of_le (by norm_num) hlo
    rw [hretry]
    refine ⟨retryAfterNanos_pos hlo, retryAfterNanos_le hx (by exact_mod_cast hhi), ?_⟩
    intro hshort
    have hnear := retryAfterNanos_near hx hshort
    -- the same distance, measured from the moment of the refusal
    have hsame : ((now : ℚ) / microsPerSecond +
        (retryAfterNanos (remainingSeconds now window) : ℚ) / 10 ^ 9) -
          (windowStart now window + window) =
        (retryAfterNanos (remainingSeconds now window) : ℚ) / 10 ^ 9 -
          remainingSeconds now window := by
      unfold remainingSeconds
      push_cast
      ring
    rw [hsame]
    exact hnear

-- ---------------------------------------------------------------------------
-- One organization with a limit of one
-- ---------------------------------------------------------------------------

/-- A database that was configured with a limit of one at time zero and has
admitted a request of organization `a` since; its clock stands at `now`. -/
def spentStore (window : Nat) (now : Int) : Store where
  now
  config := some ⟨1, window⟩
  windows := (∅ : AList fun _ : WindowKey => Int).insert ⟨['a'], 0⟩ 1
  sweep := none

/-- How it came to be, at time zero. -/
def spentHistory (window : Nat) : List Event :=
  [⟨⟨0, none, ∅, none⟩, .configure 1 .Refuse, .configured (.ok .Initialized),
      ⟨0, some ⟨1, window⟩, ∅, none⟩⟩,
    ⟨⟨0, some ⟨1, window⟩, ∅, none⟩, .admitRequest ['a'] true, .admission (.ok ()),
      spentStore window 0⟩]

theorem spentHistory_run (window : Nat) :
    (deployment window).Run (spentHistory window) (spentStore window 0) := by
  have hstart : windowStart 0 window = 0 := by
    rw [windowStart, Int.zero_ediv, Int.zero_mul]
  have hadmission : admitSql ⟨0, some ⟨1, window⟩, ∅, none⟩ ['a'] window =
      (⟨true, remainingSeconds 0 window, some 1⟩, spentStore window 0) := by
    simp only [admitSql, AList.lookup_empty, hstart]
    rw [remainingSeconds, hstart]
    rfl
  have hconfigure : Step window ⟨0, none, ∅, none⟩ (.configure 1 .Refuse)
      (.configured (.ok .Initialized)) ⟨0, some ⟨1, window⟩, ∅, none⟩ :=
    Step.configure (by decide)
  have hstep : Step window ⟨0, some ⟨1, window⟩, ∅, none⟩ (.admitRequest ['a'] true)
      (.admission (.ok ())) (spentStore window 0) := by
    have hadmitStep : Step window ⟨0, some ⟨1, window⟩, ∅, none⟩ (.admitRequest ['a'] true) _ _ :=
      Step.admitRequest
    rw [hadmission] at hadmitStep
    exact hadmitStep
  have hfresh : (deployment window).Run [] ⟨0, none, ∅, none⟩ := .nil ⟨rfl, rfl, rfl⟩
  exact (hfresh.snoc hconfigure).snoc hstep

/-- One more request in the same window is refused. -/
theorem spentStore_refuses {window : Nat} {now : Int} (hstart : windowStart now window = 0) :
    Step window (spentStore window now) (.admitRequest ['a'] true)
      (.admission (.error (.Exceeded (retryAfterNanos (remainingSeconds now window)))))
      (spentStore window now) := by
  have hadmission : admitSql (spentStore window now) ['a'] window =
      (⟨false, remainingSeconds now window, some 1⟩, spentStore window now) := by
    have hconfig : (spentStore window now).config = some ⟨1, window⟩ := rfl
    have hlookup : (spentStore window now).windows.lookup ⟨['a'], windowStart now window⟩ =
        some 1 := by
      rw [hstart]
      exact AList.lookup_insert _
    exact admitSql_spent hconfig hlookup (Int.le_refl 1)
  have hstep : Step window (spentStore window now) (.admitRequest ['a'] true) _ _ := Step.admitRequest
  rw [hadmission] at hstep
  exact hstep

/-- In a window of a minute the organization is admitted once, which is the most a
limit of one allows. -/
theorem quota_run_minute :
    ∃ history store, (deployment 60).Run history store ∧
      admissions 60 history ⟨['a'], 0⟩ = 1 ∧
      ∀ bound, BoundsLimits 60 history ⟨['a'], 0⟩ bound → 1 ≤ bound := by
  have hcount : admissions 60 (spentHistory 60) ⟨['a'], 0⟩ = 1 := by decide
  refine ⟨spentHistory 60, spentStore 60 0, spentHistory_run 60, hcount, ?_⟩
  intro bound hbound
  have hle := (quota_run (by decide) (by decide) (spentHistory_run 60)).2.1 ⟨['a'], 0⟩ bound hbound
  rwa [hcount] at hle

/-- In a window of `2 ^ 33` seconds the clamp hides its end: two refusals a second
apart in one window report the same wait, and neither wait leads to the end. -/
theorem clamped_retryAfter :
    ∃ history store, (deployment (2 ^ 33)).Run history store ∧
      ∃ first ∈ history, ∃ second ∈ history, ∃ retryAfter : Nat,
        first.result = .admission (.error (.Exceeded retryAfter)) ∧
        second.result = .admission (.error (.Exceeded retryAfter)) ∧
        windowStart first.before.now (2 ^ 33) = windowStart second.before.now (2 ^ 33) ∧
        first.before.now + 1000000 = second.before.now ∧
        retryAfter < 2 ^ 32 * 10 ^ 9 ∧
        2 ^ 32 ≤ remainingSeconds second.before.now (2 ^ 33) := by
  have hstart : ∀ now : Int, now = 0 ∨ now = 1000000 → windowStart now (2 ^ 33) = 0 := by
    rintro now (rfl | rfl) <;> decide
  have hremaining : ∀ now : Int, now = 0 ∨ now = 1000000 →
      2 ^ 32 ≤ remainingSeconds now (2 ^ 33) := by
    intro now hnow
    rw [remainingSeconds, hstart now hnow]
    rcases hnow with rfl | rfl <;> norm_num [microsPerSecond]
  have hrefuse : ∀ now : Int, now = 0 ∨ now = 1000000 →
      Step (2 ^ 33) (spentStore (2 ^ 33) now) (.admitRequest ['a'] true)
        (.admission (.error (.Exceeded ((2 ^ 32 - 1) * 10 ^ 9)))) (spentStore (2 ^ 33) now) := by
    intro now hnow
    have hcast : ((2 ^ 33 : Nat) : Int) = 2 ^ 33 := by norm_num
    have hzero : windowStart now (2 ^ 33 : Nat) = 0 := by rw [hcast, hstart now hnow]
    have hstep := spentStore_refuses hzero
    rwa [hcast, retryAfterNanos_clamped (hremaining now hnow)] at hstep
  have htick : Step (2 ^ 33) (spentStore (2 ^ 33) 0) (.tick 1000000) .silent
      (spentStore (2 ^ 33) 1000000) := Step.tick (by decide)
  have hrun := (((spentHistory_run (2 ^ 33)).snoc (hrefuse 0 (Or.inl rfl))).snoc htick).snoc
    (hrefuse 1000000 (Or.inr rfl))
  refine ⟨_, _, hrun, _, List.mem_append_left _ (List.mem_append_left _
    (List.mem_append_right _ List.mem_cons_self)), _, List.mem_append_right _ List.mem_cons_self,
    _, rfl, rfl, ?_, ?_, by norm_num, hremaining 1000000 (Or.inr rfl)⟩
  · exact (hstart 0 (Or.inl rfl)).trans (hstart 1000000 (Or.inr rfl)).symm
  · rfl

end CamelidEnterprise.PlatformStore
